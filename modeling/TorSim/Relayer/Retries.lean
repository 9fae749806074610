/-
  TorSim.Relayer.Retries — a submission over HTTP, sent again when it fails.

  `Connector.__req` sends a request up to three times, with a pause after every
  exception of the transport.  The chain goes on in between, and the exception may
  stand for a request that never arrived or for an answer that never came back.
  Nothing in the chain recognises a transaction it has taken before.

  Main results:
    * `attempt_accepts` — when one request adds to the accepted transactions.
    * `accepted_eq_taken` — **the call is accepted once for every request that
      arrives and finds room**.
    * `accepted_once_iff` — when that is at most once.
-/
import TorSim.Relayer.Connector
import TorSim.Blockchain.ChainRuns

namespace TorSim

open TorSim.Lib

namespace HttpConnector

/-! ## §1. The call. -/

/-- Whose submission a transaction is: the call's, or another one's. -/
inductive Sender (τ : Type) where
  | call
  | other (t : τ)

def Sender.isCall {τ : Type} : Sender τ → Bool
  | .call => true
  | .other _ => false

/-- Where the call stands: with rounds of its loop left, or at its end. -/
inductive Call where
  | trying (left : Nat)
  | ended (result : Except Exn String)

/-- `range(3)`. -/
def Call.start : Call := .trying 3

/-- A failed request: the next round; behind the last one `__req` returns `None`, and
`resp["msg"]` raises.  What is no `Exception` ends the call at once. -/
def afterFailure (left : Nat) (e : Exn) : Call :=
  if e.isException then
    if left = 0 then .ended (.error ⟨.type, "'NoneType' object is not subscriptable"⟩)
    else .trying left
  else .ended (.error e)

/-- The assertions on an answer. -/
def readAnswer (resp : Handlers.StandardResponse) : Except Exn String := do
  assertE (resp.error == "") ("response error: " ++ resp.error)
  assertE (resp.code == 200) ("response code: " ++ toString resp.code)
  return resp.msg

section

variable {τ : Type} [Contracts] [Sha256]

/-- The chain and the call. -/
structure Sending (τ : Type) where
  chain : Chain (Sender τ)
  call : Call

omit [Contracts] in
/-- One round of the loop of `__req`, with `left` rounds after it. -/
def attempt (info : Json) (link : Link) (time : PyFloat) (left : Nat) (c : Chain (Sender τ)) :
    Sending τ :=
  match link with
  | .lost e => ⟨c, afterFailure left e⟩
  | .unanswered e =>
      ⟨(Handlers.post (Handlers.sendTx time .call info) c).2, afterFailure left e⟩
  | .delivered =>
      let r := Handlers.post (Handlers.sendTx time .call info) c
      ⟨r.2, .ended (readAnswer r.1)⟩

/-- A step of the chain or of its other clients, or the next request of the call. -/
inductive Action (τ : Type) where
  | chain (a : Chain.Action (Sender τ))
  | attempt (link : Link) (time : PyFloat)

/-- Only the call submits in its own name. -/
def ofOthers : Chain.Action (Sender τ) → Bool
  | .submit _ tag _ => !tag.isCall
  | _ => true

/-- `send_tx` of a transaction with document `info`, the chain running. -/
def step (cfg : Config) (info : Json) (s : Sending τ) : Action τ → Option (Sending τ)
  | .chain a =>
      if ofOthers a then (Chain.step cfg s.chain a).map (fun c => { s with chain := c }) else none
  | .attempt link time =>
      match s.call with
      | .trying (left + 1) => some (attempt info link time left s.chain)
      | _ => none

/-! ## §2. What is counted. -/

omit [Contracts] [Sha256] in
/-- How often the pool took the transaction of the call. -/
def acceptedTimes (c : Chain (Sender τ)) : Nat := c.accepted.countP (fun e => e.1.isCall)

omit [Contracts] [Sha256] in
/-- How often the transaction of the call was executed. -/
def executedTimes (c : Chain (Sender τ)) : Nat :=
  c.executed.countP (fun e => (e.tag.map Sender.isCall).getD false)

/-- The request reaches the chain. -/
def arrives : Link → Bool
  | .lost _ => false
  | _ => true

/-- The transaction decodes, and its memo can be marked. -/
def takeable (info : Json) (time : PyFloat) : Bool :=
  match Transaction.fromJson info (some .pending) with
  | .ok tx =>
      match SyncMemPool.markTx "mp_put" time tx with
      | .ok _ => true
      | .error _ => false
  | .error _ => false

omit [Contracts] [Sha256] in
/-- The step is a request that arrives and finds room. -/
def taken (info : Json) (s : Sending τ) : Action τ → Bool
  | .attempt link time => arrives link && takeable info time && !s.chain.pool.isFull
  | .chain _ => false

/-! ## §3. One step. -/

omit [Contracts] [Sha256] in
/-- What a submission of the call adds to the accepted ones. -/
theorem submit_accepts (time : PyFloat) (tx : Transaction) (c : Chain (Sender τ)) :
    acceptedTimes (c.submit time .call tx) = acceptedTimes c
      + if (c.pool.putTx time .call tx).1 = .ok true then 1 else 0 := by
  unfold acceptedTimes
  rcases Chain.submit_cases time .call tx c with ⟨hput, hacc⟩ | ⟨hput, hsame⟩
  · rw [if_pos hput, hacc, List.countP_append]
    rfl
  · rw [if_neg hput, hsame, Nat.add_zero]

omit [Contracts] [Sha256] in
/-- The pool takes a transaction that it has room for and whose memo it can mark. -/
theorem putTx_takes (time : PyFloat) (tx : Transaction) (mp : SyncMemPool (Sender τ)) :
    (mp.putTx time .call tx).1 = .ok true
      ↔ (∃ marked, SyncMemPool.markTx "mp_put" time tx = .ok marked) ∧ mp.isFull = false := by
  constructor
  · intro h
    rcases SyncMemPool.putTx_cases time .call tx mp with
      ⟨marked, hfull, hmark, _⟩ | ⟨_, hput⟩ | ⟨e, hput⟩
    · exact ⟨⟨marked, hmark⟩, hfull⟩
    · rw [hput] at h
      cases h
    · rw [hput] at h
      cases h
  · rintro ⟨⟨marked, hmark⟩, hfull⟩
    rw [SyncMemPool.putTx_of_marked .call hfull hmark]

omit [Contracts] in
/-- What a request that arrives adds. -/
theorem post_accepts (info : Json) (time : PyFloat) (c : Chain (Sender τ)) :
    acceptedTimes (Handlers.post (Handlers.sendTx time .call info) c).2
      = acceptedTimes c + if takeable info time && !c.pool.isFull then 1 else 0 := by
  rw [Handlers.post_state]
  unfold takeable
  cases hf : Transaction.fromJson info (some .pending) with
  | error e =>
      -- a body that does not decode never reaches the pool
      have hrun : Handlers.sendTx time .call info c = (.error e, c) := by
        unfold Handlers.sendTx
        rw [hf, Comp.lift_error_bind_run]
      rw [hrun]
      rfl
  | ok tx =>
      rw [Handlers.sendTx_decoded hf, submit_accepts]
      refine congrArg _ (if_congr ?_ rfl rfl)
      rw [putTx_takes]
      dsimp only
      cases hm : SyncMemPool.markTx "mp_put" time tx with
      | error e => simp
      | ok marked => simp

omit [Contracts] in
/-- **What one request adds to the accepted transactions.** -/
theorem attempt_accepts (info : Json) (link : Link) (time : PyFloat) (left : Nat)
    (c : Chain (Sender τ)) :
    acceptedTimes (attempt info link time left c).chain = acceptedTimes c
      + if arrives link && takeable info time && !c.pool.isFull then 1 else 0 := by
  cases link with
  | lost e =>
      show acceptedTimes c = acceptedTimes c + 0
      rw [Nat.add_zero]
  | unanswered e =>
      show acceptedTimes (Handlers.post (Handlers.sendTx time .call info) c).2 = _
      rw [post_accepts]
      rfl
  | delivered =>
      show acceptedTimes (Handlers.post (Handlers.sendTx time .call info) c).2 = _
      rw [post_accepts]
      rfl

/-- A step of the chain or of another client accepts nothing of the call. -/
theorem chain_accepts {cfg : Config} {c c' : Chain (Sender τ)} {a : Chain.Action (Sender τ)}
    (hothers : ofOthers a = true) (h : Chain.step cfg c a = some c') :
    acceptedTimes c' = acceptedTimes c := by
  unfold acceptedTimes
  cases Chain.step_move h with
  | quiet _ _ _ ha => rw [ha]
  | accept _ _ _ ha =>
      rw [ha, List.countP_append]
      unfold ofOthers at hothers
      simpa using hothers
  | generate _ _ _ _ ha => rw [ha]
  | execute _ _ _ _ ha => rw [ha]
  | crash _ _ _ _ _ ha _ => rw [ha]

/-- **Every step accepts the transaction of the call once if it is a request that
arrives and finds room, and not at all otherwise.** -/
theorem step_accepts {cfg : Config} {info : Json} {s s' : Sending τ} {a : Action τ}
    (h : step cfg info s a = some s') :
    acceptedTimes s'.chain = acceptedTimes s.chain + if taken info s a then 1 else 0 := by
  cases a with
  | chain a =>
      unfold step at h
      by_cases hothers : ofOthers a = true
      · simp only [if_pos hothers, Option.map_eq_some_iff] at h
        obtain ⟨c, hc, rfl⟩ := h
        exact chain_accepts hothers hc
      · simp only [if_neg hothers] at h
        cases h
  | attempt link time =>
      obtain ⟨c, call⟩ := s
      cases call with
      | ended r => cases h
      | trying n =>
          cases n with
          | zero => cases h
          | succ left =>
              cases h
              exact attempt_accepts info link time left c

/-! ## §4. The whole call. -/

/-- A request changes the chain as a submission, or not at all. -/
theorem attempt_flow {info : Json} {link : Link} {time : PyFloat} {left : Nat}
    {c : Chain (Sender τ)} (cfg : Config) (hc : c.Flow) :
    (attempt info link time left c).chain.Flow := by
  have hpost : (Handlers.post (Handlers.sendTx time .call info) c).2.Flow := by
    rw [Handlers.post_state]
    cases hf : Transaction.fromJson info (some .pending) with
    | error e =>
        have hrun : Handlers.sendTx time .call info c = (.error e, c) := by
          unfold Handlers.sendTx
          rw [hf, Comp.lift_error_bind_run]
        rw [hrun]
        exact hc
    | ok tx =>
        rw [Handlers.sendTx_decoded hf]
        exact @Chain.step_flow _ _ _ cfg c _ (.submit time .call tx) hc rfl
  cases link with
  | lost e => exact hc
  | unanswered e => exact hpost
  | delivered => exact hpost

theorem step_flow {cfg : Config} {info : Json} {s s' : Sending τ} {a : Action τ}
    (hs : s.chain.Flow) (h : step cfg info s a = some s') : s'.chain.Flow := by
  cases a with
  | chain a =>
      unfold step at h
      by_cases hothers : ofOthers a = true
      · simp only [if_pos hothers, Option.map_eq_some_iff] at h
        obtain ⟨c, hc, rfl⟩ := h
        exact Chain.step_flow hs hc
      · simp only [if_neg hothers] at h
        cases h
  | attempt link time =>
      obtain ⟨c, call⟩ := s
      cases call with
      | ended r => cases h
      | trying n =>
          cases n with
          | zero => cases h
          | succ left =>
              cases h
              exact attempt_flow cfg hs

omit [Contracts] [Sha256] in
/-- The transactions of the call in a queue. -/
theorem countP_tagged {κ : Type} (xs : List (Option (Sender τ) × κ)) :
    (Chain.tagged id xs).countP (fun e => e.1.isCall)
      = xs.countP (fun e => (e.1.map Sender.isCall).getD false) := by
  unfold Chain.tagged
  rw [List.countP_filterMap]
  refine congrArg (fun q => List.countP q xs) (funext fun e => ?_)
  cases e.1 <;> rfl

omit [Contracts] [Sha256] in
/-- What is executed was accepted. -/
theorem executed_le_accepted {c : Chain (Sender τ)} (hc : c.Flow) :
    executedTimes c ≤ acceptedTimes c := by
  have hacc : acceptedTimes c
      = (c.accepted.map (fun e => (e.1, e.2.kept))).countP (fun e => e.1.isCall) := by
    rw [List.countP_map]
    rfl
  have hexec : executedTimes c = (Chain.tagged id c.done).countP (fun e => e.1.isCall) := by
    rw [countP_tagged, Chain.done, List.countP_map]
    rfl
  rw [hacc, hc, Chain.tagged_append, List.countP_append, ← hexec]
  exact Nat.le_add_right _ _

/-- **The transaction of the call is accepted once for every request that arrives and
finds room.** -/
theorem accepted_eq_taken {cfg : Config} {info : Json} {s t : Sending τ}
    {acts : List (Action τ)} (h : runFrom (step cfg info) s acts = some t) :
    acceptedTimes t.chain
      = acceptedTimes s.chain + countAlong (step cfg info) (taken info) s acts :=
  run_counts (m := fun s => acceptedTimes s.chain) (fun _ _ _ hstep => step_accepts hstep) acts h

/-- **A call is accepted at most once exactly where at most one of its requests arrives
and finds room.**  It is never executed more often than it was accepted. -/
theorem accepted_once_iff {cfg : Config} {info : Json} {c : Chain (Sender τ)} (hc : c.Fresh)
    (hnew : ∀ e ∈ c.pool.items, e.1.isCall = false) {acts : List (Action τ)} {t : Sending τ}
    (h : runFrom (step cfg info) ⟨c, .start⟩ acts = some t) :
    (acceptedTimes t.chain ≤ 1
      ↔ countAlong (step cfg info) (taken info) ⟨c, .start⟩ acts ≤ 1)
    ∧ executedTimes t.chain ≤ acceptedTimes t.chain := by
  have hzero : acceptedTimes c = 0 := by
    unfold acceptedTimes
    rw [hc.accepted, List.countP_eq_zero]
    intro e he
    rw [hnew e he]
    exact Bool.false_ne_true
  have hflow : t.chain.Flow :=
    run_invariant (P := fun s => s.chain.Flow) (fun _ _ _ hs hstep => step_flow hs hstep) acts h
      hc.flow
  refine ⟨?_, executed_le_accepted hflow⟩
  rw [accepted_eq_taken h]
  show acceptedTimes c + _ ≤ 1 ↔ _
  rw [hzero, Nat.zero_add]

end

/-! ## §5. A lost request and a lost answer. -/

/-- The transaction a relayer sends for a header. -/
def relayedHeader : Transaction where
  sender := .str "default"
  to_ := .str "lightclient"
  data := .str (CtrLightClient.request .headerSync
    [.int 1, .str "Tendermint", .int 1, .obj [("height", .int 1)]])
  memo := memoOf [("type", .str TranMemo.ctxHdr), ("src", .int 1), ("height", .int 1)]

/-- Its document. -/
def headerInfo : Json :=
  match @Transaction.asJson Sha256.plain relayedHeader with
  | .ok info => info
  | .error _ => .null

def startedChain : Chain (Sender Unit) where
  store := Executor.startStore
  blocks := ⟨[Chain.genesisBlock PyFloat.zero]⟩

theorem startedChain_fresh : startedChain.Fresh :=
  ⟨rfl, rfl, ⟨PyFloat.zero, rfl⟩, rfl, fun h => absurd h (by decide)⟩

/-- The transport fails, the connector tries again, and the chain makes a block of
what it has. -/
def failsOnce (link : Link) : List (Action Unit) := [
  .attempt link PyFloat.zero, .attempt .delivered PyFloat.zero,
  .chain (.propose PyFloat.zero (fun _ => (0, PyFloat.zero))), .chain (.takeTx PyFloat.zero),
  .chain (.takeTx PyFloat.zero)]

/-- A request that never arrives is made good by the next one. -/
theorem accepted_once_lost : ∃ t,
    runFrom (@step Unit Contracts.plain Sha256.plain {} headerInfo) ⟨startedChain, .start⟩
        (failsOnce (.lost ⟨.connection, "refused"⟩)) = some t
      ∧ acceptedTimes t.chain ≤ 1 := by
  have hsome : (runFrom (@step Unit Contracts.plain Sha256.plain {} headerInfo)
      ⟨startedChain, .start⟩ (failsOnce (.lost ⟨.connection, "refused"⟩))).isSome = true := by
    decide +kernel
  have hcount : countAlong (@step Unit Contracts.plain Sha256.plain {} headerInfo)
      (taken headerInfo) ⟨startedChain, .start⟩
      (failsOnce (.lost ⟨.connection, "refused"⟩)) ≤ 1 := by
    decide +kernel
  obtain ⟨t, ht⟩ := Option.isSome_iff_exists.mp hsome
  exact ⟨t, ht, (@accepted_once_iff Unit Contracts.plain Sha256.plain {} headerInfo _
    startedChain_fresh (fun _ he => absurd he List.not_mem_nil) _ t ht).1.mpr hcount⟩

/-- A request whose answer is lost is sent again: the header is accepted twice, and
executed twice. -/
theorem unanswered_executed_twice : ∃ t,
    runFrom (@step Unit Contracts.plain Sha256.plain {} headerInfo) ⟨startedChain, .start⟩
        (failsOnce (.unanswered ⟨.connection, "reset"⟩)
          ++ [.chain (.takeTx PyFloat.zero), .chain .executeNext, .chain .executeNext]) = some t
      ∧ acceptedTimes t.chain = 2 ∧ executedTimes t.chain = 2 := by
  have hrun : (runFrom (@step Unit Contracts.plain Sha256.plain {} headerInfo)
      ⟨startedChain, .start⟩ (failsOnce (.unanswered ⟨.connection, "reset"⟩)
        ++ [.chain (.takeTx PyFloat.zero), .chain .executeNext, .chain .executeNext])).map
      (fun t => (acceptedTimes t.chain, executedTimes t.chain)) = some (2, 2) := by
    decide +kernel
  obtain ⟨t, ht, hcounts⟩ := Option.map_eq_some_iff.mp hrun
  obtain ⟨hacc, hexec⟩ := Prod.mk.inj hcounts
  exact ⟨t, ht, hacc, hexec⟩

end HttpConnector

end TorSim
