/-
  TorSim.Relayer.AsyncRelayerLaws — what a retried round puts twice.

  A round puts the header and then the cross-chain transactions of its block,
  one by one, up to the first exception; the next round starts over with the
  same block.  So two rounds for one block that both put something put the first
  item twice.

  Main results:
    * `filterTxsFrom_run` — a round puts a first part of the block's crossing
      transactions; when it puts nothing, and when it returns.
    * `step_sessionOk` — what is in the queues was put for blocks up to the next
      one, and of each of them the first item is among it.
    * `step_atMostOnce` — **a step keeps the entries apart exactly where it is
      harmless**: it puts nothing, or nothing of its block is there yet.
    * `puts_at_most_once_iff` — so does a run.
-/
import TorSim.Relayer.AsyncRelayer
import TorSim.Relayer.ListenLaws
import Mathlib.Data.List.Nodup

namespace TorSim

open TorSim.Lib

variable {τ : Type}

namespace AsyncRelayer

/-! ## §1. The transactions of a block. -/

/-- A successful cross-chain transaction. -/
def crossing (tx : Transaction) : Bool :=
  match memoField tx.memo "type" with
  | some ty => (ty.isStr TranMemo.ctxSrc || ty.isStr TranMemo.ctxInter) && tx.status == .success
  | none => false

theorem isXtx_of_stamped {tx : Transaction} (hst : Stamped tx.memo) :
    ∃ b, isXtx tx = .ok b ∧ (b && tx.status == .success) = crossing tx := by
  obtain ⟨kvs, _, hm, _⟩ := hst
  refine ⟨_, by rw [isXtx, RelayerUnix.isXtx, hm]; rfl, ?_⟩
  rw [crossing, memoField_of_loads hm]
  cases kvs.lookup "type" with
  | none => rfl
  | some ty => rfl

/-- The ways a committed transaction goes through the filter. -/
inductive FilterCase (time : PyFloat) (bn : Int) (i : Nat) (tx : Transaction) (q : Queues) :
    Except Exn Nat → Queues → Prop where
  | skipped (hcross : crossing tx = false) : FilterCase time bn i tx q (.ok 0) q
  | put {tx' : Transaction} (hcross : crossing tx = true) (hmark : markable tx.memo = true)
      (htx : markTx "listened" time tx = .ok tx') :
      FilterCase time bn i tx q (.ok 1) (q.putXtx bn i tx')
  | raised (e : Exn) (hcross : crossing tx = true) (hmark : markable tx.memo = false) :
      FilterCase time bn i tx q (.error e) q

theorem filterTx_cases {tx : Transaction} (hst : Stamped tx.memo) (time : PyFloat) (bn : Int)
    (i : Nat) (q : Queues) :
    FilterCase time bn i tx q (filterTx time bn i tx q).1 (filterTx time bn i tx q).2 := by
  obtain ⟨b, hb, hcross⟩ := isXtx_of_stamped hst
  have hmark := stampRelayer_of_stamped hst "listened" time
  unfold filterTx
  rw [hb, Comp.lift_ok_bind_run, hcross]
  cases hc : crossing tx with
  | false => exact .skipped hc
  | true =>
      rw [if_pos rfl]
      cases hs : stampRelayer "listened" time tx.memo with
      | ok memo =>
          have htx : markTx "listened" time tx = .ok { tx with memo := memo } := by
            rw [markTx, RelayerUnix.markTx, hs]
            rfl
          rw [htx]
          exact .put hc (hmark.mp ⟨memo, hs⟩) htx
      | error e =>
          have htx : markTx "listened" time tx = .error e := by
            rw [markTx, RelayerUnix.markTx, hs]
            rfl
          rw [htx]
          refine .raised e hc ?_
          by_contra hyes
          obtain ⟨memo, hmemo⟩ := hmark.mpr (by simpa using hyes)
          cases hs.symm.trans hmemo

/-- The positions of the crossing transactions, counted from `i`. -/
def positions (i : Nat) (txs : List Transaction) : List Nat :=
  ((txs.zipIdx i).filter (fun p => crossing p.1)).map Prod.snd

/-- Before each crossing transaction is put an exception is raised: thrown in, or
for a crossing transaction that cannot be marked. -/
def Blocked (faults : Nat → Option Exn) : Nat → List Transaction → Prop
  | _, [] => True
  | i, tx :: txs => faults i ≠ none ∨
      if crossing tx = true then markable tx.memo = false else Blocked faults (i + 1) txs

/-- No exception is raised. -/
def Clear (faults : Nat → Option Exn) : Nat → List Transaction → Prop
  | i, [] => faults i = none
  | i, tx :: txs => faults i = none ∧ (crossing tx = true → markable tx.memo = true)
      ∧ Clear faults (i + 1) txs

/-- `queue_xtx.put(tx)` for several transactions of a block. -/
def Queues.putAll (bn : Int) (es : List (Nat × Transaction)) (q : Queues) : Queues :=
  { q with xtx := q.xtx ++ es.map (fun e => ((bn, e.1), e.2)) }

@[simp] theorem putAll_nil (bn : Int) (q : Queues) : q.putAll bn [] = q := by
  cases q
  simp [Queues.putAll]

theorem putAll_cons (bn : Int) (i : Nat) (tx : Transaction) (es : List (Nat × Transaction))
    (q : Queues) : (q.putXtx bn i tx).putAll bn es = q.putAll bn ((i, tx) :: es) := by
  simp [Queues.putAll, Queues.putXtx]

/-- What the loop over a block's transactions does: a first part of the crossing ones
is put, none exactly where the way is blocked; it returns exactly where it is clear. -/
structure Filtered (faults : Nat → Option Exn) (bn : Int) (i : Nat) (txs : List Transaction)
    (q : Queues) (r : Except Exn Nat) (q' : Queues) : Prop where
  put : ∃ es : List (Nat × Transaction), q' = q.putAll bn es
    ∧ es.map Prod.fst <+: positions i txs
    ∧ (∀ e ∈ es, ∃ tx, txs[e.1 - i]? = some tx ∧ i ≤ e.1 ∧ e.2.kept = tx.kept)
    ∧ (es = [] ↔ Blocked faults i txs)
  returns : (∃ n, r = .ok n) ↔ Clear faults i txs

theorem blocked_cons {faults : Nat → Option Exn} {i : Nat} (hf : faults i = none)
    (tx : Transaction) (txs : List Transaction) :
    Blocked faults i (tx :: txs)
      ↔ if crossing tx = true then markable tx.memo = false else Blocked faults (i + 1) txs := by
  rw [Blocked, hf]
  exact or_iff_right (fun h => h rfl)

theorem clear_cons {faults : Nat → Option Exn} {i : Nat} (hf : faults i = none)
    (tx : Transaction) (txs : List Transaction) :
    Clear faults i (tx :: txs)
      ↔ (crossing tx = true → markable tx.memo = true) ∧ Clear faults (i + 1) txs := by
  rw [Clear, hf]
  exact and_iff_right rfl

theorem positions_cons (i : Nat) (tx : Transaction) (txs : List Transaction) :
    positions i (tx :: txs)
      = if crossing tx = true then i :: positions (i + 1) txs else positions (i + 1) txs := by
  unfold positions
  rw [List.zipIdx_cons, List.filter_cons]
  split <;> rfl

/-- An exception thrown in ends the loop before the transaction is looked at. -/
theorem filtered_fault {faults : Nat → Option Exn} {i : Nat} {e : Exn} (hf : faults i = some e)
    (bn : Int) (txs : List Transaction) (q : Queues) : Filtered faults bn i txs q (.error e) q := by
  constructor
  · refine ⟨[], (putAll_nil bn q).symm, List.nil_prefix, fun x hx => (nomatch hx), fun _ => ?_, fun _ => rfl⟩
    cases txs with
    | nil => trivial
    | cons tx txs =>
        rw [Blocked, hf]
        exact Or.inl (fun h => nomatch h)
  · refine ⟨fun ⟨_, h⟩ => (nomatch h), fun h => ?_⟩
    cases txs with
    | nil =>
        rw [Clear, hf] at h
        cases h
    | cons tx txs =>
        rw [Clear, hf] at h
        cases h.1

/-- A transaction of no concern changes nothing. -/
theorem Filtered.skip {faults : Nat → Option Exn} {bn : Int} {i : Nat} {tx : Transaction}
    {txs : List Transaction} {q q' : Queues} {r : Except Exn Nat} (hf : faults i = none)
    (hcross : crossing tx = false) (h : Filtered faults bn (i + 1) txs q r q') :
    Filtered faults bn i (tx :: txs) q r q' := by
  obtain ⟨es, hq, hpre, hfrom, hnil⟩ := h.put
  constructor
  · refine ⟨es, hq, ?_, fun e he => ?_, ?_⟩
    · rw [positions_cons, if_neg (by rw [hcross]; exact Bool.false_ne_true)]
      exact hpre
    · obtain ⟨t, ht, hle, hk⟩ := hfrom e he
      refine ⟨t, ?_, by omega, hk⟩
      rw [show e.1 - i = (e.1 - (i + 1)) + 1 by omega, List.getElem?_cons_succ]
      exact ht
    · rw [blocked_cons hf, if_neg (by rw [hcross]; exact Bool.false_ne_true)]
      exact hnil
  · rw [clear_cons hf, h.returns]
    refine (and_iff_right (fun hc => ?_)).symm
    rw [hcross] at hc
    cases hc

/-- A crossing transaction that is put comes first of all that are. -/
theorem Filtered.cons {faults : Nat → Option Exn} {bn : Int} {i : Nat} {tx tx' : Transaction}
    {txs : List Transaction} {q q' : Queues} {r : Except Exn Nat} (hf : faults i = none)
    (hcross : crossing tx = true) (hmark : markable tx.memo = true) (hkept : tx'.kept = tx.kept)
    (h : Filtered faults bn (i + 1) txs (q.putXtx bn i tx') r q') :
    Filtered faults bn i (tx :: txs) q r q' := by
  obtain ⟨es, hq, hpre, hfrom, _⟩ := h.put
  constructor
  · refine ⟨(i, tx') :: es, hq.trans (putAll_cons bn i tx' es q), ?_, ?_, ?_⟩
    · rw [positions_cons, if_pos hcross, List.map_cons]
      exact (List.prefix_cons_inj i).mpr hpre
    · intro e he
      rcases List.mem_cons.mp he with rfl | he
      · exact ⟨tx, by simp, le_refl i, hkept⟩
      · obtain ⟨t, ht, hle, hk⟩ := hfrom e he
        refine ⟨t, ?_, by omega, hk⟩
        rw [show e.1 - i = (e.1 - (i + 1)) + 1 by omega, List.getElem?_cons_succ]
        exact ht
    · rw [blocked_cons hf, if_pos hcross, hmark]
      exact ⟨fun h => (nomatch h), fun h => (nomatch h)⟩
  · rw [clear_cons hf, h.returns]
    exact (and_iff_right (fun _ => hmark)).symm

/-- The number returned for the rest is added to; nothing else. -/
theorem Filtered.count {faults : Nat → Option Exn} {bn : Int} {i : Nat} {txs : List Transaction}
    {q : Queues} {n : Nat} {x : Comp Queues Nat} {q1 : Queues}
    (h : Filtered faults bn i txs q (x q1).1 (x q1).2) :
    Filtered faults bn i txs q ((x >>= fun cnt => pure (n + cnt)) q1).1
      ((x >>= fun cnt => pure (n + cnt)) q1).2 := by
  rw [Comp.bind_run]
  rcases hx : x q1 with ⟨r, q2⟩
  rw [hx] at h
  refine ⟨?_, ?_⟩
  · cases r with
    | error e => exact h.put
    | ok m => exact h.put
  · rw [← h.returns]
    cases r with
    | error e => exact ⟨fun ⟨_, h⟩ => (nomatch h), fun ⟨_, h⟩ => (nomatch h)⟩
    | ok m => exact ⟨fun _ => ⟨m, rfl⟩, fun _ => ⟨n + m, rfl⟩⟩

/-- **The transactions of a block.** -/
theorem filterTxsFrom_run (faults : Nat → Option Exn) (time : Nat → PyFloat) (bn : Int)
    {txs : List Transaction} (hst : ∀ tx ∈ txs, Stamped tx.memo) (i : Nat) (q : Queues) :
    Filtered faults bn i txs q (filterTxsFrom faults time bn i txs q).1
      (filterTxsFrom faults time bn i txs q).2 := by
  induction txs generalizing i q with
  | nil =>
      unfold filterTxsFrom
      cases hf : faults i with
      | none =>
          refine ⟨⟨[], (putAll_nil bn q).symm, List.nil_prefix, fun e he => (nomatch he), ?_⟩, ?_⟩
          · exact ⟨fun _ => trivial, fun _ => rfl⟩
          · exact ⟨fun _ => hf, fun _ => ⟨0, rfl⟩⟩
      | some e => exact filtered_fault hf bn [] q
  | cons tx txs ih =>
      obtain ⟨hstx, hst⟩ := List.forall_mem_cons.mp hst
      unfold filterTxsFrom
      cases hf : faults i with
      | some e => exact filtered_fault hf bn (tx :: txs) q
      | none =>
          show Filtered faults bn i (tx :: txs) q ((filterTx (time i) bn i tx >>= _) q).1
            ((filterTx (time i) bn i tx >>= _) q).2
          have hcase := filterTx_cases hstx (time i) bn i q
          rcases hrun : filterTx (time i) bn i tx q with ⟨r, q1⟩
          rw [hrun] at hcase
          cases hcase with
          | skipped hcross =>
              rw [Comp.bind_of_ok hrun]
              exact (Filtered.skip hf hcross (ih hst (i + 1) q1)).count
          | @put tx' hcross hmark htx =>
              rw [Comp.bind_of_ok hrun]
              exact (Filtered.cons hf hcross hmark (RelayerUnix.kept_markTx htx)
                (ih hst (i + 1) (q.putXtx bn i tx'))).count
          | raised e hcross hmark =>
              rw [Comp.bind_of_error hrun]
              refine ⟨⟨[], (putAll_nil bn q1).symm, List.nil_prefix, fun e he => (nomatch he), ?_⟩, ?_⟩
              · rw [blocked_cons hf, if_pos hcross]
                exact ⟨fun _ => hmark, fun _ => rfl⟩
              · refine ⟨fun ⟨_, h⟩ => (nomatch h), fun h => ?_⟩
                have hyes := ((clear_cons hf tx txs).mp h).1 hcross
                rw [hmark] at hyes
                cases hyes

/-! ## §2. A block. -/

/-- Nothing of a block is put: the header is held up, or no header is due and the
way to the crossing transactions is blocked. -/
def PutsNothing (cfg : AsyncRelayerConfig) (faults : Faults) (txs : List Transaction) : Prop :=
  faults.header ≠ none ∨ putsHeader cfg = false ∧ Blocked faults.txs 0 txs

/-- No exception is raised. -/
def Undisturbed (cfg : AsyncRelayerConfig) (faults : Faults) (txs : List Transaction) : Prop :=
  faults.header = none ∧ (isPar cfg = true ∨ Clear faults.txs 0 txs)

/-- What a fetched block adds to the queues: the header where one is due, then a
first part of the crossing transactions. -/
structure Added (cfg : AsyncRelayerConfig) (faults : Faults) (bn : Int) (txs : List Transaction)
    (header : Json) (q : Queues) (hs : List (Int × Json)) (es : List (Nat × Transaction)) : Prop where
  headers : hs = [] ∨ putsHeader cfg = true ∧ hs = [(bn, header)]
  first : putsHeader cfg = true → es ≠ [] → hs ≠ []
  xtxs : es.map Prod.fst <+: positions 0 txs
  source : ∀ e ∈ es, ∃ tx, txs[e.1]? = some tx ∧ e.2.kept = tx.kept
  nothing : (hs = [] ∧ es = []) ↔ PutsNothing cfg faults txs

/-- **What a fetched block puts into the queues**, and when no exception is raised. -/
theorem filterBlock_run (cfg : AsyncRelayerConfig) (faults : Faults) (time : Nat → PyFloat)
    (bn : Int) {block : Block} (hst : ∀ tx ∈ block.txs, Stamped tx.memo) (header : Json)
    (q : Queues) :
    (∃ hs es, (filterBlock cfg faults time bn block header q).2
        = { q with header := q.header ++ hs }.putAll bn es
      ∧ Added cfg faults bn block.txs header q hs es)
    ∧ ((∃ n, (filterBlock cfg faults time bn block header q).1 = .ok n)
      ↔ Undisturbed cfg faults block.txs) := by
  have hsame : q = { q with header := q.header ++ [] }.putAll bn [] := by
    cases q
    simp
  unfold filterBlock
  cases hf : faults.header with
  | some e =>
      -- thrown in before the header is put
      have hrun : filterHeader cfg (some e) bn header q = (.error e, q) := rfl
      rw [Comp.bind_of_error hrun]
      refine ⟨⟨[], [], hsame, ⟨Or.inl rfl, fun _ h => absurd rfl h, List.nil_prefix,
        fun e he => (nomatch he), fun _ => Or.inl (by rw [hf]; exact fun h => nomatch h),
        fun _ => ⟨rfl, rfl⟩⟩⟩, fun ⟨_, h⟩ => (nomatch h), fun h => ?_⟩
      have hnone := h.1
      rw [hf] at hnone
      cases hnone
  | none =>
      -- the header, where one is due, and then the transactions
      obtain ⟨hs, hrun, hhs⟩ : ∃ hs, filterHeader cfg none bn header q
          = (.ok (), { q with header := q.header ++ hs })
          ∧ hs = if putsHeader cfg = true then [(bn, header)] else [] := by
        unfold filterHeader interrupt
        by_cases hput : putsHeader cfg = true
        · exact ⟨[(bn, header)], by rw [if_pos hput]; rfl, by rw [if_pos hput]⟩
        · refine ⟨[], ?_, by rw [if_neg hput]⟩
          rw [if_neg hput]
          simp
      rw [Comp.bind_of_ok hrun]
      have hquiet : PutsNothing cfg faults block.txs
          ↔ putsHeader cfg = false ∧ Blocked faults.txs 0 block.txs := by
        rw [PutsNothing, hf]
        exact or_iff_right (fun h => h rfl)
      have hheaders : hs = [] ∨ putsHeader cfg = true ∧ hs = [(bn, header)] := by
        by_cases hput : putsHeader cfg = true
        · exact Or.inr ⟨hput, by rw [hhs, if_pos hput]⟩
        · exact Or.inl (by rw [hhs, if_neg hput])
      have hempty : hs = [] ↔ putsHeader cfg = false := by
        by_cases hput : putsHeader cfg = true
        · rw [hhs, if_pos hput, hput]
          exact ⟨fun h => (nomatch h), fun h => (nomatch h)⟩
        · rw [hhs, if_neg hput]
          exact ⟨fun _ => by simpa using hput, fun _ => rfl⟩
      unfold filterTxs
      by_cases hpar : isPar cfg = true
      · have hput : putsHeader cfg = true := by
          rw [putsHeader, hpar, Bool.or_true]
        rw [if_pos hpar]
        refine ⟨⟨hs, [], (putAll_nil bn _).symm, ⟨hheaders, fun _ h => absurd rfl h,
          List.nil_prefix, fun e he => (nomatch he), ?_⟩⟩, fun _ => ⟨hf, Or.inl hpar⟩,
          fun _ => ⟨0, rfl⟩⟩
        rw [hquiet, hempty, hput]
        exact ⟨fun h => (nomatch h.1), fun h => (nomatch h.1)⟩
      · rw [if_neg hpar]
        have hrest := filterTxsFrom_run faults.txs time bn hst 0 { q with header := q.header ++ hs }
        obtain ⟨es, hq, hpre, hfrom, hnil⟩ := hrest.put
        refine ⟨⟨hs, es, hq, ⟨hheaders, fun hput _ => ?_, hpre, fun e he => ?_, ?_⟩⟩, ?_⟩
        · rw [hhs, if_pos hput]
          exact fun h => nomatch h
        · obtain ⟨tx, htx, _, hk⟩ := hfrom e he
          exact ⟨tx, htx, hk⟩
        · rw [hquiet, hempty, hnil]
        · rw [hrest.returns, Undisturbed, hf]
          exact ⟨fun h => ⟨rfl, Or.inr h⟩, fun h => h.2.resolve_left hpar⟩

/-- Only exceptions that `except Exception` catches are thrown in. -/
structure Faults.Caught (f : Faults) : Prop where
  header : ∀ e, f.header = some e → e.isException = true
  txs : ∀ i e, f.txs i = some e → e.isException = true

theorem caught_interrupt {σ : Type} {fault : Option Exn}
    (h : ∀ e, fault = some e → e.isException = true) : Comp.Caught (interrupt fault : Comp σ Unit) := by
  cases fault with
  | none => exact Comp.caught_pure ()
  | some e => exact Comp.caught_raise (h e rfl)

theorem caught_filterTx (time : PyFloat) (bn : Int) (i : Nat) (tx : Transaction) :
    Comp.Caught (filterTx time bn i tx) := by
  refine Comp.caught_bind (Comp.caught_lift ?_) (fun xtx => ?_)
  · exact Comp.caughtE_bind (Json.caughtE_loadsValue _) fun memo =>
      Comp.caughtE_bind (Json.caughtE_get _ _ _) fun ty => Comp.caughtE_ok _
  · split
    · exact Comp.caught_bind (Comp.caught_lift (Comp.caughtE_bind (caughtE_stampRelayer _ _ _)
        fun memo => Comp.caughtE_ok _)) fun tx => Comp.caught_bind (Comp.caught_update _)
          fun _ => Comp.caught_pure 1
    · exact Comp.caught_pure 0

theorem caught_filterTxsFrom {faults : Nat → Option Exn}
    (h : ∀ i e, faults i = some e → e.isException = true) (time : Nat → PyFloat) (bn : Int)
    (txs : List Transaction) (i : Nat) : Comp.Caught (filterTxsFrom faults time bn i txs) := by
  induction txs generalizing i with
  | nil => exact Comp.caught_bind (caught_interrupt (h i)) fun _ => Comp.caught_pure 0
  | cons tx txs ih =>
      exact Comp.caught_bind (caught_interrupt (h i)) fun _ =>
        Comp.caught_bind (caught_filterTx _ _ _ _) fun n =>
          Comp.caught_bind (ih (i + 1)) fun cnt => Comp.caught_pure _

/-- Every exception of a block's filtering is caught, if those thrown in are. -/
theorem caught_filterBlock (cfg : AsyncRelayerConfig) (faults : Faults) (time : Nat → PyFloat)
    (bn : Int) (block : Block) (header : Json) (q : Queues) (h : faults.Caught) :
    Comp.CaughtE (filterBlock cfg faults time bn block header q).1 := by
  have hheader : Comp.Caught (filterHeader cfg faults.header bn header) := by
    refine Comp.caught_bind (caught_interrupt h.header) (fun _ => ?_)
    split
    · exact Comp.caught_update _
    · exact Comp.caught_pure ()
  have htxs : Comp.Caught (filterTxs cfg faults.txs time bn block.txs) := by
    unfold filterTxs
    split
    · exact Comp.caught_pure 0
    · exact caught_filterTxsFrom h.txs time bn block.txs 0
  exact Comp.caught_bind hheader (fun _ => htxs) q

/-! ## §3. What is in the queues. -/

/-- Each header and each transaction was put at most once. -/
def AtMostOnce (q : Queues) : Prop := (q.header.map Prod.fst).Nodup ∧ (q.xtx.map Prod.fst).Nodup

/-- Something of block `n` was put. -/
def Touched (q : Queues) (n : Int) : Prop :=
  n ∈ q.header.map Prod.fst ∨ ∃ i, (n, i) ∈ q.xtx.map Prod.fst

/-- The committed block `n`. -/
def CommittedAt (c : Chain τ) (n : Int) (r : Committed τ) : Prop :=
  1 ≤ n ∧ c.history[n.toNat - 1]? = some r

/-- The first item due of block `n` was put: its header, or without one its first
crossing transaction. -/
def FirstPut (cfg : AsyncRelayerConfig) (c : Chain τ) (q : Queues) (n : Int) : Prop :=
  if putsHeader cfg = true then n ∈ q.header.map Prod.fst
  else ∃ r i, CommittedAt c n r ∧ (positions 0 r.block.txs).head? = some i
    ∧ (n, i) ∈ q.xtx.map Prod.fst

variable [Sha256]

/-- What holds of every session: the queues hold items of the blocks up to the next
one, each with its block's number; of each block the first item due is there. -/
structure SessionOk (cfg : AsyncRelayerConfig) (s : Session τ) : Prop where
  inv : ∃ time, Chain.ChainInv [Chain.genesisBlock time] s.chain
  created : s.listen = .created → s.queues = {}
  next : ∀ k, s.listen = .listening k → 0 ≤ k ∧ ∀ n, Touched s.queues n → n ≤ k
  first : ∀ n, Touched s.queues n → FirstPut cfg s.chain s.queues n
  headers : ∀ e ∈ s.queues.header, putsHeader cfg = true
    ∧ e.2.getItem "height" = .ok (.int e.1)
  xtxs : ∀ e ∈ s.queues.xtx, ∃ r tx, CommittedAt s.chain e.1.1 r
    ∧ r.block.txs[e.1.2]? = some tx ∧ e.2.kept = tx.kept

/-- A step is harmless: a round that gets a block puts nothing of it, or nothing of
it was put before. -/
def Harmless (cfg : AsyncRelayerConfig) (s : Session τ) (a : Action τ) : Prop :=
  ∀ link faults time k block header, a = .round link faults time → s.listen = .listening k →
    (RelayerUnix.fetch link k s.chain).1 = .ok (block, header) →
    ¬ Touched s.queues k ∨ PutsNothing cfg faults block.txs

/-- A round that does not get its block changes no queue; the others add to them
what `Added` says, and go on to the next block where nothing disturbs them. -/
inductive ListenCase (cfg : AsyncRelayerConfig) (faults : Faults) (k : Int) (c : Chain τ)
    (q : Queues) : Option (Block × Json) → Listen → Queues → Prop where
  | unfetched {l : Listen} (hlisten : l = .listening k ∨ l = .stopped) :
      ListenCase cfg faults k c q none l q
  | fetched {block : Block} {header : Json} {hs : List (Int × Json)}
      {es : List (Nat × Transaction)} {l : Listen}
      (hfetch : RelayerUnix.Fetched c k block header)
      (hadded : Added cfg faults k block.txs header q hs es)
      (hlisten : l = .listening (k + 1) ∨ l = .listening k ∨ l = .stopped)
      (hretry : faults.Caught → ¬ Undisturbed cfg faults block.txs → l = .listening k) :
      ListenCase cfg faults k c q (some (block, header)) l
        ({ q with header := q.header ++ hs }.putAll k es)

omit [Sha256] in
/-- After an exception the task is at the same block or has stopped. -/
theorem afterError_cases (k : Int) (e : Exn) :
    afterError k e = .listening k ∨ afterError k e = .stopped := by
  unfold afterError
  split
  · exact Or.inl rfl
  · exact Or.inr rfl

/-- **A round of `listen_block`.** -/
theorem listen_cases (cfg : AsyncRelayerConfig) {c : Chain τ} {t : PyFloat}
    (hinv : Chain.ChainInv [Chain.genesisBlock t] c) {k : Int} (hk : 0 ≤ k) (link : Link)
    (faults : Faults) (time : Nat → PyFloat) (q : Queues) :
    ListenCase cfg faults k c q (RelayerUnix.fetch link k c).1.toOption
      (listen cfg link faults time k q c).1 (listen cfg link faults time k q c).2 := by
  unfold listen
  rcases hf : RelayerUnix.fetch link k c with ⟨e | ⟨block, header⟩, c'⟩
  · exact .unfetched (afterError_cases k e)
  · obtain ⟨_, hfetched⟩ := RelayerUnix.fetch_run hf
    have hfetch := hfetched block header rfl
    obtain ⟨_, _, _, _, hwhere⟩ := RelayerUnix.fetched_block hinv hk hfetch
    have hst : ∀ tx ∈ block.txs, Stamped tx.memo := by
      intro tx htx
      rcases hwhere with ⟨_, hnil⟩ | ⟨r, _, hr, rfl⟩
      · rw [hnil] at htx
        cases htx
      · have hok := hinv.committed r (List.mem_of_getElem? hr)
        rw [hok.txs] at htx
        obtain ⟨x, hx, rfl⟩ := List.mem_map.mp htx
        exact hok.memo x hx
    obtain ⟨⟨hs, es, hq, hadded⟩, hret⟩ := filterBlock_run cfg faults time k hst header q
    have hcaught := caught_filterBlock cfg faults time k block header q
    dsimp only
    rcases hrun : filterBlock cfg faults time k block header q with ⟨e | n, q'⟩
    · rw [hrun] at hq hcaught
      cases hq
      refine .fetched hfetch hadded (Or.inr (afterError_cases k e)) (fun hf _ => ?_)
      show afterError k e = _
      unfold afterError
      rw [if_pos (hcaught hf e rfl)]
    · rw [hrun] at hq hret
      cases hq
      exact .fetched hfetch hadded (Or.inl rfl) (fun _ h => absurd (hret.mp ⟨n, rfl⟩) h)

omit [Sha256] in
theorem CommittedAt.grows {c c' : Chain τ} {n : Int} {r : Committed τ} (h : CommittedAt c n r)
    (hpre : c.history <+: c'.history) : CommittedAt c' n r := by
  obtain ⟨hn, hr⟩ := h
  obtain ⟨rest, hrest⟩ := hpre
  refine ⟨hn, ?_⟩
  rw [← hrest, List.getElem?_append_left]
  · exact hr
  · by_contra hge
    rw [List.getElem?_eq_none (by omega)] at hr
    cases hr

omit [Sha256] in
/-- What was put stays put. -/
theorem FirstPut.mono {cfg : AsyncRelayerConfig} {c c' : Chain τ} {q q' : Queues} {n : Int}
    (h : FirstPut cfg c q n) (hpre : c.history <+: c'.history)
    (hheader : q.header <+: q'.header) (hxtx : q.xtx <+: q'.xtx) : FirstPut cfg c' q' n := by
  unfold FirstPut at h ⊢
  split at h
  next hput =>
      rw [if_pos hput]
      exact (hheader.map Prod.fst).subset h
  next hput =>
      rw [if_neg hput]
      obtain ⟨r, i, hr, hi, hmem⟩ := h
      exact ⟨r, i, hr.grows hpre, hi, (hxtx.map Prod.fst).subset hmem⟩

omit [Sha256] in
/-- What a fetched block adds is of that block. -/
theorem touched_added {cfg : AsyncRelayerConfig} {faults : Faults} {k : Int}
    {txs : List Transaction} {header : Json} {q : Queues} {hs : List (Int × Json)}
    {es : List (Nat × Transaction)} (hadded : Added cfg faults k txs header q hs es) (n : Int)
    (h : Touched ({ q with header := q.header ++ hs }.putAll k es) n) :
    Touched q n ∨ n = k ∧ (hs ≠ [] ∨ es ≠ []) := by
  rcases h with h | ⟨i, h⟩
  · obtain ⟨e, he, rfl⟩ := List.mem_map.mp h
    rcases List.mem_append.mp he with he | he
    · exact Or.inl (Or.inl (List.mem_map_of_mem he))
    · rcases hadded.headers with rfl | ⟨_, rfl⟩
      · cases he
      · rw [List.mem_singleton.mp he]
        exact Or.inr ⟨rfl, Or.inl (fun h => nomatch h)⟩
  · obtain ⟨e, he, hkey⟩ := List.mem_map.mp h
    rcases List.mem_append.mp he with he | he
    · exact Or.inl (Or.inr ⟨i, List.mem_map.mpr ⟨e, he, hkey⟩⟩)
    · obtain ⟨x, hx, rfl⟩ := List.mem_map.mp he
      have hn : k = n := congrArg Prod.fst hkey
      exact Or.inr ⟨hn.symm, Or.inr (List.ne_nil_of_mem hx)⟩

omit [Sha256] in
/-- A block that adds something adds its first item due. -/
theorem firstPut_added {cfg : AsyncRelayerConfig} {faults : Faults} {c : Chain τ} {k : Int}
    {txs : List Transaction} {header : Json} {q : Queues} {hs : List (Int × Json)}
    {es : List (Nat × Transaction)} (hadded : Added cfg faults k txs header q hs es)
    (hwhere : txs = [] ∨ ∃ r, CommittedAt c k r ∧ txs = r.block.txs) (h : hs ≠ [] ∨ es ≠ []) :
    FirstPut cfg c ({ q with header := q.header ++ hs }.putAll k es) k := by
  unfold FirstPut
  by_cases hput : putsHeader cfg = true
  · rw [if_pos hput]
    have hne : hs ≠ [] := h.elim id (hadded.first hput)
    rcases hadded.headers with hnil | ⟨_, rfl⟩
    · exact absurd hnil hne
    · exact List.mem_map_of_mem (List.mem_append_right _ List.mem_cons_self)
  · rw [if_neg hput]
    have hes : es ≠ [] := by
      rcases h with hne | hes
      · rcases hadded.headers with hnil | ⟨hyes, _⟩
        · exact absurd hnil hne
        · exact absurd hyes hput
      · exact hes
    obtain ⟨e, es', rfl⟩ := List.exists_cons_of_ne_nil hes
    obtain ⟨rest, hrest⟩ := hadded.xtxs
    rcases hwhere with rfl | ⟨r, hr, rfl⟩
    · cases hrest
    · refine ⟨r, e.1, hr, by rw [← hrest]; rfl, ?_⟩
      exact List.mem_map.mpr ⟨((k, e.1), e.2), List.mem_append_right _ List.mem_cons_self, rfl⟩

/-- A round keeps what holds of every session. -/
theorem listen_sessionOk {cfg : AsyncRelayerConfig} {s : Session τ} {k : Int}
    (hs : SessionOk cfg s) (hk : s.listen = .listening k) {faults : Faults}
    {got : Option (Block × Json)} {l : Listen} {q : Queues}
    (h : ListenCase cfg faults k s.chain s.queues got l q) :
    SessionOk cfg { s with listen := l, queues := q } := by
  obtain ⟨t, hinv⟩ := hs.inv
  obtain ⟨h0, hle⟩ := hs.next k hk
  cases h with
  | unfetched hlisten =>
      refine ⟨hs.inv, fun hl => ?_, fun j hj => ?_, hs.first, hs.headers, hs.xtxs⟩
      · rcases hlisten with rfl | rfl <;> cases hl
      · rcases hlisten with rfl | rfl
        · cases hj
          exact ⟨h0, hle⟩
        · cases hj
  | @fetched block header hs' es l hfetch hadded hlisten _ =>
      obtain ⟨_, hheight, _, _, hwhere⟩ := RelayerUnix.fetched_block hinv h0 hfetch
      have hwhere : block.txs = [] ∨ ∃ r, CommittedAt s.chain k r ∧ block.txs = r.block.txs := by
        rcases hwhere with ⟨_, hnil⟩ | ⟨r, h1, hr, rfl⟩
        · exact Or.inl hnil
        · exact Or.inr ⟨r, ⟨h1, hr⟩, rfl⟩
      have hpre : s.chain.history <+: s.chain.history := List.prefix_rfl
      refine ⟨hs.inv, fun hl => ?_, fun j hj => ?_, fun n hn => ?_, fun e he => ?_, fun e he => ?_⟩
      · rcases hlisten with rfl | rfl | rfl <;> cases hl
      · -- the next block is this one or the one behind it
        have hj' : k ≤ j := by
          rcases hlisten with rfl | rfl | rfl
          · cases hj
            omega
          · cases hj
            exact le_refl k
          · cases hj
        refine ⟨by omega, fun n hn => ?_⟩
        rcases touched_added hadded n hn with hold | ⟨rfl, _⟩
        · exact le_trans (hle n hold) hj'
        · exact hj'
      · rcases touched_added hadded n hn with hold | ⟨rfl, hnew⟩
        · exact (hs.first n hold).mono hpre (List.prefix_append _ _) (List.prefix_append _ _)
        · exact firstPut_added hadded hwhere hnew
      · rcases List.mem_append.mp he with he | he
        · exact hs.headers e he
        · rcases hadded.headers with rfl | ⟨hput, rfl⟩
          · cases he
          · rw [List.mem_singleton.mp he]
            exact ⟨hput, hheight⟩
      · rcases List.mem_append.mp he with he | he
        · exact hs.xtxs e he
        · obtain ⟨x, hx, rfl⟩ := List.mem_map.mp he
          obtain ⟨tx, htx, hkept⟩ := hadded.source x hx
          rcases hwhere with hnil | ⟨r, hr, heq⟩
          · rw [hnil] at htx
            cases htx
          · exact ⟨r, tx, hr, heq ▸ htx, hkept⟩

/-- **A round keeps the entries apart exactly where it is harmless.** -/
theorem listen_atMostOnce {cfg : AsyncRelayerConfig} {s : Session τ} {k : Int}
    (hs : SessionOk cfg s) (hk : s.listen = .listening k) {faults : Faults}
    {got : Option (Block × Json)} {l : Listen} {q : Queues}
    (h : ListenCase cfg faults k s.chain s.queues got l q) :
    AtMostOnce q ↔ AtMostOnce s.queues
      ∧ ∀ block header, got = some (block, header) →
          ¬ Touched s.queues k ∨ PutsNothing cfg faults block.txs := by
  obtain ⟨t, hinv⟩ := hs.inv
  obtain ⟨h0, _⟩ := hs.next k hk
  cases h with
  | unfetched => exact ⟨fun h => ⟨h, fun _ _ hg => nomatch hg⟩, fun h => h.1⟩
  | @fetched block header hs' es l hfetch hadded _ _ =>
      obtain ⟨_, _, _, _, hwhere⟩ := RelayerUnix.fetched_block hinv h0 hfetch
      unfold AtMostOnce
      have hkeysH : ({ s.queues with header := s.queues.header ++ hs' }.putAll k es).header.map Prod.fst
          = s.queues.header.map Prod.fst ++ hs'.map Prod.fst := List.map_append
      have hkeysX : ({ s.queues with header := s.queues.header ++ hs' }.putAll k es).xtx.map Prod.fst
          = s.queues.xtx.map Prod.fst ++ (es.map Prod.fst).map (fun i => (k, i)) := by
        rw [Queues.putAll, List.map_append, List.map_map, List.map_map]
        rfl
      rw [hkeysH, hkeysX]
      constructor
      · -- two rounds that put something of the block both put its first item
        intro ⟨hH, hX⟩
        refine ⟨⟨(List.nodup_append.mp hH).1, (List.nodup_append.mp hX).1⟩, fun b hd hg => ?_⟩
        cases hg
        by_contra hbad
        obtain ⟨htouched, hputs⟩ := not_or.mp hbad
        have htouched := not_not.mp htouched
        have hfirst := hs.first k htouched
        have hnew : hs' ≠ [] ∨ es ≠ [] := by
          by_contra hnone
          obtain ⟨h1, h2⟩ := not_or.mp hnone
          exact hputs (hadded.nothing.mp ⟨not_not.mp h1, not_not.mp h2⟩)
        unfold FirstPut at hfirst
        by_cases hput : putsHeader cfg = true
        · rw [if_pos hput] at hfirst
          rcases hadded.headers with hnil | ⟨_, rfl⟩
          · exact absurd hnil (hnew.elim id (hadded.first hput))
          · exact (List.nodup_append.mp hH).2.2 k hfirst k List.mem_cons_self rfl
        · rw [if_neg hput] at hfirst
          obtain ⟨r, i, ⟨hr1, hr⟩, hi, hmem⟩ := hfirst
          have hes : es ≠ [] := by
            rcases hadded.headers with rfl | ⟨hyes, _⟩
            · exact hnew.resolve_left (fun h => h rfl)
            · exact absurd hyes hput
          obtain ⟨e, es', rfl⟩ := List.exists_cons_of_ne_nil hes
          have hblock : block.txs = r.block.txs := by
            rcases hwhere with ⟨hz, _⟩ | ⟨r', _, hr', rfl⟩
            · omega
            · cases hr.symm.trans hr'
              rfl
          obtain ⟨rest, hrest⟩ := hadded.xtxs
          rw [← hblock, ← hrest] at hi
          have hei : e.1 = i := Option.some.inj hi
          refine (List.nodup_append.mp hX).2.2 (k, i) hmem (k, i) ?_ rfl
          rw [← hei]
          exact List.mem_cons_self
      · intro ⟨⟨hH, hX⟩, hall⟩
        rcases hall block header rfl with hnot | hnothing
        · have hpos : (positions 0 block.txs).Nodup := by
            have hsub : (positions 0 block.txs).Sublist ((block.txs.zipIdx 0).map Prod.snd) :=
              (List.filter_sublist).map Prod.snd
            refine hsub.nodup ?_
            rw [List.zipIdx_map_snd]
            exact List.nodup_range'
          refine ⟨List.nodup_append.mpr ⟨hH, ?_, ?_⟩, List.nodup_append.mpr ⟨hX, ?_, ?_⟩⟩
          · rcases hadded.headers with rfl | ⟨_, rfl⟩
            · exact List.nodup_nil
            · exact List.nodup_singleton _
          · intro n hn m hm heq
            rcases hadded.headers with rfl | ⟨_, rfl⟩
            · cases hm
            · obtain rfl : m = k := List.mem_singleton.mp hm
              exact hnot (Or.inl (heq ▸ hn))
          · have hprefix : (es.map Prod.fst).Nodup := hadded.xtxs.sublist.nodup hpos
            exact hprefix.map (fun a b h => (Prod.mk.inj h).2)
          · intro n hn m hm heq
            obtain ⟨i, _, rfl⟩ := List.mem_map.mp hm
            exact hnot (Or.inr ⟨i, heq ▸ hn⟩)
        · obtain ⟨rfl, rfl⟩ := hadded.nothing.mpr hnothing
          rw [List.map_nil, List.map_nil, List.map_nil, List.append_nil, List.append_nil]
          exact ⟨hH, hX⟩

/-! ## §4. Runs. -/

variable [Contracts]

/-- The steps of a session, each with what enables it. -/
inductive StepCase (ccfg : Config) (cfg : AsyncRelayerConfig) (s : Session τ) :
    Action τ → Session τ → Prop where
  | chain {a : Chain.Action τ} {c : Chain τ} (hchain : Chain.step ccfg s.chain a = some c) :
      StepCase ccfg cfg s (.chain a) { s with chain := c }
  | started {maxbn : Except Exn Nat} {link : Link} {n : Nat} {bn : Int}
      (hcreated : s.listen = .created) (hfirst : firstBlock n link s.chain = .ok bn) :
      StepCase ccfg cfg s (.start maxbn link) { s with listen := .listening bn }
  | failed {maxbn : Except Exn Nat} {link : Link} (hcreated : s.listen = .created) :
      StepCase ccfg cfg s (.start maxbn link) { s with listen := .stopped }
  | round {link : Link} {faults : Faults} {time : Nat → PyFloat} {k : Int}
      (hk : s.listen = .listening k) :
      StepCase ccfg cfg s (.round link faults time)
        { s with
          listen := (listen cfg link faults time k s.queues s.chain).1
          queues := (listen cfg link faults time k s.queues s.chain).2 }
  | stop {k : Int} (hk : s.listen = .listening k) :
      StepCase ccfg cfg s .stop { s with listen := .stopped }

/-- **Inversion of a step.** -/
theorem step_cases {ccfg : Config} {cfg : AsyncRelayerConfig} {s s' : Session τ} {a : Action τ}
    (h : step ccfg cfg s a = some s') : StepCase ccfg cfg s a s' := by
  cases a with
  | chain a =>
      rw [step] at h
      split at h
      next c hc =>
          cases h
          exact .chain hc
      next => cases h
  | start maxbn link =>
      rw [step] at h
      split at h
      next hcreated =>
          split at h
          next bn hbn =>
              cases h
              obtain ⟨n, _, hfirst⟩ := except_bind_ok hbn
              exact .started hcreated hfirst
          next =>
              cases h
              exact .failed hcreated
      next => cases h
  | round link faults time =>
      rw [step] at h
      split at h
      next k hk =>
          cases h
          exact .round hk
      next => cases h
  | stop =>
      rw [step] at h
      split at h
      next k hk =>
          cases h
          exact .stop hk
      next => cases h

/-- A round is always possible while the task listens. -/
theorem step_round {ccfg : Config} {cfg : AsyncRelayerConfig} {s : Session τ} {k : Int}
    (hk : s.listen = .listening k) (link : Link) (faults : Faults) (time : Nat → PyFloat) :
    step ccfg cfg s (.round link faults time) = some { s with
      listen := (listen cfg link faults time k s.queues s.chain).1
      queues := (listen cfg link faults time k s.queues s.chain).2 } := by
  rw [step, hk]

/-- **Every step keeps what holds of every session.** -/
theorem step_sessionOk {ccfg : Config} {cfg : AsyncRelayerConfig} {s s' : Session τ}
    {a : Action τ} (hs : SessionOk cfg s) (h : step ccfg cfg s a = some s') : SessionOk cfg s' := by
  obtain ⟨t, hinv⟩ := hs.inv
  cases step_cases h with
  | chain hc =>
      have hpre := Chain.step_grows hc
      refine ⟨⟨t, Chain.step_chainInv hinv hc⟩, hs.created, hs.next, fun n hn => ?_, hs.headers,
        fun e he => ?_⟩
      · exact (hs.first n hn).mono hpre List.prefix_rfl List.prefix_rfl
      · obtain ⟨r, tx, hr, htx, hkept⟩ := hs.xtxs e he
        exact ⟨r, tx, hr.grows hpre, htx, hkept⟩
  | @started _ link n bn hcreated hfirst =>
      refine ⟨hs.inv, fun hl => (nomatch hl), fun k hk => ?_, hs.first, hs.headers, hs.xtxs⟩
      cases hk
      constructor
      · -- the source's latest block, or the one after the destination's
        unfold firstBlock at hfirst
        split at hfirst
        next =>
            rcases hq : Connector.queryBlockNumber link s.chain with ⟨r, c'⟩
            obtain ⟨_, hnum⟩ := Connector.queryBlockNumber_run hq
            rw [hq] at hfirst
            rw [hnum bn hfirst, hinv.blockNum]
            omega
        next =>
            cases hfirst
            omega
      · intro m hm
        rw [hs.created hcreated] at hm
        rcases hm with hm | ⟨i, hm⟩
        · cases hm
        · cases hm
  | failed hcreated =>
      exact ⟨hs.inv, fun hl => (nomatch hl), fun k hk => (nomatch hk), hs.first, hs.headers, hs.xtxs⟩
  | @round link faults time k hk =>
      exact listen_sessionOk hs hk (listen_cases cfg hinv (hs.next k hk).1 link faults time s.queues)
  | stop hk =>
      exact ⟨hs.inv, fun hl => (nomatch hl), fun k hk => (nomatch hk), hs.first, hs.headers, hs.xtxs⟩

/-- **A step keeps the entries apart exactly where it is harmless.** -/
theorem step_atMostOnce {ccfg : Config} {cfg : AsyncRelayerConfig} {s s' : Session τ}
    {a : Action τ} (hs : SessionOk cfg s) (h : step ccfg cfg s a = some s') :
    AtMostOnce s'.queues ↔ AtMostOnce s.queues ∧ Harmless cfg s a := by
  obtain ⟨t, hinv⟩ := hs.inv
  -- only a round touches the queues
  have hquiet : (∀ link faults time, a ≠ .round link faults time) →
      (AtMostOnce s.queues ↔ AtMostOnce s.queues ∧ Harmless cfg s a) := fun hno =>
    ⟨fun h => ⟨h, fun link faults time _ _ _ ha => absurd ha (hno link faults time)⟩, fun h => h.1⟩
  cases step_cases h with
  | chain hc => exact hquiet (fun _ _ _ ha => nomatch ha)
  | started hcreated hfirst => exact hquiet (fun _ _ _ ha => nomatch ha)
  | failed hcreated => exact hquiet (fun _ _ _ ha => nomatch ha)
  | stop hk => exact hquiet (fun _ _ _ ha => nomatch ha)
  | @round link faults time k hk =>
      refine (listen_atMostOnce hs hk
        (listen_cases cfg hinv (hs.next k hk).1 link faults time s.queues)).trans ?_
      refine and_congr_right fun _ => ?_
      constructor
      · intro hall link' faults' time' k' block header ha hk' hf
        cases ha
        cases hk.symm.trans hk'
        exact hall block header (by rw [hf]; rfl)
      · intro hharm block header hgot
        refine hharm link faults time k block header rfl hk ?_
        rcases hf : (RelayerUnix.fetch link k s.chain).1 with e | r
        · rw [hf] at hgot
          cases hgot
        · rw [hf] at hgot
          cases hgot
          rfl

omit [Contracts] in
theorem started_sessionOk {c0 : Chain τ} (h0 : Chain.Fresh c0) (cfg : AsyncRelayerConfig) :
    SessionOk cfg { chain := c0 } := by
  obtain ⟨t, hbase⟩ := h0.blocks
  have hinv := h0.chainInv
  rw [hbase] at hinv
  refine ⟨⟨t, hinv⟩, fun _ => rfl, fun k hk => (nomatch hk), fun n hn => ?_,
    fun e he => (nomatch he), fun e he => (nomatch he)⟩
  rcases hn with hn | ⟨i, hn⟩
  · cases hn
  · cases hn

theorem run_sessionOk {ccfg : Config} {cfg : AsyncRelayerConfig} {s s' : Session τ}
    {acts : List (Action τ)} (h : runFrom (step ccfg cfg) s acts = some s') (hs : SessionOk cfg s) :
    SessionOk cfg s' :=
  run_invariant (fun _ _ _ hs h => step_sessionOk hs h) acts h hs

/-- **Over a whole run each header and each cross-chain transaction is put at most
once exactly where every step is harmless.** -/
theorem puts_at_most_once_iff (ccfg : Config) (cfg : AsyncRelayerConfig) (c0 : Chain τ)
    (acts : List (Action τ)) (s : Session τ) (h0 : Chain.Fresh c0)
    (hrun : runFrom (step ccfg cfg) { chain := c0 } acts = some s) :
    AtMostOnce s.queues ↔ Along (step ccfg cfg) (Harmless cfg) { chain := c0 } acts := by
  have hexact := run_exact_under (fun _ _ _ hs h => step_sessionOk hs h)
    (fun _ _ _ hs h => step_atMostOnce hs h) acts (started_sessionOk h0 cfg) hrun
  exact hexact.trans (and_iff_right ⟨List.nodup_nil, List.nodup_nil⟩)

/-! ## §5. A retry that does no harm, and one that does. -/

omit [Contracts] [Sha256]

/-- A relayer from chain `0` to chain `1`. -/
def sampleRelayer : AsyncRelayerConfig where
  src := { pid := 0, paratype := "Tendermint" }
  dst := { pid := 1, paratype := "Ethereum" }
  mode := .nor
  rlytp_iff := nor_rlytp
  pap_inter := nor_pap
  par_inter := nor_par

/-- Whether the transaction is forwarded, and can be marked. -/
def crossView (e : Executed Nat) : Bool × Bool := (crossing e.tx, markable e.tx.memo)

/-- The transaction is committed in block `1`; the relayer starts there. -/
def listenActions (tx : Transaction) : List (Action Nat) :=
  (Chain.executeActions tx ++ [Chain.Action.commit PyFloat.zero]).map Action.chain
    ++ [.start (.ok 0) .delivered]

/-- The steps of the chain alone are steps of the session. -/
theorem run_chain {ccfg : Config} {cfg : AsyncRelayerConfig} [Contracts] [Sha256]
    {acts : List (Chain.Action τ)} : ∀ {s : Session τ} {c : Chain τ},
      runFrom (Chain.step ccfg) s.chain acts = some c →
        runFrom (step ccfg cfg) s (acts.map .chain) = some { s with chain := c } := by
  induction acts with
  | nil =>
      intro s c h
      cases h
      rfl
  | cons a acts ih =>
      intro s c h
      obtain ⟨c1, ha, h⟩ := runFrom_cons h
      rw [List.map_cons, runFrom, step, ha]
      exact ih (s := { s with chain := c1 }) h

/-- After these steps the relayer listens for the block of the transaction. -/
theorem listening_alone (tx : Transaction) (res : Bool × Bool)
    (h : (runFrom (@Chain.step Nat Contracts.plain Sha256.plain {}) Chain.started
      (Chain.executeActions tx)).bind (Chain.commitPreview crossView) = some [res])
    (hlen : (runFrom (@Chain.step Nat Contracts.plain Sha256.plain {}) Chain.started
      (Chain.executeActions tx)).map (fun c => c.history.length) = some 0) :
    ∃ (c : Chain Nat) (r : Committed Nat) (s : Executed Nat),
      runFrom (@step Nat Sha256.plain Contracts.plain {} sampleRelayer) { chain := Chain.started }
          (listenActions tx) = some { chain := c, listen := .listening 1 }
        ∧ @Chain.ChainInv Nat Sha256.plain [Chain.genesisBlock PyFloat.zero] c
        ∧ c.history[0]? = some r ∧ r.block.txs = [s.tx] ∧ crossView s = res := by
  let _ := Sha256.plain
  let _ := Contracts.plain
  obtain ⟨c, r, s, hrun, hhist, _, htxs, hview⟩ := Chain.committed_alone crossView tx res h hlen
  have hinv : Chain.ChainInv [Chain.genesisBlock PyFloat.zero] c :=
    Chain.run_chainInv hrun Chain.started_fresh.chainInv
  refine ⟨c, r, s, ?_, hinv, by rw [hhist]; rfl, htxs, hview⟩
  have hnum : c.blocks.blockNum = 1 := by
    rw [hinv.blockNum, hhist]
    rfl
  have hstart : step {} sampleRelayer ({ chain := c } : Session Nat) (.start (.ok 0) .delivered)
      = some { chain := c, listen := .listening 1 } := by
    rw [← hnum]
    rfl
  refine runFrom_append _ _ (run_chain hrun) ?_
  rw [runFrom, hstart]
  rfl

/-- Up to there no round takes place. -/
theorem listenActions_harmless (tx : Transaction) (s : Session Nat) :
    Along (@step Nat Sha256.plain Contracts.plain {} sampleRelayer)
      (@Harmless Nat Sha256.plain sampleRelayer) s (listenActions tx) := by
  refine along_of_forall (fun a ha s link faults time k block header heq => ?_) s
  rw [heq] at ha
  rcases List.mem_append.mp ha with ha | ha
  · obtain ⟨b, _, hb⟩ := List.mem_map.mp ha
    cases hb
  · cases List.mem_singleton.mp ha

/-- A round behind one that stayed at its block. -/
theorem two_rounds {ccfg : Config} {cfg : AsyncRelayerConfig} [Contracts] [Sha256]
    {s s1 : Session τ} {k : Int} {a : Action τ} (h : step ccfg cfg s a = some s1)
    (hk : s1.listen = .listening k) (link : Link) (faults : Faults) (time : Nat → PyFloat) :
    ∃ s2, step ccfg cfg s1 (.round link faults time) = some s2
      ∧ runFrom (step ccfg cfg) s [a, .round link faults time] = some s2 := by
  refine ⟨_, step_round hk link faults time, ?_⟩
  rw [runFrom, h]
  show runFrom _ s1 [_] = _
  rw [runFrom, step_round hk link faults time]
  rfl

/-- An exception before the header is put, and then a round without one. -/
theorem puts_at_most_once_sample :
    ∃ s : Session Nat,
      runFrom (@step Nat Sha256.plain Contracts.plain {} sampleRelayer) { chain := Chain.started }
        (listenActions (Chain.crossTx "")
          ++ [.round .delivered { header := some ⟨.runtime, ""⟩ } (fun _ => PyFloat.zero),
            .round .delivered {} (fun _ => PyFloat.zero)]) = some s
        ∧ AtMostOnce s.queues := by
  let _ := Sha256.plain
  let _ := Contracts.plain
  obtain ⟨c, r, e, hrun, hinv, hr, _, _⟩ := listening_alone (Chain.crossTx "") (true, true)
    (by decide +kernel) (by decide +kernel)
  obtain ⟨header, _, hfetch⟩ := RelayerUnix.fetch_committed hinv hr
  have hfirst : step {} sampleRelayer ({ chain := c, listen := .listening 1 } : Session Nat)
      (.round .delivered { header := some ⟨.runtime, ""⟩ } (fun _ => PyFloat.zero))
      = some { chain := c, listen := .listening 1 } := by
    have hlisten : listen sampleRelayer .delivered { header := some ⟨.runtime, ""⟩ }
        (fun _ => PyFloat.zero) 1 {} c = (.listening 1, {}) := by
      unfold listen
      rw [show (1 : Int) = ((0 + 1 : Nat) : Int) from rfl, hfetch]
      rfl
    rw [step_round rfl, hlisten]
  obtain ⟨s, _, hsecond⟩ := two_rounds hfirst rfl .delivered {} (fun _ => PyFloat.zero)
  have hall := runFrom_append (listenActions (Chain.crossTx "")) _ hrun hsecond
  refine ⟨s, hall, (puts_at_most_once_iff {} sampleRelayer Chain.started _ _ Chain.started_fresh
    hall).mpr ((along_append _ _).mpr ⟨listenActions_harmless _ _, fun s hs => ?_⟩)⟩
  cases hrun.symm.trans hs
  have huntouched : ¬ Touched ({} : Queues) 1 := by
    rintro (h | ⟨i, h⟩)
    · cases h
    · cases h
  refine ⟨fun _ _ _ k _ _ _ hk _ => ?_, fun s' hs' => ⟨fun _ _ _ k _ _ _ hk _ => ?_, fun _ _ => trivial⟩⟩
  · cases hk
    exact Or.inl huntouched
  · cases hfirst.symm.trans hs'
    cases hk
    exact Or.inl huntouched

/-- A transaction whose time marks hold a number where the relayer's list goes. -/
def unmarkedTx : Transaction :=
  { Chain.crossTx "" with
    memo := memoOf [("type", .str TranMemo.ctxSrc), ("dst", .int 1),
      ("ts", .obj [("relayer", .int 5)])] }

/-- **A committed transaction that cannot be marked has its block's header put again in
every round.** -/
theorem retry_puts_twice :
    ∃ s : Session Nat,
      runFrom (@step Nat Sha256.plain Contracts.plain {} sampleRelayer) { chain := Chain.started }
        (listenActions unmarkedTx ++ [.round .delivered {} (fun _ => PyFloat.zero),
          .round .delivered {} (fun _ => PyFloat.zero)]) = some s
        ∧ ¬ AtMostOnce s.queues := by
  let _ := Sha256.plain
  let _ := Contracts.plain
  obtain ⟨c, r, e, hrun, hinv, hr, htxs, hview⟩ := listening_alone unmarkedTx (true, false)
    (by decide +kernel) (by decide +kernel)
  obtain ⟨hcross, hmark⟩ := Prod.mk.inj hview
  obtain ⟨header, _, hfetch⟩ := RelayerUnix.fetch_committed hinv hr
  have hfetch : (RelayerUnix.fetch .delivered (1 : Int) c).1 = .ok (r.block, header) := by
    rw [show (1 : Int) = ((0 + 1 : Nat) : Int) from rfl, hfetch]
  have hdisturbed : ¬ Undisturbed sampleRelayer {} r.block.txs := by
    rw [htxs]
    rintro ⟨_, hpar | ⟨_, hall, _⟩⟩
    · exact absurd hpar (by decide)
    · rw [hall hcross] at hmark
      cases hmark
  have hputs : ¬ PutsNothing sampleRelayer {} r.block.txs := by
    rintro (h | ⟨h, _⟩)
    · exact h rfl
    · exact absurd h (by decide)
  -- the first round puts the header and stays at the block
  have hround : ∃ q, step {} sampleRelayer ({ chain := c, listen := .listening 1 } : Session Nat)
      (.round .delivered {} (fun _ => PyFloat.zero))
      = some { chain := c, listen := .listening 1, queues := q } ∧ Touched q 1 := by
    have hcase := listen_cases sampleRelayer hinv (show (0 : Int) ≤ 1 by decide) .delivered {}
      (fun _ => PyFloat.zero) ({} : Queues)
    rw [hfetch] at hcase
    rw [step_round rfl]
    generalize listen sampleRelayer .delivered {} (fun _ => PyFloat.zero) 1 {} c = res at hcase ⊢
    obtain ⟨l, q⟩ := res
    cases hcase with
    | @fetched _ _ hs es _ hfetched hadded _ hretry =>
        have hl := hretry ⟨fun _ h => (nomatch h), fun _ _ h => (nomatch h)⟩ hdisturbed
        have hnew : hs ≠ [] ∨ es ≠ [] := by
          by_contra hnone
          obtain ⟨h1, h2⟩ := not_or.mp hnone
          exact hputs (hadded.nothing.mp ⟨not_not.mp h1, not_not.mp h2⟩)
        refine ⟨_, by rw [hl], ?_⟩
        exact Or.inl (firstPut_added hadded (Or.inr ⟨r, ⟨le_refl 1, hr⟩, rfl⟩) hnew)
  obtain ⟨q, hfirst, htouched⟩ := hround
  obtain ⟨s, hstep, hsecond⟩ := two_rounds hfirst rfl .delivered {} (fun _ => PyFloat.zero)
  have hok : SessionOk sampleRelayer { chain := c, listen := .listening 1, queues := q } :=
    step_sessionOk (run_sessionOk hrun (started_sessionOk Chain.started_fresh _)) hfirst
  refine ⟨s, runFrom_append _ _ hrun hsecond, fun h => ?_⟩
  have hharm := ((step_atMostOnce hok hstep).mp h).2
  rcases hharm .delivered {} _ 1 r.block header rfl rfl hfetch with hnot | hnothing
  · exact hnot htouched
  · exact hputs hnothing

end AsyncRelayer

end TorSim
