/-
  TorSim.Service.Handlers — the requests a chain answers.

  Each handler runs in a `try` that turns any exception into an answer of code
  `201` with the exception's text.  A submission is one entry in the pool and
  the hash of the transaction; a query runs the contract on the chain's own
  store, outside any block.

  Main definitions:
    * `sendTx` — the submission handler.
    * `queryBlock`, `queryBlockNumber`, `queryTxProof`, `queryTx`, `callCtr` — the
      queries.
    * `answer` — what the client makes of the handler's outcome.
    * `post` — the answer itself.

  Main results:
    * `sendTx_decoded` — what the submission handler does to a decoded body.
    * `sendTx_honest_iff` — **when the answer to a submission tells what happened**:
      the transaction is hashed behind its acceptance, so a body whose hashed
      fields are no strings is refused and kept.
-/
import TorSim.Blockchain.Chain

namespace TorSim

open TorSim.Lib

namespace Handlers

section

variable {τ : Type} [Contracts] [Sha256]

/-! ## §1. Blocks. -/

def queryBlockNumber : Comp (Chain τ) Int := Comp.gets (fun c => c.blocks.blockNum)

def noBlock (bn maxbn : Int) : String :=
  "cannot find block: " ++ toString bn ++ ". max block number is " ++ toString maxbn ++ " "

omit [Contracts] in
/-- `query_block`: the block's encoding. -/
def queryBlock (bn : Int) : Comp (Chain τ) String := do
  let c ← Comp.gets id
  let block ← Comp.lift (c.blocks.getBlockByHeight bn)
  match block with
  | none => Comp.raise ⟨.runtime, noBlock bn c.blocks.blockNum⟩
  | some block => Comp.lift block.asStr

omit [Contracts] [Sha256] in
/-- The proof of a transaction is its hash. -/
def queryTxProof (txhash : String) : Comp (Chain τ) String := do
  let proof ← Comp.lift (fromhex txhash)
  return hex proof

/-! ## §2. Transactions. -/

omit [Contracts] in
/-- `send_tx`: the body becomes a pending transaction and goes to the pool; the
answer is its hash, computed only then. -/
def sendTx (time : PyFloat) (tag : τ) (info : Json) : Comp (Chain τ) String := do
  let tx ← Comp.lift (Transaction.fromJson info (some .pending))
  let accepted ← fun c => ((c.pool.putTx time tag tx).1, c.submit time tag tx)
  Comp.lift (assertE accepted "")
  let h ← Comp.lift tx.hash
  return hex h

def noTx (th : String) : String := "cannot find txhash: " ++ th

omit [Contracts] in
/-- `query_tx`: the document of the indexed transaction. -/
def queryTx (th : String) (ix : TransactionIndexer) : Except Exn String := do
  let txhash ← fromhex th
  match ix.query txhash with
  | none => .error ⟨.runtime, noTx th⟩
  | some res => do
      let doc ← res.asJson
      return Json.dumps doc

/-- `call_ctr`: a query of a contract, without a block in the context. -/
def callCtr (to_ data : Json) : Comp (Chain τ) Response :=
  Comp.zoom Chain.store (fun st c => { c with store := st }) (Executor.query {} to_ data)

/-! ## §3. The answer. -/

/-- The request as its sender sees it: an exception of the handler arrives as an
answer that is not `200`, and the sender's assertion fails with its text. -/
def answer {σ α : Type} (x : Comp σ α) : Comp σ α := fun s =>
  match x s with
  | (.ok a, s') => (.ok a, s')
  | (.error e, s') =>
      (.error ⟨.assertion, "code error: " ++ if e.isException then e.msg else ""⟩, s')

end

/-- `StandardResponse`. -/
structure StandardResponse where
  code : Int := 404
  msg : String := ""
  error : String := ""

/-- `post`: the handler's result is answered with code `200`, an exception with
`201`.  The answer is written in any case, so an exception that passes the
`except` clause leaves the initial one. -/
def post {σ : Type} (callfunc : Comp σ String) : σ → StandardResponse × σ := fun s =>
  let r := callfunc s
  let resp : StandardResponse := match r.1 with
    | .ok result => { code := 200, msg := result }
    | .error e => if e.isException then { code := 201, error := e.msg } else {}
  (resp, r.2)

theorem post_state {σ : Type} (x : Comp σ String) (s : σ) : (post x s).2 = (x s).2 := rfl

theorem post_of_ok {σ : Type} {x : Comp σ String} {s s' : σ} {msg : String}
    (h : x s = (.ok msg, s')) : post x s = ({ code := 200, msg := msg }, s') := by
  unfold post
  rw [h]

theorem post_of_error {σ : Type} {x : Comp σ String} {s s' : σ} {e : Exn}
    (h : x s = (.error e, s')) :
    (post x s).1.code = (if e.isException then 201 else 404) ∧ (post x s).2 = s' := by
  unfold post
  rw [h]
  cases he : e.isException <;> simp [he]

/-! ## §4. What the answer to a submission tells. -/

variable {τ : Type}

/-- A decoded body goes to the pool; the answer follows from the pool's and the
transaction's hash. -/
theorem sendTx_decoded [Sha256] {info : Json} {tx : Transaction}
    (h : Transaction.fromJson info (some .pending) = .ok tx) (time : PyFloat) (tag : τ)
    (c : Chain τ) :
    sendTx time tag info c = (do
      let accepted ← (c.pool.putTx time tag tx).1
      assertE accepted ""
      let h ← tx.hash
      return hex h, c.submit time tag tx) := by
  unfold sendTx
  rw [h, Comp.lift_ok_bind_run]
  show Comp.andThen (fun c => ((c.pool.putTx time tag tx).1, c.submit time tag tx)) _ c = _
  unfold Comp.andThen
  dsimp only
  cases (c.pool.putTx time tag tx).1 with
  | error e => rfl
  | ok accepted =>
      cases accepted with
      | false => rfl
      | true =>
          dsimp only
          rw [assertE_true, Comp.lift_ok_bind_run]
          show (Comp.lift tx.hash >>= fun h => pure (hex h)) _ = _
          cases tx.hash <;> rfl

/-- What a submission's answer promises: code `201` and the pool as it was, or code
`200` and one transaction more, the one with the hash in the answer. -/
structure Honest [Sha256] (time : PyFloat) (tag : τ) (info : Json) (c : Chain τ) : Prop where
  refused : (post (sendTx time tag info) c).1.code = 201 →
    (post (sendTx time tag info) c).2.pool = c.pool
  accepted : (post (sendTx time tag info) c).1.code = 200 →
    ∃ tx d, (post (sendTx time tag info) c).2.pool
        = { c.pool with items := c.pool.items ++ [(tag, tx)] }
      ∧ tx.hash = .ok d ∧ (post (sendTx time tag info) c).1.msg = hex d

/-- The body has the three required entries and an integer height. -/
structure Decodable (kvs : List (String × Json)) (sender recipient data : Json) : Prop where
  sender : kvs.lookup "sender" = some sender
  to_ : kvs.lookup "to" = some recipient
  data : kvs.lookup "data" = some data
  height : ∃ n, Transaction.intOf ((kvs.lookup "height").getD (.int 0)) = .ok n

/-- The pool's mark goes on the memo of the body. -/
def MemoMarkable (kvs : List (String × Json)) : Prop :=
  ∃ mkvs ts xs, Json.loadsValue ((kvs.lookup "memo").getD (.str "\x7b\x7d")) = .ok (.obj mkvs)
    ∧ tsOf mkvs = .obj ts ∧ (ts.lookup "mp_put").getD (.arr []) = .arr xs

/-- **The bodies that fail too late**: the pool takes the transaction, and then one
of its hashed fields is no string. -/
def FailsTooLate (info : Json) (pool : SyncMemPool τ) : Prop :=
  ∃ kvs sender recipient data, info = .obj kvs ∧ Decodable kvs sender recipient data
    ∧ MemoMarkable kvs ∧ pool.isFull = false
    ∧ ¬ ((∃ s, sender = .str s) ∧ (∃ t, recipient = .str t) ∧ ∃ d, data = .str d)

/-- What a decoded transaction is made of. -/
theorem fromJson_eq_ok {info : Json} {status : TxStatus} {tx : Transaction}
    (h : Transaction.fromJson info (some status) = .ok tx) :
    ∃ kvs, info = .obj kvs ∧ Decodable kvs tx.sender tx.to_ tx.data
      ∧ tx.memo = (kvs.lookup "memo").getD (.str "\x7b\x7d") := by
  cases info with
  | obj kvs =>
      obtain ⟨sender, hsender, h⟩ := except_bind_ok h
      obtain ⟨recipient, hto, h⟩ := except_bind_ok h
      obtain ⟨data, hdata, h⟩ := except_bind_ok h
      obtain ⟨_, _, h⟩ := except_bind_ok h
      obtain ⟨height, hheight, h⟩ := except_bind_ok h
      cases h
      exact ⟨kvs, rfl, ⟨Json.lookup_of_getItem hsender, Json.lookup_of_getItem hto,
        Json.lookup_of_getItem hdata, height, hheight⟩, rfl⟩
  | _ => cases h

theorem fromJson_of_decodable {kvs : List (String × Json)} {sender recipient data : Json}
    (h : Decodable kvs sender recipient data) (status : TxStatus) :
    ∃ tx, Transaction.fromJson (.obj kvs) (some status) = .ok tx ∧ tx.sender = sender
      ∧ tx.to_ = recipient ∧ tx.data = data
      ∧ tx.memo = (kvs.lookup "memo").getD (.str "\x7b\x7d") := by
  obtain ⟨height, hheight⟩ := h.height
  refine ⟨{ sender := sender, to_ := recipient, data := data,
            memo := (kvs.lookup "memo").getD (.str "\x7b\x7d"), height := height,
            status := status, out := (kvs.lookup "out").getD (.str "") }, ?_, rfl, rfl, rfl, rfl⟩
  simp only [Transaction.fromJson, Json.getItem, h.sender, h.to_, h.data, hheight]
  rfl

/-- The pool's mark on a transaction is that on its memo. -/
theorem markTx_iff (time : PyFloat) {tx : Transaction} {kvs : List (String × Json)}
    (h : tx.memo = (kvs.lookup "memo").getD (.str "\x7b\x7d")) :
    (∃ marked, SyncMemPool.markTx "mp_put" time tx = .ok marked) ↔ MemoMarkable kvs := by
  unfold MemoMarkable
  rw [← h, ← stampMemo_iff "mp_put" time]
  constructor
  · rintro ⟨marked, hmarked⟩
    obtain ⟨memo, hmemo, _⟩ := SyncMemPool.markTx_eq_ok hmarked
    exact ⟨memo, hmemo⟩
  · rintro ⟨memo, hmemo⟩
    exact ⟨_, by rw [SyncMemPool.markTx, hmemo]; rfl⟩

/-- The late failures, in terms of the transaction. -/
theorem failsTooLate_iff (time : PyFloat) (info : Json) (pool : SyncMemPool τ) :
    FailsTooLate info pool ↔ ∃ tx marked, Transaction.fromJson info (some .pending) = .ok tx
      ∧ pool.isFull = false ∧ SyncMemPool.markTx "mp_put" time tx = .ok marked
      ∧ ¬ tx.Hashable := by
  constructor
  · rintro ⟨kvs, sender, recipient, data, rfl, hdec, hmark, hfull, hstr⟩
    obtain ⟨tx, htx, hs, ht, hd, hmemo⟩ := fromJson_of_decodable hdec .pending
    obtain ⟨marked, hmarked⟩ := (markTx_iff time hmemo).mpr hmark
    refine ⟨tx, marked, htx, hfull, hmarked, fun hh => hstr ?_⟩
    rw [← hs, ← ht, ← hd]
    exact ⟨hh.sender, hh.to_, hh.data⟩
  · rintro ⟨tx, marked, htx, hfull, hmarked, hnot⟩
    obtain ⟨kvs, rfl, hdec, hmemo⟩ := fromJson_eq_ok htx
    exact ⟨kvs, tx.sender, tx.to_, tx.data, rfl, hdec, (markTx_iff time hmemo).mp ⟨marked, hmarked⟩,
      hfull, fun hall => hnot ⟨hall.1, hall.2.1, hall.2.2⟩⟩

/-- A submission that raises and leaves the pool alone is answered honestly. -/
theorem honest_of_error [Sha256] {time : PyFloat} {tag : τ} {info : Json} {c c' : Chain τ} {e : Exn}
    (h : sendTx time tag info c = (.error e, c')) (hpool : c'.pool = c.pool) :
    Honest time tag info c := by
  obtain ⟨hcode, hstate⟩ := post_of_error h
  refine ⟨fun _ => by rw [hstate, hpool], fun h200 => ?_⟩
  rw [hcode] at h200
  split at h200 <;> cases h200

/-- **A submission's answer tells what happened exactly where nothing fails behind
the acceptance.** -/
theorem sendTx_honest_iff [Sha256] (time : PyFloat) (tag : τ) (info : Json) (c : Chain τ) :
    Honest time tag info c ↔ ¬ FailsTooLate info c.pool := by
  rw [failsTooLate_iff time]
  cases hf : Transaction.fromJson info (some .pending) with
  | error e =>
      -- a body that does not decode never reaches the pool
      have hrun : sendTx time tag info c = (.error e, c) := by
        unfold sendTx
        rw [hf, Comp.lift_error_bind_run]
      exact iff_of_true (honest_of_error hrun rfl) (by
        rintro ⟨tx, _, htx, _⟩
        cases htx)
  | ok tx =>
      have hrun := sendTx_decoded hf time tag c
      rcases SyncMemPool.putTx_cases time tag tx c.pool with
        ⟨marked, hfull, hmark, hput⟩ | ⟨hfull, hput⟩ | ⟨e, hput⟩
      · -- accepted: the hash decides
        have hpool : (c.submit time tag tx).pool = { c.pool with
            items := c.pool.items ++ [(tag, { marked with status := .pending })] } := by
          rw [Chain.submit, hput]
        rw [hput] at hrun
        cases hh : tx.hash with
        | error e =>
            rw [hh] at hrun
            have hnot : ¬ tx.Hashable := by
              intro hable
              obtain ⟨d, hd⟩ := Transaction.hash_of_hashable hable
              rw [hh] at hd
              cases hd
            refine iff_of_false (fun hhonest => ?_)
              (not_not_intro ⟨tx, marked, rfl, hfull, hmark, hnot⟩)
            obtain ⟨hcode, hstate⟩ := post_of_error hrun
            rw [Transaction.caughtE_hash tx e hh, if_pos rfl] at hcode
            have hkept := hhonest.refused hcode
            rw [hstate, hpool] at hkept
            have hlen := congrArg (fun mp => mp.items.length) hkept
            simp at hlen
        | ok d =>
            rw [hh] at hrun
            have hrun : sendTx time tag info c = (.ok (hex d), c.submit time tag tx) := hrun
            have hpost := post_of_ok hrun
            refine iff_of_true ⟨fun hcode => ?_, fun _ => ?_⟩ ?_
            · rw [hpost] at hcode
              cases hcode
            · refine ⟨{ marked with status := .pending }, d, ?_, ?_, ?_⟩
              · rw [hpost, hpool]
              · obtain ⟨memo, _, rfl⟩ := SyncMemPool.markTx_eq_ok hmark
                exact hh
              · rw [hpost]
            · rintro ⟨tx', _, htx', _, _, hnot⟩
              cases htx'
              exact hnot (Transaction.hash_eq_ok hh)
      · -- a full pool
        rw [hput] at hrun
        refine iff_of_true (honest_of_error hrun ?_) ?_
        · rw [Chain.submit, hput]
        · rintro ⟨tx', _, htx', hfull', _⟩
          rw [hfull] at hfull'
          cases hfull'
      · -- a memo that cannot be marked
        rw [hput] at hrun
        refine iff_of_true (honest_of_error hrun ?_) ?_
        · rw [Chain.submit, hput]
        · rintro ⟨tx', marked, htx', hfull, hmark, _⟩
          cases htx'
          rw [SyncMemPool.putTx_of_marked tag hfull hmark] at hput
          cases (Prod.mk.inj hput).1

/-- A body whose sender is a number. -/
def numberSender : Json := .obj [("sender", .int 1), ("to", .str ""), ("data", .str "")]

/-- The answer to it is `201`, and the transaction waits in the pool. -/
theorem numberSender_kept :
    (post (@sendTx Unit Sha256.plain PyFloat.zero () numberSender) {}).1.code = 201
      ∧ (post (@sendTx Unit Sha256.plain PyFloat.zero () numberSender) {}).2.pool.qsize = 1
      ∧ ¬ @Honest Unit Sha256.plain PyFloat.zero () numberSender {} := by
  have hcode : (post (@sendTx Unit Sha256.plain PyFloat.zero () numberSender) {}).1.code = 201 := by
    decide +kernel
  have hsize : (post (@sendTx Unit Sha256.plain PyFloat.zero () numberSender) {}).2.pool.qsize
      = 1 := by
    decide +kernel
  refine ⟨hcode, hsize, fun h => ?_⟩
  have hkept := @Honest.refused Unit Sha256.plain _ _ _ _ h hcode
  rw [hkept] at hsize
  cases hsize

end Handlers

end TorSim
