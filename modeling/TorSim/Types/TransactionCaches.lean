/-
  TorSim.Types.TransactionCaches — the cached methods of a transaction.

  `hash`, `receipt_hash` and `as_json` are each behind an `lru_cache(maxsize=1)`,
  one entry for all transactions, looked up by identity.  The chain goes on
  writing the memo, the status, the output and the height of a transaction after
  an entry for it was made, and nothing drops the entry.  Two fields of the state
  record the transaction as it was then; no method reads them.

  Main results:
    * `call_right` — a call that is not answered from an outdated entry returns
      what the method computes now; `asJson_outdated` — one that is does not.
    * `answers_current` — **in every program of updates and such calls every
      answer was the current one**.
-/
import TorSim.Lib.LruCache
import TorSim.Lib.System
import TorSim.Types.Transaction

namespace TorSim

open TorSim.Lib

namespace TransactionCaches

/-! ## §1. The caches. -/

structure State (ι : Type) where
  txs : ι → Transaction
  hash : Option (ι × Bytes) := none
  receiptHash : Option (ι × Bytes) := none
  asJson : Option (ι × Json) := none
  receiptHashAt : Transaction := {}
  asJsonAt : Transaction := {}

variable {ι : Type}

def hashSlot : Slot (State ι) ι Bytes := ⟨State.hash, fun i v s => { s with hash := some (i, v) }⟩

def receiptHashSlot : Slot (State ι) ι Bytes :=
  ⟨State.receiptHash, fun i v s => { s with receiptHash := some (i, v), receiptHashAt := s.txs i }⟩

def asJsonSlot : Slot (State ι) ι Json :=
  ⟨State.asJson, fun i v s => { s with asJson := some (i, v), asJsonAt := s.txs i }⟩

section Methods

variable [DecidableEq ι] [Sha256]

def hash (i : ι) : Comp (State ι) Bytes :=
  hashSlot.cached i (do
    let tx ← Comp.gets (fun s => s.txs i)
    Comp.lift tx.hash)

/-- The receipt hash, given the hash. -/
def receiptOf (tx : Transaction) (h : Bytes) : Except Exn Bytes := do
  let height ← toBytes 8 tx.height
  let status ← toBytes 8 tx.status.value
  let out ← tx.out.encode
  return Sha256.digest (h ++ height ++ status ++ out)

def receiptHash (i : ι) : Comp (State ι) Bytes :=
  receiptHashSlot.cached i (do
    let h ← hash i
    let tx ← Comp.gets (fun s => s.txs i)
    Comp.lift (receiptOf tx h))

def asJson (i : ι) : Comp (State ι) Json :=
  asJsonSlot.cached i (do
    let h ← hash i
    let r ← receiptHash i
    let tx ← Comp.gets (fun s => s.txs i)
    return .obj (tx.entries (hex h) (hex r)))

/-! ## §2. Calls, updates and answers. -/

inductive Method where
  | hash
  | receiptHash
  | asJson
  deriving Repr, DecidableEq

inductive Answer where
  | bytes (m : Bytes)
  | dict (d : Json)

/-- A method behind its cache. -/
def call : Method → ι → Comp (State ι) Answer
  | .hash, i => Comp.mapOk .bytes (hash i)
  | .receiptHash, i => Comp.mapOk .bytes (receiptHash i)
  | .asJson, i => Comp.mapOk .dict (asJson i)

/-- The same method without any cache. -/
def direct (tx : Transaction) : Method → Except Exn Answer
  | .hash => tx.hash.map .bytes
  | .receiptHash => tx.receiptHash.map .bytes
  | .asJson => tx.asJson.map .dict

/-- What the chain writes into a transaction. -/
inductive Update where
  | memo (memo : Json)
  | status (status : TxStatus)
  | out (out : Json)
  | height (height : Int)

omit [Sha256] [DecidableEq ι] in
def Update.apply (tx : Transaction) : Update → Transaction
  | .memo m => { tx with memo := m }
  | .status st => { tx with status := st }
  | .out o => { tx with out := o }
  | .height h => { tx with height := h }

end Methods

/-! ## §3. Which entries are right. -/

section Right

/-- The hashed fields, which nobody writes. -/
structure SameBody (old tx : Transaction) : Prop where
  sender : old.sender = tx.sender
  to_ : old.to_ = tx.to_
  data : old.data = tx.data

/-- The fields under the receipt hash. -/
structure SameReceipt (old tx : Transaction) : Prop where
  height : old.height = tx.height
  status : old.status = tx.status
  out : old.out = tx.out

theorem SameBody.refl (tx : Transaction) : SameBody tx tx := ⟨rfl, rfl, rfl⟩

theorem SameBody.apply {old tx : Transaction} (h : SameBody old tx) (u : Update) :
    SameBody old (u.apply tx) := by
  cases u <;> exact ⟨h.sender, h.to_, h.data⟩

theorem eq_of_same {old tx : Transaction} (hb : SameBody old tx) (hr : SameReceipt old tx)
    (hm : old.memo = tx.memo) : old = tx := by
  cases old
  cases tx
  obtain ⟨rfl, rfl, rfl⟩ := hb
  obtain ⟨rfl, rfl, rfl⟩ := hr
  cases hm
  rfl

variable [Sha256]

theorem hash_congr {old tx : Transaction} (h : SameBody old tx) : old.hash = tx.hash := by
  unfold Transaction.hash
  rw [h.sender, h.to_, h.data]

theorem receiptHash_congr {old tx : Transaction} (hb : SameBody old tx) (h : SameReceipt old tx) :
    old.receiptHash = tx.receiptHash := by
  unfold Transaction.receiptHash
  rw [hash_congr hb, h.height, h.status, h.out]

/-- An entry is what the method returned for the transaction as it was; its hashed
fields are still the same. -/
structure Right (s : State ι) : Prop where
  hash : ∀ i h, s.hash = some (i, h) → (s.txs i).hash = .ok h
  receiptHash : ∀ i r, s.receiptHash = some (i, r) →
    s.receiptHashAt.receiptHash = .ok r ∧ SameBody s.receiptHashAt (s.txs i)
  asJson : ∀ i j, s.asJson = some (i, j) →
    s.asJsonAt.asJson = .ok j ∧ SameBody s.asJsonAt (s.txs i)

variable [DecidableEq ι]

omit [Sha256] in
/-- `receipt_hash` is not answered from an entry made before its fields changed. -/
def ReceiptCurrent (s : State ι) (i : ι) : Prop :=
  receiptHashSlot.lookup i s ≠ none → SameReceipt s.receiptHashAt (s.txs i)

omit [Sha256] in
/-- The call is not answered from an outdated entry. -/
def Current (s : State ι) : Method → ι → Prop
  | .hash, _ => True
  | .receiptHash, i => ReceiptCurrent s i
  | .asJson, i =>
      (asJsonSlot.lookup i s ≠ none →
        SameReceipt s.asJsonAt (s.txs i) ∧ s.asJsonAt.memo = (s.txs i).memo)
      ∧ (asJsonSlot.lookup i s = none → ReceiptCurrent s i)

/-! ## §4. What each method returns. -/

/-- What a method leaves behind: right entries and the transactions as they were. -/
structure Kept (s s' : State ι) : Prop where
  right : Right s'
  txs : s'.txs = s.txs

omit [DecidableEq ι] in
theorem Kept.refl {s : State ι} (hs : Right s) : Kept s s := ⟨hs, rfl⟩

/-- **`hash` is always right.** -/
theorem hash_spec {s : State ι} (hs : Right s) (i : ι) :
    (hash i s).1 = (s.txs i).hash ∧ Kept s (hash i s).2
      ∧ (hash i s).2.receiptHash = s.receiptHash ∧ (hash i s).2.receiptHashAt = s.receiptHashAt := by
  cases hl : hashSlot.lookup i s with
  | some h =>
      rw [hash, Slot.cached_hit hl]
      exact ⟨(hs.hash i h (Slot.lookup_eq_some.mp hl)).symm, Kept.refl hs, rfl, rfl⟩
  | none =>
      rw [hash, Slot.cached_miss hl]
      cases hh : (s.txs i).hash with
      | error e =>
          have hbody : (Comp.gets (fun s : State ι => s.txs i) >>= fun tx => Comp.lift tx.hash) s
              = (.error e, s) := by rw [Comp.gets_bind_run, hh]; rfl
          rw [Slot.fill_error hbody]
          exact ⟨rfl, Kept.refl hs, rfl, rfl⟩
      | ok h =>
          have hbody : (Comp.gets (fun s : State ι => s.txs i) >>= fun tx => Comp.lift tx.hash) s
              = (.ok h, s) := by rw [Comp.gets_bind_run, hh]; rfl
          rw [Slot.fill_ok hbody]
          refine ⟨rfl, ⟨⟨?_, hs.receiptHash, hs.asJson⟩, rfl⟩, rfl, rfl⟩
          intro i' h' heq
          cases heq
          exact hh

/-- **`receipt_hash` is right** unless its entry is outdated. -/
theorem receiptHash_spec {s : State ι} (hs : Right s) (i : ι) (hok : ReceiptCurrent s i) :
    (receiptHash i s).1 = (s.txs i).receiptHash ∧ Kept s (receiptHash i s).2 := by
  cases hl : receiptHashSlot.lookup i s with
  | some r =>
      obtain ⟨hr, hbody⟩ := hs.receiptHash i r (Slot.lookup_eq_some.mp hl)
      have hsame : SameReceipt s.receiptHashAt (s.txs i) := hok (by rw [hl]; exact Option.some_ne_none r)
      rw [receiptHash, Slot.cached_hit hl, ← receiptHash_congr hbody hsame]
      exact ⟨hr.symm, Kept.refl hs⟩
  | none =>
      rw [receiptHash, Slot.cached_miss hl]
      obtain ⟨hvalue, hkept, _⟩ := hash_spec hs i
      rcases hrun : hash i s with ⟨e | h, s'⟩
      · rw [hrun] at hvalue hkept
        rw [Slot.fill_error (Comp.bind_of_error hrun), Transaction.receiptHash, ← hvalue]
        exact ⟨rfl, hkept⟩
      · rw [hrun] at hvalue hkept
        have hdirect : (s.txs i).receiptHash = receiptOf (s.txs i) h := by
          rw [Transaction.receiptHash, ← hvalue]
          rfl
        have hbody : (hash i >>= fun h => Comp.gets (fun s : State ι => s.txs i) >>= fun tx =>
            Comp.lift (receiptOf tx h)) s = (receiptOf (s.txs i) h, s') := by
          rw [Comp.bind_of_ok hrun, Comp.gets_bind_run, hkept.txs]
          rfl
        rw [hdirect]
        cases hr : receiptOf (s.txs i) h with
        | error e =>
            rw [Slot.fill_error (hbody.trans (by rw [hr]))]
            exact ⟨rfl, hkept⟩
        | ok r =>
            rw [Slot.fill_ok (hbody.trans (by rw [hr]))]
            refine ⟨rfl, ⟨⟨hkept.right.hash, ?_, hkept.right.asJson⟩, hkept.txs⟩⟩
            intro i' r' heq
            cases heq
            refine ⟨?_, SameBody.refl _⟩
            show (s'.txs i).receiptHash = .ok r
            rw [hkept.txs, hdirect, hr]

/-- **`as_json` is right** unless its entry, or that of the receipt hash it reads, is
outdated. -/
theorem asJson_spec {s : State ι} (hs : Right s) (i : ι) (hok : Current s .asJson i) :
    (asJson i s).1 = (s.txs i).asJson ∧ Kept s (asJson i s).2 := by
  cases hl : asJsonSlot.lookup i s with
  | some j =>
      obtain ⟨hj, hbody⟩ := hs.asJson i j (Slot.lookup_eq_some.mp hl)
      obtain ⟨hsame, hmemo⟩ := hok.1 (by rw [hl]; exact Option.some_ne_none j)
      rw [asJson, Slot.cached_hit hl, ← eq_of_same hbody hsame hmemo]
      exact ⟨hj.symm, Kept.refl hs⟩
  | none =>
      rw [asJson, Slot.cached_miss hl]
      obtain ⟨hvalue, hkept, hsame, hsameAt⟩ := hash_spec hs i
      rcases hrun : hash i s with ⟨e | h, s₁⟩
      · rw [hrun] at hvalue hkept
        rw [Slot.fill_error (Comp.bind_of_error hrun), Transaction.asJson, ← hvalue]
        exact ⟨rfl, hkept⟩
      · rw [hrun] at hvalue hkept hsame hsameAt
        have hcurrent : ReceiptCurrent s₁ i := by
          intro hne
          rw [hkept.txs, show s₁.receiptHashAt = s.receiptHashAt from hsameAt]
          refine hok.2 hl ?_
          simp only [Slot.lookup, receiptHashSlot] at hne ⊢
          rwa [show s₁.receiptHash = s.receiptHash from hsame] at hne
        obtain ⟨hvalue₂, hkept₂⟩ := receiptHash_spec hkept.right i hcurrent
        rw [hkept.txs] at hvalue₂
        rcases hrun₂ : receiptHash i s₁ with ⟨e | r, s₂⟩
        · rw [hrun₂] at hvalue₂ hkept₂
          have hbody : (hash i >>= fun h => receiptHash i >>= fun r =>
              Comp.gets (fun s : State ι => s.txs i) >>= fun tx =>
                pure (Json.obj (tx.entries (hex h) (hex r)))) s = (.error e, s₂) := by
            rw [Comp.bind_of_ok hrun, Comp.bind_of_error hrun₂]
          rw [Slot.fill_error hbody, Transaction.asJson, ← hvalue, ← hvalue₂]
          exact ⟨rfl, ⟨hkept₂.right, hkept₂.txs.trans hkept.txs⟩⟩
        · rw [hrun₂] at hvalue₂ hkept₂
          have htxs : s₂.txs = s.txs := hkept₂.txs.trans hkept.txs
          have hbody : (hash i >>= fun h => receiptHash i >>= fun r =>
              Comp.gets (fun s : State ι => s.txs i) >>= fun tx =>
                pure (Json.obj (tx.entries (hex h) (hex r)))) s
              = (.ok (.obj ((s.txs i).entries (hex h) (hex r))), s₂) := by
            rw [Comp.bind_of_ok hrun, Comp.bind_of_ok hrun₂, Comp.gets_bind_run, htxs]
            rfl
          have hdirect : (s.txs i).asJson = .ok (.obj ((s.txs i).entries (hex h) (hex r))) := by
            rw [Transaction.asJson, ← hvalue, ← hvalue₂]
            rfl
          rw [Slot.fill_ok hbody, hdirect]
          refine ⟨rfl, ⟨⟨hkept₂.right.hash, hkept₂.right.receiptHash, ?_⟩, htxs⟩⟩
          intro i' j heq
          cases heq
          refine ⟨?_, SameBody.refl _⟩
          show (s₂.txs i).asJson = _
          rw [htxs, hdirect]

/-- **`as_json` is wrong** where it is answered from an outdated entry. -/
theorem asJson_outdated {s : State ι} (hs : Right s) {i : ι} (hl : asJsonSlot.lookup i s ≠ none)
    (hold : ¬ (SameReceipt s.asJsonAt (s.txs i) ∧ s.asJsonAt.memo = (s.txs i).memo)) :
    (asJson i s).1 ≠ (s.txs i).asJson := by
  obtain ⟨j, hj⟩ := Option.ne_none_iff_exists'.mp hl
  obtain ⟨hdoc, _⟩ := hs.asJson i j (Slot.lookup_eq_some.mp hj)
  rw [asJson, Slot.cached_hit hj]
  intro heq
  have hsame : s.asJsonAt = s.txs i :=
    Except.ok.inj ((Transaction.fromJson_asJson hdoc).symm.trans
      (Transaction.fromJson_asJson heq.symm))
  exact hold ⟨⟨by rw [hsame], by rw [hsame], by rw [hsame]⟩, by rw [hsame]⟩

/-! ## §5. Programs of updates and calls. -/

/-- **A call that is not answered from an outdated entry returns what the method
computes now.** -/
theorem call_right {s : State ι} (hs : Right s) (m : Method) (i : ι) (hok : Current s m i) :
    (call m i s).1 = direct (s.txs i) m ∧ Kept s (call m i s).2 := by
  cases m with
  | hash =>
      obtain ⟨hvalue, hkept, _⟩ := hash_spec hs i
      rw [call, Comp.mapOk_run, hvalue]
      exact ⟨rfl, hkept⟩
  | receiptHash =>
      obtain ⟨hvalue, hkept⟩ := receiptHash_spec hs i hok
      rw [call, Comp.mapOk_run, hvalue]
      exact ⟨rfl, hkept⟩
  | asJson =>
      obtain ⟨hvalue, hkept⟩ := asJson_spec hs i hok
      rw [call, Comp.mapOk_run, hvalue]
      exact ⟨rfl, hkept⟩

omit [Sha256] [DecidableEq ι] in
/-- A call with its answer, and the transaction as it was at the call. -/
structure Asked (ι : Type) where
  method : Method
  id : ι
  tx : Transaction
  answer : Except Exn Answer

omit [Sha256] [DecidableEq ι] in
structure Session (ι : Type) where
  state : State ι
  log : List (Asked ι) := []

omit [Sha256] [DecidableEq ι] in
/-- The chain writes a field, or somebody calls a method. -/
inductive Action (ι : Type) where
  | update (i : ι) (u : Update)
  | call (m : Method) (i : ι)

def step (s : Session ι) : Action ι → Option (Session ι)
  | .update i u => some { s with
      state := { s.state with txs := Function.update s.state.txs i (u.apply (s.state.txs i)) } }
  | .call m i =>
      let r := call m i s.state
      some { state := r.2, log := s.log ++ [⟨m, i, s.state.txs i, r.1⟩] }

/-- No call is answered from an outdated entry. -/
def CallsCurrent (s : Session ι) : Action ι → Prop
  | .update _ _ => True
  | .call m i => Current s.state m i

/-- A write keeps the hashed fields, and so the entries. -/
theorem update_right {s : State ι} (hs : Right s) (i : ι) (u : Update) :
    Right { s with txs := Function.update s.txs i (u.apply (s.txs i)) } := by
  have hbody : ∀ (old : Transaction) (i' : ι), SameBody old (s.txs i') →
      SameBody old (Function.update s.txs i (u.apply (s.txs i)) i') := by
    intro old i' h
    by_cases heq : i' = i
    · rw [heq] at h ⊢
      rw [Function.update_self]
      exact h.apply u
    · rw [Function.update_of_ne heq]
      exact h
  refine ⟨?_, ?_, ?_⟩
  · intro i' h heq
    rw [← hs.hash i' h heq]
    exact (hash_congr (hbody _ i' (SameBody.refl _))).symm
  · intro i' r heq
    obtain ⟨hr, hb⟩ := hs.receiptHash i' r heq
    exact ⟨hr, hbody _ i' hb⟩
  · intro i' j heq
    obtain ⟨hj, hb⟩ := hs.asJson i' j heq
    exact ⟨hj, hbody _ i' hb⟩

/-- Right entries, and every answer so far was the current one. -/
structure SessionRight (s : Session ι) : Prop where
  right : Right s.state
  current : ∀ e ∈ s.log, e.answer = direct e.tx e.method

theorem step_right {s s' : Session ι} {a : Action ι} (hs : SessionRight s)
    (hok : CallsCurrent s a) (h : step s a = some s') : SessionRight s' := by
  cases a with
  | update i u =>
      cases h
      exact ⟨update_right hs.right i u, hs.current⟩
  | call m i =>
      cases h
      obtain ⟨hvalue, hkept⟩ := call_right hs.right m i hok
      refine ⟨hkept.right, ?_⟩
      intro e he
      rcases List.mem_append.mp he with he | he
      · exact hs.current e he
      · rw [List.mem_singleton.mp he]
        exact hvalue

/-- The calls of a program. -/
def calls (acts : List (Action ι)) : List (Method × ι) :=
  acts.filterMap (fun a => match a with
    | .call m i => some (m, i)
    | .update _ _ => none)

/-- The log of a program has its calls. -/
theorem run_log (acts : List (Action ι)) :
    ∀ {s s' : Session ι}, runFrom step s acts = some s' →
      s'.log.map (fun e => (e.method, e.id))
        = s.log.map (fun e => (e.method, e.id)) ++ calls acts := by
  induction acts with
  | nil =>
      intro s s' h
      cases h
      rw [calls, List.filterMap_nil, List.append_nil]
  | cons a acts ih =>
      intro s s' h
      obtain ⟨s₁, hs₁, h⟩ := runFrom_cons h
      rw [ih h]
      cases a with
      | update i u =>
          cases hs₁
          rfl
      | call m i =>
          cases hs₁
          rw [List.map_append, List.append_assoc]
          rfl

/-- **In every program of updates and calls none of which is answered from an
outdated entry, every call returned the value of the fields as they were then.** -/
theorem answers_current (txs : ι → Transaction) (acts : List (Action ι)) (s : Session ι)
    (hrun : runFrom step { state := { txs := txs } } acts = some s)
    (hok : Along step CallsCurrent { state := { txs := txs } } acts) :
    s.log.map (fun e => (e.method, e.id)) = calls acts
      ∧ ∀ e ∈ s.log, e.answer = direct e.tx e.method := by
  have hstart : SessionRight ({ state := { txs := txs } } : Session ι) :=
    ⟨⟨(fun _ _ h => nomatch h), (fun _ _ h => nomatch h), (fun _ _ h => nomatch h)⟩,
      (fun e he => nomatch he)⟩
  exact ⟨run_log acts hrun,
    (run_invariant_along (fun _ _ _ hs ha h => step_right hs ha h) acts hok hrun hstart).current⟩

end Right

/-! ## §6. A query during a commit. -/

/-- Two transactions, for worked inputs. -/
def sampleTxs (i : Nat) : Transaction := { sender := .str (toString i) }

/-- The chain's writes at a commit. -/
def commitUpdates (i : Nat) : List (Action Nat) :=
  [.update i (.height 1), .update i (.status .success)]

/-- The hash is asked for before the commit; the block is encoded after it. -/
def sampleProgram : List (Action Nat) :=
  [.call .hash 0, .call .hash 1] ++ commitUpdates 0 ++ commitUpdates 1
    ++ [.call .asJson 0, .call .asJson 1]

/-- The call is answered from no entry but that of `hash`. -/
def Missed [DecidableEq ι] (s : Session ι) : Action ι → Bool
  | .call .receiptHash i => (receiptHashSlot.lookup i s.state).isNone
  | .call .asJson i =>
      (asJsonSlot.lookup i s.state).isNone && (receiptHashSlot.lookup i s.state).isNone
  | _ => true

theorem current_of_missed [DecidableEq ι] (s : Session ι) (a : Action ι) (h : Missed s a = true) :
    CallsCurrent s a := by
  rcases a with ⟨i, u⟩ | ⟨m, i⟩
  · trivial
  · cases m with
    | hash => trivial
    | receiptHash => exact fun hne => absurd (Option.isNone_iff_eq_none.mp h) hne
    | asJson =>
        obtain ⟨h1, h2⟩ := Bool.and_eq_true_iff.mp h
        exact ⟨fun hne => absurd (Option.isNone_iff_eq_none.mp h1) hne,
          fun _ hne => absurd (Option.isNone_iff_eq_none.mp h2) hne⟩

theorem answers_current_sample :
    ∃ s : Session Nat,
      s.log.map (fun e => (e.method, e.id)) = [(.hash, 0), (.hash, 1), (.asJson, 0), (.asJson, 1)]
        ∧ ∀ e ∈ s.log, e.answer = @direct Sha256.plain e.tx e.method := by
  let _ := Sha256.plain
  obtain ⟨s, hrun⟩ : ∃ s, runFrom step { state := { txs := sampleTxs } } sampleProgram = some s :=
    ⟨_, rfl⟩
  refine ⟨s, answers_current sampleTxs sampleProgram s hrun ?_⟩
  have hmissed : Along step (fun s a => Missed s a = true)
      { state := { txs := sampleTxs } } sampleProgram := by
    decide +kernel
  exact along_mono current_of_missed sampleProgram hmissed

/-- The height in a returned document. -/
def heightIn : Except Exn Answer → Option Int
  | .ok (.dict (.obj kvs)) => match kvs.lookup "height" with
      | some (.int h) => some h
      | _ => none
  | _ => none

theorem heightIn_direct [Sha256] {tx : Transaction} {h : Int}
    (hh : heightIn (direct tx .asJson) = some h) : h = tx.height := by
  unfold direct at hh
  cases hj : tx.asJson with
  | error e =>
      rw [hj] at hh
      cases hh
  | ok j =>
      rw [hj] at hh
      obtain ⟨_, d, r, _, _, rfl⟩ := Transaction.asJson_eq_ok hj
      simp only [Except.map, heightIn, Transaction.entries, List.lookup_cons, List.lookup_nil] at hh
      simpa using hh.symm

/-- The second answer is the document of the transaction before its commit. -/
def Outdated (log : List (Asked Nat)) : Bool :=
  match log with
  | [_, e] => decide (e.method = .asJson ∧ e.tx.height = 1 ∧ e.tx.status = .success
      ∧ heightIn e.answer = some 0)
  | _ => false

/-- **A query during a commit makes the block record an outdated transaction**: the
document made for the query is what the encoder of the block finds in the cache. -/
theorem query_outdates_block :
    ∃ (s : Session Nat) (e : Asked Nat),
      runFrom (@step Nat Sha256.plain _) { state := { txs := sampleTxs } }
          ([.call .asJson 0] ++ commitUpdates 0 ++ [.call .asJson 0]) = some s
        ∧ e ∈ s.log ∧ e.tx.height = 1 ∧ e.tx.status = .success ∧ heightIn e.answer = some 0
        ∧ e.answer ≠ @direct Sha256.plain e.tx e.method := by
  let _ := Sha256.plain
  have heval : ((runFrom step { state := { txs := sampleTxs } }
      ([.call .asJson 0] ++ commitUpdates 0 ++ [.call .asJson 0])).map
        (fun s => Outdated s.log)) = some true := by decide +kernel
  obtain ⟨s, hrun, heval⟩ := Option.map_eq_some_iff.mp heval
  unfold Outdated at heval
  split at heval
  next e' e hlog =>
      obtain ⟨hmethod, hheight, hstatus, hold⟩ := of_decide_eq_true heval
      refine ⟨s, e, hrun, by rw [hlog]; simp, hheight, hstatus, hold, fun heq => ?_⟩
      rw [heq, hmethod] at hold
      have hzero := heightIn_direct hold
      omega
  next => cases heval

end TransactionCaches

end TorSim
