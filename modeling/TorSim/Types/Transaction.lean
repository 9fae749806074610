/-
  TorSim.Types.Transaction — transactions, their hashes and their JSON form.

  A transaction arrives as an unchecked JSON body: `sender`, `to`, `data`,
  `memo` and `out` are whatever values the client sent, and only hashing finds
  out that one of them is no string.  The hash function is a parameter: every
  result holds for every function from bytes to bytes.

  Main results:
    * `asJson_eq_ok` — when `as_json` succeeds, what the fields are and what
      it returns.
    * `asJson_of_hashable` — when it does succeed.
    * `fromJson_asJson` — **`Transaction.from_json(tx.as_json())` is `tx`**,
      the status through its integer value, the derived hashes dropped.
    * `query_storeEach` — what the index answers after any calls of `store`.
    * `hash_binds_iff` — **the hash binds the concatenation of the three fields**,
      not the fields: when equal hashes come from equal fields, and when the
      index answers with them.
-/
import TorSim.Lib.JsonRoundTrip
import Mathlib.Data.List.Induction

namespace TorSim

open TorSim.Lib

/-! ## §1. Statuses and memo types. -/

inductive TxStatus where
  | invalid
  | created
  | pending
  | proposing
  | success
  | failed
  deriving Repr, DecidableEq

namespace TxStatus

/-- `status.value`. -/
def value : TxStatus → Int
  | .invalid => 0
  | .created => 1
  | .pending => 2
  | .proposing => 3
  | .success => 4
  | .failed => 5

/-- `TxStatus(i)`. -/
def ofValue (i : Int) : Except Exn TxStatus :=
  if i = 0 then .ok .invalid else if i = 1 then .ok .created else if i = 2 then .ok .pending
  else if i = 3 then .ok .proposing else if i = 4 then .ok .success else if i = 5 then .ok .failed
  else .error ⟨.value, toString i ++ " is not a valid TxStatus"⟩

@[simp] theorem ofValue_value (s : TxStatus) : ofValue s.value = .ok s := by
  cases s <;> rfl

theorem value_range (s : TxStatus) : 0 ≤ s.value ∧ s.value < 256 ^ 8 := by
  cases s <;> decide

end TxStatus

namespace TranMemo

def ctxSrc : String := "CTX-SRC"
def ctxDst : String := "CTX-DST"
def ctxInter : String := "CTX-INTER"
def ctxHdr : String := "CTX-HEADER"
def ctxDstL1 : String := "CTX-DST-L1"

end TranMemo

/-! ## §2. Transactions. -/

/-- `hashlib.sha256(m).digest()`. -/
class Sha256 where
  digest : Bytes → Bytes

/-- The first byte of the message as its digest: a stand-in for worked inputs. -/
@[reducible] def Sha256.plain : Sha256 := ⟨fun m => m.take 1⟩

/-- The whole message as its digest: a stand-in without collisions. -/
@[reducible] def Sha256.whole : Sha256 := ⟨id⟩

structure Transaction where
  sender : Json := .str ""
  to_ : Json := .str ""
  data : Json := .str ""
  memo : Json := .str "\x7b\x7d"
  height : Int := 0
  status : TxStatus := .invalid
  out : Json := .str ""

namespace Transaction

variable [Sha256]

def hash (tx : Transaction) : Except Exn Bytes := do
  let sender ← tx.sender.encode
  let recipient ← tx.to_.encode
  let data ← tx.data.encode
  return Sha256.digest (sender ++ recipient ++ data)

/-- The receipt hash covers the hash, the height, the status and the output. -/
def receiptHash (tx : Transaction) : Except Exn Bytes := do
  let h ← tx.hash
  let height ← toBytes 8 tx.height
  let status ← toBytes 8 tx.status.value
  let out ← tx.out.encode
  return Sha256.digest (h ++ height ++ status ++ out)

def asJson (tx : Transaction) : Except Exn Json := do
  let h ← tx.hash
  let r ← tx.receiptHash
  return .obj [
    ("sender", tx.sender),
    ("to", tx.to_),
    ("data", tx.data),
    ("memo", tx.memo),
    ("height", .int tx.height),
    ("status", .int tx.status.value),
    ("out", tx.out),
    ("hash", .str (hex h)),
    ("receiptHash", .str (hex r))]

/-- `isinstance(height, int)`, which booleans satisfy. -/
def intOf : Json → Except Exn Int
  | .int i => .ok i
  | .bool b => .ok (if b then 1 else 0)
  | _ => .error ⟨.assertion, ""⟩

/-- The status entry of a JSON body: an integer goes through the enumeration.
Any other value is refused here; the source stores it and fails at the first
read of `.value`, and `as_json` never writes one. -/
def statusOf : Option Json → Except Exn TxStatus
  | none => .ok .invalid
  | some (.int i) => TxStatus.ofValue i
  | some (.bool b) => TxStatus.ofValue (if b then 1 else 0)
  | some _ => .error ⟨.attribute, "object has no attribute 'value'"⟩

/-- `Transaction.from_json(info)`.  `given` is the status when the caller put a
`TxStatus` object into `info`, as `send_tx` and `generate_xtx` do. -/
def fromJson (info : Json) (given : Option TxStatus := none) : Except Exn Transaction :=
  match info with
  | .obj kvs => do
      let sender ← info.getItem "sender"
      let recipient ← info.getItem "to"
      let data ← info.getItem "data"
      let status ← match given with
        | some s => .ok s
        | none => statusOf (kvs.lookup "status")
      let height ← intOf ((kvs.lookup "height").getD (.int 0))
      return {
        sender := sender
        to_ := recipient
        data := data
        memo := (kvs.lookup "memo").getD (.str "\x7b\x7d")
        height := height
        status := status
        out := (kvs.lookup "out").getD (.str "") }
  | _ => .error ⟨.assertion, "arg must be json"⟩

/-! ## §3. When the encoders succeed. -/

/-- The three hashed fields are strings. -/
structure Hashable (tx : Transaction) : Prop where
  sender : ∃ s, tx.sender = .str s
  to_ : ∃ s, tx.to_ = .str s
  data : ∃ s, tx.data = .str s

/-- `as_json` succeeds: the hashed fields and the output are strings, the height
fits eight bytes. -/
structure Encodable (tx : Transaction) : Prop extends Hashable tx where
  out : ∃ s, tx.out = .str s
  height_nonneg : 0 ≤ tx.height
  height_lt : tx.height < 256 ^ 8

omit [Sha256] in
theorem encode_eq_ok {v : Json} {bs : Bytes} (h : v.encode = .ok bs) : ∃ s, v = .str s := by
  cases v with
  | str s => exact ⟨s, rfl⟩
  | _ => cases h

theorem hash_of_hashable {tx : Transaction} (h : tx.Hashable) : ∃ d, tx.hash = .ok d := by
  obtain ⟨⟨s, hs⟩, ⟨t, ht⟩, ⟨d, hd⟩⟩ := h
  exact ⟨_, by rw [hash, hs, ht, hd]; rfl⟩

theorem hash_eq_ok {tx : Transaction} {d : Bytes} (h : tx.hash = .ok d) : tx.Hashable := by
  obtain ⟨s, hs, h⟩ := except_bind_ok h
  obtain ⟨t, ht, h⟩ := except_bind_ok h
  obtain ⟨x, hx, _⟩ := except_bind_ok h
  exact ⟨encode_eq_ok hs, encode_eq_ok ht, encode_eq_ok hx⟩

theorem caughtE_hash (tx : Transaction) : Comp.CaughtE tx.hash :=
  Comp.caughtE_bind (Json.caughtE_encode _) fun _ =>
    Comp.caughtE_bind (Json.caughtE_encode _) fun _ =>
      Comp.caughtE_bind (Json.caughtE_encode _) fun _ => Comp.caughtE_ok _

theorem receiptHash_of_encodable {tx : Transaction} (h : tx.Encodable) :
    ∃ d, tx.receiptHash = .ok d := by
  obtain ⟨d, hd⟩ := hash_of_hashable h.toHashable
  obtain ⟨o, ho⟩ := h.out
  have hstatus := tx.status.value_range
  exact ⟨_, by rw [receiptHash, hd, toBytes_of_range h.height_nonneg h.height_lt,
    toBytes_of_range hstatus.1 hstatus.2, ho]; rfl⟩

theorem receiptHash_eq_ok {tx : Transaction} {d : Bytes} (h : tx.receiptHash = .ok d) :
    tx.Encodable := by
  obtain ⟨x, hx, h⟩ := except_bind_ok h
  obtain ⟨y, hy, h⟩ := except_bind_ok h
  obtain ⟨z, _, h⟩ := except_bind_ok h
  obtain ⟨o, ho, _⟩ := except_bind_ok h
  obtain ⟨h0, h1⟩ := toBytes_eq_ok hy
  exact ⟨hash_eq_ok hx, encode_eq_ok ho, h0, h1⟩

/-- The entries `as_json` writes, given the two hash texts. -/
def entries (tx : Transaction) (h r : String) : List (String × Json) := [
  ("sender", tx.sender), ("to", tx.to_), ("data", tx.data), ("memo", tx.memo),
  ("height", .int tx.height), ("status", .int tx.status.value), ("out", tx.out),
  ("hash", .str h), ("receiptHash", .str r)]

/-- **When `as_json` succeeds**, the transaction is encodable and the result is
the dictionary of its fields and hashes. -/
theorem asJson_eq_ok {tx : Transaction} {j : Json} (h : tx.asJson = .ok j) :
    tx.Encodable ∧ ∃ d r, tx.hash = .ok d ∧ tx.receiptHash = .ok r
      ∧ j = .obj (tx.entries (hex d) (hex r)) := by
  obtain ⟨d, hd, h⟩ := except_bind_ok h
  obtain ⟨r, hr, h⟩ := except_bind_ok h
  exact ⟨receiptHash_eq_ok hr, d, r, hd, hr, (Except.ok.inj h).symm⟩

theorem asJson_of_encodable {tx : Transaction} (h : tx.Encodable) :
    ∃ d r, tx.hash = .ok d ∧ tx.receiptHash = .ok r
      ∧ tx.asJson = .ok (.obj (tx.entries (hex d) (hex r))) := by
  obtain ⟨d, hd⟩ := hash_of_hashable h.toHashable
  obtain ⟨r, hr⟩ := receiptHash_of_encodable h
  exact ⟨d, r, hd, hr, by rw [asJson, hd, hr]; rfl⟩

/-! ## §4. The round trip. -/

omit [Sha256] in
/-- The document of a transaction is well formed when its memo is. -/
theorem wf_entries {tx : Transaction} (h : tx.Encodable) (hm : tx.memo.wf = true)
    (d r : String) : (Json.obj (tx.entries d r)).wf = true := by
  obtain ⟨s, hs⟩ := h.sender
  obtain ⟨t, ht⟩ := h.to_
  obtain ⟨x, hx⟩ := h.data
  obtain ⟨o, ho⟩ := h.out
  rw [Json.wf_obj_iff, entries, hs, ht, hx, ho]
  refine ⟨by simp, ?_⟩
  simp [Json.wf, hm]

omit [Sha256] in
/-- Reading the entries back: the fields return, the two hashes are dropped. -/
theorem fromJson_entries (tx : Transaction) (d r : String) :
    fromJson (.obj (tx.entries d r)) = .ok tx := by
  have hstatus : statusOf (some (.int tx.status.value)) = .ok tx.status :=
    TxStatus.ofValue_value tx.status
  simp only [fromJson, entries, Json.getItem, List.lookup_cons, List.lookup_nil, Option.getD]
  simp [hstatus, intOf, bind, Except.bind, pure, Except.pure]

/-- **`Transaction.from_json(tx.as_json())` is `tx`.** -/
theorem fromJson_asJson {tx : Transaction} {j : Json} (h : tx.asJson = .ok j) :
    fromJson j = .ok tx := by
  obtain ⟨_, d, r, _, _, rfl⟩ := asJson_eq_ok h
  exact fromJson_entries tx (hex d) (hex r)

/-- The same with a status the caller supplies. -/
theorem fromJson_asJson_given {tx : Transaction} {j : Json} (h : tx.asJson = .ok j)
    (status : TxStatus) : fromJson j (some status) = .ok { tx with status := status } := by
  obtain ⟨_, d, r, _, _, rfl⟩ := asJson_eq_ok h
  simp only [fromJson, entries, Json.getItem, List.lookup_cons, List.lookup_nil, Option.getD]
  simp [intOf, bind, Except.bind, pure, Except.pure]

end Transaction

/-! ## §5. The index. -/

/-- `TransactionIndexer`: the transactions by their hashes.  An entry is what was
stored: a copy where the index is reached through a proxy. -/
structure TransactionIndexer where
  map : Bytes → Option Transaction := fun _ => none

namespace TransactionIndexer

def store [Sha256] (tx : Transaction) : Comp TransactionIndexer Unit := do
  let txhash ← Comp.lift tx.hash
  Comp.update (fun ix => { map := Function.update ix.map txhash (some tx) })

def query (ix : TransactionIndexer) (txhash : Bytes) : Option Transaction := ix.map txhash

/-- `for tx in txs: txindexer.store(tx)`. -/
def storeAll [Sha256] (txs : List Transaction) : Comp TransactionIndexer Unit :=
  Comp.forEach store txs

variable [Sha256]

/-- The last transaction of a list with the hash. -/
def lastWith (txhash : Bytes) (txs : List Transaction) : Option Transaction :=
  txs.reverse.find? (fun tx => tx.hash.toOption = some txhash)

theorem store_run {tx : Transaction} {d : Bytes} (h : tx.hash = .ok d) (ix : TransactionIndexer) :
    store tx ix = (.ok (), { map := Function.update ix.map d (some tx) }) := by
  show (Comp.lift tx.hash >>= _) ix = _
  rw [h]
  rfl

theorem lastWith_cons {tx : Transaction} {d : Bytes} (h : tx.hash = .ok d) (txhash : Bytes)
    (txs : List Transaction) :
    lastWith txhash (tx :: txs)
      = (lastWith txhash txs).or (if d = txhash then some tx else none) := by
  have hd : (tx.hash.toOption = some txhash) ↔ d = txhash := by
    rw [h]
    exact Option.some_inj
  rw [lastWith, lastWith, List.reverse_cons, List.find?_append]
  by_cases hk : d = txhash
  · rw [if_pos hk, List.find?_singleton, if_pos (decide_eq_true (hd.mpr hk))]
  · rw [if_neg hk, List.find?_singleton, if_neg (by simpa [hd] using hk)]

theorem mem_of_lastWith {txs : List Transaction} {d : Bytes} {l : Transaction}
    (h : lastWith d txs = some l) : l ∈ txs :=
  List.mem_reverse.mp (List.mem_of_find?_eq_some h)

/-- A hash that occurs in the list is that of the last transaction with it. -/
theorem lastWith_of_mem {txs : List Transaction} {tx : Transaction} {d : Bytes} (hmem : tx ∈ txs)
    (h : tx.hash = .ok d) : ∃ tx', lastWith d txs = some tx' ∧ tx'.hash = .ok d := by
  cases hlast : lastWith d txs with
  | none =>
      have hnot := List.find?_eq_none.mp hlast tx (List.mem_reverse.mpr hmem)
      rw [h] at hnot
      exact absurd (decide_eq_true rfl) hnot
  | some tx' =>
      refine ⟨tx', rfl, ?_⟩
      have hfound : tx'.hash.toOption = some d := by
        rw [lastWith] at hlast
        simpa using List.find?_some hlast
      cases hhash : tx'.hash with
      | error e =>
          rw [hhash] at hfound
          cases hfound
      | ok d' =>
          rw [hhash] at hfound
          cases hfound
          rfl

/-- **What the index holds after a batch**: for every hash the last transaction of
the batch with it, and what it held before for the hashes of none. -/
theorem storeAll_run {txs : List Transaction} (h : ∀ tx ∈ txs, ∃ d, tx.hash = .ok d) :
    ∀ ix : TransactionIndexer, ∃ ix', storeAll txs ix = (.ok (), ix')
      ∧ ∀ txhash, ix'.query txhash = (lastWith txhash txs).or (ix.query txhash) := by
  induction txs with
  | nil => exact fun ix => ⟨ix, rfl, fun _ => rfl⟩
  | cons tx txs ih =>
      intro ix
      obtain ⟨d, hd⟩ := h tx List.mem_cons_self
      obtain ⟨ix', hrun, hquery⟩ :=
        ih (fun t ht => h t (List.mem_cons_of_mem _ ht)) { map := Function.update ix.map d (some tx) }
      refine ⟨ix', ?_, ?_⟩
      · show (store tx >>= fun _ => storeAll txs) ix = _
        rw [Comp.bind_of_ok (store_run hd ix), hrun]
      · intro txhash
        rw [hquery txhash, lastWith_cons hd, Option.or_assoc]
        congr 1
        by_cases hk : d = txhash
        · rw [if_pos hk, ← hk]
          exact Function.update_self d (some tx) ix.map
        · rw [if_neg hk]
          exact Function.update_of_ne (Ne.symm hk) (some tx) ix.map

end TransactionIndexer

/-! ## §6. What a hash binds. -/

namespace Transaction

/-- The message that is hashed: the three fields, one behind the other. -/
def hashedText (tx : Transaction) : Option String :=
  match tx.sender, tx.to_, tx.data with
  | .str s, .str t, .str d => some (s ++ t ++ d)
  | _, _, _ => none

/-- The same sender, recipient and data. -/
structure SameFields (tx tx' : Transaction) : Prop where
  sender : tx.sender = tx'.sender
  to_ : tx.to_ = tx'.to_
  data : tx.data = tx'.data

theorem hashedText_of_hashable {tx : Transaction} (h : tx.Hashable) :
    ∃ x, tx.hashedText = some x := by
  obtain ⟨⟨s, hs⟩, ⟨t, ht⟩, ⟨d, hd⟩⟩ := h
  exact ⟨s ++ t ++ d, by rw [hashedText, hs, ht, hd]⟩

variable [Sha256]

/-- The hash is the digest of the message. -/
theorem hash_of_hashedText {tx : Transaction} {x : String} (h : tx.hashedText = some x) :
    tx.hash = .ok (Sha256.digest (encodeUtf8 x)) := by
  unfold hashedText at h
  split at h
  next s t d hs ht hd =>
      cases h
      unfold hash
      rw [hs, ht, hd, encodeUtf8_append, encodeUtf8_append]
      rfl
  next => cases h

/-- **The hash tells the messages apart**, under a hash function without collisions. -/
theorem hash_toOption_eq_iff (hinj : Function.Injective Sha256.digest) {tx : Transaction}
    {x : String} : tx.hash.toOption = some (Sha256.digest (encodeUtf8 x))
      ↔ tx.hashedText = some x := by
  constructor
  · intro h
    cases hh : tx.hash with
    | error e =>
        rw [hh] at h
        cases h
    | ok d =>
        obtain ⟨y, hy⟩ := hashedText_of_hashable (hash_eq_ok hh)
        rw [hash_of_hashedText hy] at h
        rw [hy, encodeUtf8_injective (hinj (Option.some.inj h))]
  · intro h
    rw [hash_of_hashedText h]
    rfl

end Transaction

namespace TransactionIndexer

variable [Sha256]

/-- Any calls of `store` on an empty index, the raising ones among them. -/
def storeEach (txs : List Transaction) : TransactionIndexer :=
  txs.foldl (fun ix tx => (store tx ix).2) {}

theorem store_raises {tx : Transaction} {e : Exn} (h : tx.hash = .error e)
    (ix : TransactionIndexer) : store tx ix = (.error e, ix) := by
  unfold store
  rw [h, Comp.lift_error_bind_run]

/-- **The index answers with the last stored transaction of a hash.** -/
theorem query_storeEach (txs : List Transaction) (txhash : Bytes) :
    (storeEach txs).query txhash = lastWith txhash txs := by
  induction txs using List.reverseRecOn with
  | nil => rfl
  | append_singleton txs tx ih =>
      unfold storeEach lastWith at ih ⊢
      rw [List.foldl_append, List.reverse_append, List.reverse_singleton, List.singleton_append,
        List.find?_cons, List.foldl_cons, List.foldl_nil]
      cases hh : tx.hash with
      | error e =>
          -- the call raised and wrote nothing
          rw [store_raises hh]
          exact ih
      | ok d =>
          rw [store_run hh]
          unfold query at ih ⊢
          dsimp only
          by_cases hd : txhash = d
          · rw [hd, Function.update_self]
            simp [Except.toOption]
          · rw [Function.update_of_ne hd, ih]
            simp [Except.toOption, Ne.symm hd]

/-- The last stored transaction with a message. -/
def lastWithText (x : Option String) (txs : List Transaction) : Option Transaction :=
  txs.reverse.find? (fun tx => tx.hashedText = x)

/-- The index answers a stored transaction's hash with its fields. -/
def Binds (txs : List Transaction) (t : Transaction) : Prop :=
  ∃ d u, t.hash = .ok d ∧ (storeEach txs).query d = some u ∧ u.SameFields t

/-- **A hash binds the concatenation of the fields.**  Two transactions with other
fields have other hashes exactly where their concatenations differ; and after
any calls of `store` a stored transaction is found by its hash exactly where the
last one stored with its concatenation has its fields. -/
theorem hash_binds_iff (hinj : Function.Injective Sha256.digest) :
    (∀ a b : Transaction, a.Hashable → b.Hashable →
      ((¬ a.SameFields b → a.hash ≠ b.hash)
        ↔ (a.hashedText = b.hashedText → a.SameFields b)))
      ∧ ∀ (txs : List Transaction) (t : Transaction), t ∈ txs → t.Hashable →
        (Binds txs t ↔ ∃ u, lastWithText t.hashedText txs = some u ∧ u.SameFields t) := by
  constructor
  · intro a b ha hb
    obtain ⟨x, hx⟩ := Transaction.hashedText_of_hashable ha
    obtain ⟨y, hy⟩ := Transaction.hashedText_of_hashable hb
    have hsame : a.hash = b.hash ↔ a.hashedText = b.hashedText := by
      rw [Transaction.hash_of_hashedText hx, Transaction.hash_of_hashedText hy, hx, hy]
      constructor
      · intro h
        rw [encodeUtf8_injective (hinj (Except.ok.inj h))]
      · intro h
        rw [Option.some.inj h]
    rw [← hsame]
    exact not_imp_not
  · intro txs t _ ht
    obtain ⟨x, hx⟩ := Transaction.hashedText_of_hashable ht
    have hlast : lastWith (Sha256.digest (encodeUtf8 x)) txs = lastWithText (some x) txs := by
      unfold lastWith lastWithText
      simp only [Transaction.hash_toOption_eq_iff hinj]
    unfold Binds
    rw [hx]
    constructor
    · rintro ⟨d, u, hd, hu, hsame⟩
      rw [Transaction.hash_of_hashedText hx] at hd
      cases hd
      rw [query_storeEach, hlast] at hu
      exact ⟨u, hu, hsame⟩
    · rintro ⟨u, hu, hsame⟩
      refine ⟨_, u, Transaction.hash_of_hashedText hx, ?_, hsame⟩
      rw [query_storeEach, hlast, hu]

omit [Sha256]

/-- Two transactions with one concatenation, and one with another. -/
def splitLate : Transaction := { sender := .str "ab", to_ := .str "c" }
def splitEarly : Transaction := { sender := .str "a", to_ := .str "bc" }
def other : Transaction := { sender := .str "b", to_ := .str "c" }

theorem hash_binds_iff_sample :
    (¬ splitLate.SameFields other → @Transaction.hash Sha256.whole splitLate
        ≠ @Transaction.hash Sha256.whole other)
      ∧ @Binds Sha256.whole [splitLate, other] splitLate := by
  have hlate : splitLate.Hashable := ⟨⟨_, rfl⟩, ⟨_, rfl⟩, ⟨_, rfl⟩⟩
  have hother : other.Hashable := ⟨⟨_, rfl⟩, ⟨_, rfl⟩, ⟨_, rfl⟩⟩
  have htexts : splitLate.hashedText ≠ other.hashedText := by decide
  have h := @hash_binds_iff Sha256.whole Function.injective_id
  exact ⟨(h.1 splitLate other hlate hother).mpr (fun heq => absurd heq htexts),
    (h.2 [splitLate, other] splitLate List.mem_cons_self hlate).mpr
      ⟨splitLate, rfl, ⟨rfl, rfl, rfl⟩⟩⟩

/-- The second of two transactions with one concatenation hides the first. -/
theorem splitEarly_hides_splitLate :
    Function.Injective Sha256.whole.digest ∧ ¬ splitLate.SameFields splitEarly
      ∧ @Transaction.hash Sha256.whole splitLate = @Transaction.hash Sha256.whole splitEarly
      ∧ ¬ @Binds Sha256.whole [splitLate, splitEarly] splitLate := by
  have hne : ¬ splitLate.SameFields splitEarly := by
    intro h
    have hsender := Json.str.inj h.sender
    revert hsender
    decide
  refine ⟨Function.injective_id, hne, rfl, ?_⟩
  rintro ⟨d, u, hd, hu, hsame⟩
  rw [@query_storeEach Sha256.whole] at hu
  cases hd
  cases hu
  exact hne ⟨hsame.sender.symm, hsame.to_.symm, hsame.data.symm⟩

end TransactionIndexer

end TorSim
