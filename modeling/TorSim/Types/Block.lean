/-
  TorSim.Types.Block — blocks, their encoding, and the chain's block storage.

  A block crosses process borders as a string: the chain stores what
  `Block.from_str` makes of its own `as_str`, and a relayer fetches the same
  string again.  The encoder adds derived entries (the block hash, and in every
  transaction the hash and the receipt hash); the decoder drops them and the
  next encoder recomputes them from the rest.

  Main results:
    * `mapE_eq_ok` — a list comprehension succeeds element by element.
    * `fromStr_asStr` — whatever `as_str` returns, `from_str` reads back as the
      block itself.
    * `asStr_of_encodable` — when `as_str` succeeds.
    * `block_round_trip` — **the block round trip**, with the hash entry of the
      document, the recomputed header and the second encoding.
    * `appendAll_numbered` — after any calls of `append`, the block at position
      `i` has height `i`.
    * `lookup_iff_nonneg` — **the lookup is guarded above only**: it answers as
      its type says exactly for heights from `0` up.
-/
import TorSim.Types.Transaction
import Mathlib.Data.List.Forall2

namespace TorSim

open TorSim.Lib

/-! ## §1. List comprehensions that may raise. -/

/-- `[f(x) for x in xs]`. -/
def mapE {α β : Type} (f : α → Except Exn β) : List α → Except Exn (List β)
  | [] => .ok []
  | x :: xs => do
      let y ← f x
      let ys ← mapE f xs
      return y :: ys

/-- A comprehension succeeds element by element. -/
theorem mapE_eq_ok {α β : Type} {f : α → Except Exn β} {xs : List α} :
    ∀ {ys : List β}, mapE f xs = .ok ys → List.Forall₂ (fun x y => f x = .ok y) xs ys := by
  induction xs with
  | nil =>
      intro ys h
      cases h
      exact .nil
  | cons x xs ih =>
      intro ys h
      obtain ⟨y, hy, h⟩ := except_bind_ok h
      obtain ⟨ys', hys, h⟩ := except_bind_ok h
      cases h
      exact .cons hy (ih hys)

theorem mapE_of_forall₂ {α β : Type} {f : α → Except Exn β} {xs : List α} {ys : List β}
    (h : List.Forall₂ (fun x y => f x = .ok y) xs ys) : mapE f xs = .ok ys := by
  induction h with
  | nil => rfl
  | cons hxy _ ih =>
      rw [mapE, hxy, ih]
      rfl

/-- In two related lists every element of one has its partner in the other. -/
theorem forall₂_mem_right {α β : Type} {R : α → β → Prop} {xs : List α} {ys : List β}
    (h : List.Forall₂ R xs ys) {y : β} (hy : y ∈ ys) : ∃ x ∈ xs, R x y := by
  induction h with
  | nil => cases hy
  | cons hxy _ ih =>
      rcases List.mem_cons.mp hy with rfl | hy
      · exact ⟨_, List.mem_cons_self, hxy⟩
      · obtain ⟨x, hx, hr⟩ := ih hy
        exact ⟨x, List.mem_cons_of_mem _ hx, hr⟩

theorem forall₂_mem_left {α β : Type} {R : α → β → Prop} {xs : List α} {ys : List β}
    (h : List.Forall₂ R xs ys) {x : α} (hx : x ∈ xs) : ∃ y ∈ ys, R x y :=
  forall₂_mem_right (R := fun y x => R x y) h.flip hx

/-- Each result of a comprehension comes from an element. -/
theorem mapE_mem_right {α β : Type} {f : α → Except Exn β} {xs : List α} {ys : List β} {y : β}
    (h : mapE f xs = .ok ys) (hy : y ∈ ys) : ∃ x ∈ xs, f x = .ok y :=
  forall₂_mem_right (mapE_eq_ok h) hy

/-- Each element of a comprehension that succeeds was mapped. -/
theorem mapE_mem {α β : Type} {f : α → Except Exn β} {xs : List α} {x : α} {ys : List β}
    (h : mapE f xs = .ok ys) (hx : x ∈ xs) : ∃ y, f x = .ok y := by
  obtain ⟨y, _, hy⟩ := forall₂_mem_left (mapE_eq_ok h) hx
  exact ⟨y, hy⟩

theorem mapE_of_forall {α β : Type} {f : α → Except Exn β} {xs : List α}
    (h : ∀ x ∈ xs, ∃ y, f x = .ok y) : ∃ ys, mapE f xs = .ok ys := by
  induction xs with
  | nil => exact ⟨[], rfl⟩
  | cons x xs ih =>
      obtain ⟨y, hy⟩ := h x List.mem_cons_self
      obtain ⟨ys, hys⟩ := ih (fun z hz => h z (List.mem_cons_of_mem _ hz))
      exact ⟨y :: ys, by rw [mapE, hy, hys]; rfl⟩

/-- A comprehension over `range(n)`, position by position. -/
theorem mapE_range {β : Type} {f : Nat → Except Exn β} {n : Nat} {ys : List β}
    (h : mapE f (List.range n) = .ok ys) :
    ys.length = n ∧ ∀ i y, ys[i]? = some y → f i = .ok y := by
  obtain ⟨hlen, hget⟩ := List.forall₂_iff_get.mp (mapE_eq_ok h)
  rw [List.length_range] at hlen
  refine ⟨hlen.symm, fun i y hy => ?_⟩
  obtain ⟨hlt, rfl⟩ := List.getElem?_eq_some_iff.mp hy
  have hi := hget i (by rwa [List.length_range, hlen]) hlt
  rwa [List.get_eq_getElem, List.getElem_range] at hi

/-! ## §2. Blocks. -/

structure Block where
  height : Int := 0
  txRoot : Bytes := []
  receiptRoot : Bytes := []
  timestamp : PyFloat := PyFloat.zero
  txs : List Transaction := []

namespace Block

variable [Sha256]

/-- The entries without the block hash. -/
def baseBlock (block : Block) : Except Exn (List (String × Json)) := do
  let txs ← mapE Transaction.asJson block.txs
  return [
    ("height", .int block.height),
    ("tx_root", .str (hex block.txRoot)),
    ("receipt_root", .str (hex block.receiptRoot)),
    ("timestamp", .float block.timestamp),
    ("txs", .arr txs)]

/-- `json.dumps(base_block).encode()`. -/
def toBytes (block : Block) : Except Exn Bytes := do
  let base ← block.baseBlock
  return encodeUtf8 (Json.dumps (.obj base))

def hash (block : Block) : Except Exn Bytes := do
  let message ← block.toBytes
  return Sha256.digest message

/-- The header a relayer forwards. -/
def header (block : Block) : Except Exn Json := do
  let h ← block.hash
  return .obj [
    ("height", .int block.height),
    ("hash", .str (hex h)),
    ("txroot", .str (hex block.txRoot)),
    ("receiptroot", .str (hex block.receiptRoot)),
    ("timestamp", .float block.timestamp)]

/-- The base entries updated with the hash. -/
def asJson (block : Block) : Except Exn Json := do
  let base ← block.baseBlock
  let h ← block.hash
  return .obj (dictUpdate base [("hash", .str (hex h))])

def asStr (block : Block) : Except Exn String := do
  let j ← block.asJson
  return Json.dumps j

/-- The list of transaction documents. -/
def txsOf : Json → Except Exn (List Transaction)
  | .arr xs => mapE (fun x => Transaction.fromJson x) xs
  | v => .error ⟨.type, "'" ++ v.typeName ++ "' object is not iterable"⟩

/-- The height entry.  Only `as_json` writes block documents: an integer height
and a float timestamp.  Any other value is refused here. -/
def heightOf : Json → Except Exn Int
  | .int i => .ok i
  | v => .error ⟨.type, "height must be int, not " ++ v.typeName⟩

def timestampOf : Json → Except Exn PyFloat
  | .float x => .ok x
  | v => .error ⟨.type, "timestamp must be float, not " ++ v.typeName⟩

/-- `Block.from_json(bj)`, each entry with its default. -/
def fromJson (bj : Json) : Except Exn Block := do
  let height ← heightOf (← bj.get "height" (.int 0))
  let txRoot ← Json.fromhexArg (← bj.get "tx_root" (.str "00"))
  let receiptRoot ← Json.fromhexArg (← bj.get "receipt_root" (.str "00"))
  let timestamp ← timestampOf (← bj.get "timestamp" (.float PyFloat.zero))
  let txs ← txsOf (← bj.get "txs" (.arr []))
  return {
    height := height
    txRoot := txRoot
    receiptRoot := receiptRoot
    timestamp := timestamp
    txs := txs }

def fromStr (data : String) : Except Exn Block := do
  let j ← Json.loads data
  fromJson j

/-! ## §3. When the encoders succeed. -/

/-- The entries of a block document, given its transaction documents and hash. -/
def entries (block : Block) (txs : List Json) (h : String) : List (String × Json) := [
  ("height", .int block.height), ("tx_root", .str (hex block.txRoot)),
  ("receipt_root", .str (hex block.receiptRoot)), ("timestamp", .float block.timestamp),
  ("txs", .arr txs), ("hash", .str h)]

/-- Every transaction is encodable and carries a well-formed memo. -/
def Encodable (block : Block) : Prop := ∀ tx ∈ block.txs, tx.Encodable ∧ tx.memo.wf = true

/-- **When `as_json` succeeds**, the result is the dictionary of the fields, the
transaction documents and the hash. -/
theorem asJson_eq_ok {block : Block} {j : Json} (h : block.asJson = .ok j) :
    ∃ txs d, mapE Transaction.asJson block.txs = .ok txs ∧ block.hash = .ok d
      ∧ j = .obj (block.entries txs (hex d)) := by
  obtain ⟨base, hbase, h⟩ := except_bind_ok h
  obtain ⟨d, hd, h⟩ := except_bind_ok h
  obtain ⟨txs, htxs, hbase⟩ := except_bind_ok hbase
  cases hbase
  cases h
  exact ⟨txs, d, htxs, hd, by simp [entries, dictUpdate, dictSet]⟩

theorem hash_of_txs {block : Block} {txs : List Json}
    (h : mapE Transaction.asJson block.txs = .ok txs) : ∃ d, block.hash = .ok d := by
  have hbase : ∃ base, block.baseBlock = .ok base := ⟨_, by rw [baseBlock, h]; rfl⟩
  obtain ⟨base, hbase⟩ := hbase
  exact ⟨_, by rw [hash, toBytes, hbase]; rfl⟩

theorem asJson_of_txs {block : Block} {txs : List Json}
    (h : mapE Transaction.asJson block.txs = .ok txs) :
    ∃ d, block.hash = .ok d ∧ block.asJson = .ok (.obj (block.entries txs (hex d))) := by
  obtain ⟨d, hd⟩ := hash_of_txs h
  refine ⟨d, hd, ?_⟩
  rw [asJson, hd, baseBlock, h]
  simp [bind, Except.bind, pure, Except.pure, entries, dictUpdate, dictSet]

theorem asStr_of_encodable {block : Block} (h : block.Encodable) :
    ∃ s, block.asStr = .ok s := by
  obtain ⟨txs, htxs⟩ := mapE_of_forall (f := Transaction.asJson)
    (fun tx htx => by
      obtain ⟨d, r, _, _, hj⟩ := Transaction.asJson_of_encodable (h tx htx).1
      exact ⟨_, hj⟩)
  obtain ⟨d, _, hj⟩ := asJson_of_txs htxs
  exact ⟨_, by rw [asStr, hj]; rfl⟩

/-! ## §4. The round trip. -/

/-- A transaction document of a block is well formed. -/
theorem wf_of_txDocs {txs : List Transaction} {docs : List Json}
    (h : List.Forall₂ (fun x y => Transaction.asJson x = .ok y) txs docs)
    (hm : ∀ tx ∈ txs, tx.memo.wf = true) : ∀ d ∈ docs, d.wf = true := by
  induction h with
  | nil => intro d hd; cases hd
  | cons hxy _ ih =>
      intro d hd
      rcases List.mem_cons.mp hd with rfl | hd
      · obtain ⟨henc, x, r, _, _, rfl⟩ := Transaction.asJson_eq_ok hxy
        exact Transaction.wf_entries henc (hm _ List.mem_cons_self) _ _
      · exact ih (fun tx htx => hm tx (List.mem_cons_of_mem _ htx)) d hd

omit [Sha256] in
theorem wf_entries (block : Block) {txs : List Json} (h : ∀ d ∈ txs, d.wf = true) (s : String) :
    (Json.obj (block.entries txs s)).wf = true := by
  rw [Json.wf_obj_iff, entries]
  refine ⟨by simp, ?_⟩
  simp [Json.wf, (Json.wfList_iff txs).mpr h]

/-- Decoding the transaction documents gives the transactions. -/
theorem fromJson_txDocs {txs : List Transaction} {docs : List Json}
    (h : List.Forall₂ (fun x y => Transaction.asJson x = .ok y) txs docs) :
    mapE (fun x => Transaction.fromJson x) docs = .ok txs := by
  refine mapE_of_forall₂ ?_
  induction h with
  | nil => exact .nil
  | cons hxy _ ih => exact .cons (Transaction.fromJson_asJson hxy) ih

/-- Reading the entries back. -/
theorem fromJson_entries {block : Block} {txs : List Json} (s : String)
    (h : mapE Transaction.asJson block.txs = .ok txs) :
    fromJson (.obj (block.entries txs s)) = .ok block := by
  have htxs : txsOf (.arr txs) = .ok block.txs := fromJson_txDocs (mapE_eq_ok h)
  simp only [fromJson, entries, Json.get, List.lookup_cons, List.lookup_nil, Option.getD]
  simp [heightOf, Json.fromhexArg, timestampOf, htxs, bind, Except.bind, pure, Except.pure]

/-- **Whatever `as_str` returns, `from_str` reads back as the block.** -/
theorem fromStr_asStr {block : Block} {s : String} (hm : ∀ tx ∈ block.txs, tx.memo.wf = true)
    (h : block.asStr = .ok s) : fromStr s = .ok block := by
  obtain ⟨j, hj, h⟩ := except_bind_ok h
  cases h
  obtain ⟨txs, d, htxs, _, rfl⟩ := asJson_eq_ok hj
  have hwf := wf_entries block (wf_of_txDocs (mapE_eq_ok htxs) hm) (hex d)
  rw [fromStr, Json.loads_dumps hwf]
  exact fromJson_entries (hex d) htxs

/-- A block that encodes is encodable, whatever its memos are. -/
theorem encodable_of_asStr {block : Block} {s : String} (h : block.asStr = .ok s) :
    ∀ tx ∈ block.txs, tx.Encodable := by
  obtain ⟨j, hj, _⟩ := except_bind_ok h
  obtain ⟨_, _, htxs, _, _⟩ := asJson_eq_ok hj
  intro tx htx
  obtain ⟨doc, hdoc⟩ := mapE_mem htxs htx
  exact (Transaction.asJson_eq_ok hdoc).1

/-- A document's own hash entry is the hash of the block it encodes. -/
theorem hash_entry {block : Block} {s : String} (hm : ∀ tx ∈ block.txs, tx.memo.wf = true)
    (h : block.asStr = .ok s) :
    ∃ doc d, Json.loads s = .ok doc ∧ block.hash = .ok d
      ∧ doc.getItem "hash" = .ok (.str (hex d)) := by
  obtain ⟨j, hj, h⟩ := except_bind_ok h
  cases h
  obtain ⟨txs, d, htxs, hd, rfl⟩ := asJson_eq_ok hj
  have hwf := wf_entries block (wf_of_txDocs (mapE_eq_ok htxs) hm) (hex d)
  refine ⟨_, d, Json.loads_dumps hwf, hd, ?_⟩
  simp [Json.getItem, entries, List.lookup_cons]

/-! ## §5. String fields. -/

/-- The fields a block's encoder reads are strings and the heights fit eight bytes. -/
structure StringFields (tx : Transaction) : Prop where
  sender : ∃ s, tx.sender = .str s
  to_ : ∃ s, tx.to_ = .str s
  data : ∃ s, tx.data = .str s
  memo : ∃ s, tx.memo = .str s
  out : ∃ s, tx.out = .str s
  height_nonneg : 0 ≤ tx.height
  height_lt : tx.height < 2 ^ 64

omit [Sha256] in
theorem StringFields.encodable {tx : Transaction} (h : StringFields tx) :
    tx.Encodable ∧ tx.memo.wf = true := by
  obtain ⟨m, hm⟩ := h.memo
  refine ⟨⟨⟨h.sender, h.to_, h.data⟩, h.out, h.height_nonneg, ?_⟩, by rw [hm]; rfl⟩
  exact Int.lt_of_lt_of_le h.height_lt (by decide)

/-- **The block round trip.**  A block of transactions with string fields
encodes; the decoder returns the block with every field of every transaction;
the recomputed hash, the hash entry of the document and the header are the
original's; and the second encoding is the same string. -/
theorem block_round_trip (block : Block) (h : ∀ tx ∈ block.txs, StringFields tx) :
    ∃ s decoded d, block.asStr = .ok s ∧ fromStr s = .ok decoded
      ∧ decoded.height = block.height ∧ decoded.txRoot = block.txRoot
      ∧ decoded.receiptRoot = block.receiptRoot ∧ decoded.timestamp = block.timestamp
      ∧ decoded.txs = block.txs
      ∧ block.hash = .ok d ∧ decoded.hash = .ok d
      ∧ (∃ doc, Json.loads s = .ok doc ∧ doc.getItem "hash" = .ok (.str (hex d)))
      ∧ decoded.header = block.header ∧ decoded.asStr = .ok s := by
  have hm : ∀ tx ∈ block.txs, tx.memo.wf = true := fun tx htx => (h tx htx).encodable.2
  obtain ⟨s, hs⟩ := asStr_of_encodable (fun tx htx => (h tx htx).encodable)
  obtain ⟨doc, d, hdoc, hd, hentry⟩ := hash_entry hm hs
  exact ⟨s, block, d, hs, fromStr_asStr hm hs, rfl, rfl, rfl, rfl, rfl, hd, hd,
    ⟨doc, hdoc, hentry⟩, rfl, hs⟩

/-- A block with one committed transaction. -/
def sample : Block where
  height := 3
  txRoot := [1, 255]
  receiptRoot := [2]
  txs := [{ sender := .str "alice", to_ := .str "base", data := .str "payload",
            memo := .str "memo \"1\"", height := 3, status := .success, out := .str "done" }]

omit [Sha256] in
theorem block_round_trip_sample :
    ∃ s decoded d, @asStr Sha256.plain sample = .ok s ∧ fromStr s = .ok decoded
      ∧ decoded.height = sample.height ∧ decoded.txRoot = sample.txRoot
      ∧ decoded.receiptRoot = sample.receiptRoot ∧ decoded.timestamp = sample.timestamp
      ∧ decoded.txs = sample.txs
      ∧ @hash Sha256.plain sample = .ok d ∧ @hash Sha256.plain decoded = .ok d
      ∧ (∃ doc, Json.loads s = .ok doc ∧ doc.getItem "hash" = .ok (.str (hex d)))
      ∧ @header Sha256.plain decoded = @header Sha256.plain sample
      ∧ @asStr Sha256.plain decoded = .ok s :=
  @block_round_trip Sha256.plain sample (by
    intro tx htx
    rw [List.mem_singleton.mp htx]
    exact ⟨⟨_, rfl⟩, ⟨_, rfl⟩, ⟨_, rfl⟩, ⟨_, rfl⟩, ⟨_, rfl⟩, by decide, by decide⟩)

end Block

/-! ## §6. Block storage. -/

structure BlockStorage where
  blocks : List Block := []

namespace BlockStorage

/-- `len(self.blocks) - 1`. -/
def blockNum (st : BlockStorage) : Int := (st.blocks.length : Int) - 1

/-- `self.blocks[height]` counts from the end for a negative index. -/
def getBlockByHeight (st : BlockStorage) (height : Int) : Except Exn (Option Block) :=
  if st.blockNum < height then .ok none
  else
    let i := if height < 0 then height + st.blocks.length else height
    if i < 0 then .error ⟨.index, "list index out of range"⟩
    else match st.blocks[i.toNat]? with
      | some b => .ok (some b)
      | none => .error ⟨.index, "list index out of range"⟩

variable [Sha256]

/-- A block is appended when it decodes and its height is the next one. -/
def append (st : BlockStorage) (data : String) : Except Exn BlockStorage := do
  let newBlock ← Block.fromStr data
  assertE (decide (newBlock.height = st.blockNum + 1)) ""
  return { blocks := st.blocks ++ [newBlock] }

omit [Sha256] in
/-- **What an accepted append did**: the decoded block is the last one and has
the next height. -/
theorem append_eq_ok {st st' : BlockStorage} {data : String} (h : st.append data = .ok st') :
    ∃ b, Block.fromStr data = .ok b ∧ b.height = st.blockNum + 1
      ∧ st'.blocks = st.blocks ++ [b] := by
  obtain ⟨b, hb, h⟩ := except_bind_ok h
  obtain ⟨_, ha, h⟩ := except_bind_ok h
  cases h
  refine ⟨b, hb, ?_, rfl⟩
  by_contra hne
  rw [decide_eq_false hne] at ha
  cases ha

omit [Sha256] in
/-- A height within the chain is answered by the block at that position. -/
theorem getBlockByHeight_of_lt {st : BlockStorage} {n : Nat} {b : Block}
    (h : st.blocks[n]? = some b) : st.getBlockByHeight n = .ok (some b) := by
  have hlt : n < st.blocks.length := by
    by_contra hge
    rw [List.getElem?_eq_none (by omega)] at h
    cases h
  rw [getBlockByHeight, if_neg (by unfold blockNum; omega)]
  simp only [show ¬ (n : Int) < 0 by omega, if_false, Int.toNat_natCast, h]

omit [Sha256] in
/-- Where the answer for a height from `0` up comes from. -/
theorem getBlockByHeight_eq_some {st : BlockStorage} {k : Int} {b : Block}
    (hk : 0 ≤ k) (h : st.getBlockByHeight k = .ok (some b)) : st.blocks[k.toNat]? = some b := by
  unfold BlockStorage.getBlockByHeight at h
  split at h
  next => cases h
  next =>
      dsimp only at h
      rw [if_neg (Int.not_lt.mpr hk), if_neg (Int.not_lt.mpr hk)] at h
      split at h
      next b' hb =>
          cases h
          exact hb
      next => cases h

/-! ## §7. Runs of the storage. -/

omit [Sha256]

/-- The call `append(_block_data)`: what it leaves behind, also when it raises. -/
def appendCall (data : String) : Comp BlockStorage Unit := do
  let st ← Comp.gets id
  let newBlock ← Comp.lift (Block.fromStr data)
  Comp.lift (assertE (decide (newBlock.height = st.blockNum + 1)) "")
  Comp.update (fun st => { blocks := st.blocks ++ [newBlock] })

/-- Any calls of `append` from the empty storage, the refused ones among them. -/
def appendAll (calls : List String) : BlockStorage :=
  calls.foldl (fun st data => (appendCall data st).2) {}

/-- The call returns where `append` does, with its storage. -/
theorem appendCall_eq (data : String) (st : BlockStorage) :
    appendCall data st = match st.append data with
      | .ok st' => (.ok (), st')
      | .error e => (.error e, st) := by
  unfold appendCall append
  simp only [Comp.gets_bind_run, id]
  cases Block.fromStr data with
  | error e => rfl
  | ok b =>
      simp only [bind, Except.bind, Comp.andThen, Comp.lift]
      cases assertE (decide (b.height = st.blockNum + 1)) "" with
      | error e => rfl
      | ok u => rfl

/-- **A rejected append leaves the storage unchanged.** -/
theorem appendCall_error {data : String} {st st' : BlockStorage} {e : Exn}
    (h : appendCall data st = (.error e, st')) : st' = st := by
  rw [appendCall_eq] at h
  cases ha : st.append data with
  | ok st1 =>
      rw [ha] at h
      cases (Prod.mk.inj h).1
  | error e1 =>
      rw [ha] at h
      exact (Prod.mk.inj h).2.symm

/-- The block at position `i` has height `i`. -/
def Numbered (st : BlockStorage) : Prop :=
  ∀ (i : Nat) (b : Block), st.blocks[i]? = some b → b.height = i

theorem numbered_nil : (BlockStorage.mk []).Numbered := by
  intro i b hb
  cases hb

/-- A block of the next height behind the others. -/
theorem Numbered.append {st : BlockStorage} (h : st.Numbered) {b : Block}
    (hb : b.height = st.blocks.length) : Numbered { blocks := st.blocks ++ [b] } := by
  intro i b' hb'
  -- the new block stands behind the old ones, and its height is their number
  by_cases hi : i < st.blocks.length
  · rw [List.getElem?_append_left hi] at hb'
    exact h i b' hb'
  · rw [List.getElem?_append_right (Nat.le_of_not_lt hi)] at hb'
    obtain ⟨hlt, hb'⟩ := List.getElem?_eq_some_iff.mp hb'
    rw [List.length_singleton] at hlt
    have hlast : b = b' := by simpa [show i - st.blocks.length = 0 by omega] using hb'
    rw [← hlast, hb]
    omega

theorem appendCall_numbered (data : String) :
    Comp.Preserves Numbered (appendCall data) := by
  intro st hst
  rw [appendCall_eq]
  cases ha : st.append data with
  | error e => exact hst
  | ok st' =>
      obtain ⟨b, _, hheight, hblocks⟩ := append_eq_ok ha
      show st'.Numbered
      have hnext : b.height = st.blocks.length := by
        rw [hheight]
        unfold blockNum
        omega
      have hall := Numbered.append hst hnext
      rw [← hblocks] at hall
      exact hall

theorem appendAll_numbered (calls : List String) : (appendAll calls).Numbered := by
  unfold appendAll
  have hrun : ∀ (calls : List String) (st : BlockStorage), st.Numbered →
      (calls.foldl (fun st data => (appendCall data st).2) st).Numbered := by
    intro calls
    induction calls with
    | nil => exact fun _ h => h
    | cons data calls ih => exact fun st h => ih _ (appendCall_numbered data st h)
  exact hrun calls _ numbered_nil

/-- What the lookup is to answer: within the chain the one block of the height,
outside of it nothing, and never an exception. -/
structure Answers (st : BlockStorage) (height : Int) : Prop where
  inside : 0 ≤ height → height ≤ st.blockNum → ∃ b ∈ st.blocks,
    st.getBlockByHeight height = .ok (some b) ∧ b.height = height
      ∧ ∀ b' ∈ st.blocks, b'.height = height → b' = b
  outside : ¬ (0 ≤ height ∧ height ≤ st.blockNum) → st.getBlockByHeight height = .ok none

/-- A height from `0` up is answered well in a numbered storage. -/
theorem answers_of_nonneg {st : BlockStorage} (hst : st.Numbered) {height : Int}
    (h0 : 0 ≤ height) : st.Answers height := by
  constructor
  · intro _ hle
    unfold blockNum at hle
    have hlt : height.toNat < st.blocks.length := by omega
    have hget : st.blocks[height.toNat]? = some st.blocks[height.toNat] :=
      List.getElem?_eq_getElem hlt
    have hcast : ((height.toNat : Nat) : Int) = height := Int.toNat_of_nonneg h0
    refine ⟨st.blocks[height.toNat], List.getElem_mem hlt, ?_, ?_, ?_⟩
    · have hlookup := getBlockByHeight_of_lt hget
      rwa [hcast] at hlookup
    · rw [hst _ _ hget, hcast]
    · intro b' hb' hheight
      obtain ⟨i, hi⟩ := List.getElem?_of_mem hb'
      have hpos : i = height.toNat := by
        have := hst i b' hi
        omega
      rw [hpos, hget] at hi
      exact (Option.some.inj hi).symm
  · intro hout
    unfold getBlockByHeight
    rw [if_pos]
    by_contra hle
    exact hout ⟨h0, Int.not_lt.mp hle⟩

/-- A negative height is counted from the end or out of range, never refused. -/
theorem getBlockByHeight_neg {st : BlockStorage} {height : Int} (h : height < 0) :
    st.getBlockByHeight height ≠ .ok none := by
  unfold getBlockByHeight
  split
  next hlt =>
      -- above the chain although negative: there is no such height
      unfold blockNum at hlt
      omega
  next =>
      dsimp only
      split
      next => exact fun hc => by cases hc
      next =>
          split
          next => exact fun hc => by cases hc
          next => exact fun hc => by cases hc

/-- **The lookup is guarded above only.**  Whatever was appended or refused, a
height is answered as it should be exactly from `0` up; and a refused block
leaves the storage as it was. -/
theorem lookup_iff_nonneg (calls : List String) :
    (∀ height, (appendAll calls).Answers height ↔ 0 ≤ height)
      ∧ ∀ data e st', appendCall data (appendAll calls) = (.error e, st') →
          st' = appendAll calls := by
  refine ⟨fun height => ⟨?_, fun h0 => answers_of_nonneg (appendAll_numbered calls) h0⟩,
    fun data e st' h => appendCall_error h⟩
  intro h
  by_contra hneg
  have hneg : height < 0 := Int.not_le.mp hneg
  exact getBlockByHeight_neg hneg (h.outside (by omega))

/-- The block of height `0` is handed out for the height `-1`. -/
theorem lookup_minus_one :
    ∃ data, @Block.asStr Sha256.plain {} = .ok data
      ∧ (appendAll [data]).blockNum = 0
      ∧ (appendAll [data]).getBlockByHeight (-1) = .ok (some {})
      ∧ ¬ (appendAll [data]).Answers (-1) := by
  have hnone : ∀ tx ∈ ({} : Block).txs, tx.memo.wf = true := by
    intro tx htx
    cases htx
  obtain ⟨data, hdata⟩ := @Block.asStr_of_encodable Sha256.plain {} (by
    intro tx htx
    cases htx)
  have hdecode := @Block.fromStr_asStr Sha256.plain {} data hnone hdata
  have happend : appendAll [data] = { blocks := [{}] } := by
    show (appendCall data {}).2 = _
    rw [appendCall_eq, append, hdecode]
    rfl
  have hlookup : ({ blocks := [{}] } : BlockStorage).getBlockByHeight (-1) = .ok (some {}) := rfl
  refine ⟨data, hdata, ?_, ?_, ?_⟩
  · rw [happend]
    rfl
  · rw [happend, hlookup]
  · intro h
    have hout := h.outside (by omega)
    rw [happend, hlookup] at hout
    cases hout

end BlockStorage

end TorSim
