/-
  TorSim.Types.BlockCacheLaws — what the cached methods of a block return.

  `as_json` leaves its hash in the dictionary of `__base_block`.  As long as the
  cache of `to_bytes` keeps the bytes that were made before, nobody notices;
  once they are evicted, `to_bytes` encodes the dictionary as it is now.

  Main results:
    * `call_right` — a call that does not encode a dictionary with the hash in
      it returns what the method returns; `toBytes_tampered` — one that does
      returns something else.
    * `answers_right` — **in every program of such calls every answer is
      right, and stays right**.
-/
import TorSim.Lib.System
import TorSim.Types.BlockCaches

namespace TorSim

open TorSim.Lib

namespace BlockCaches

variable {ι : Type}

/-! ## §1. Which entries are right. -/

section Right

/-- The dictionary has a hash entry. -/
def Sealed (d : Dict) : Prop := d.lookup "hash" ≠ none

/-- The dictionaries with a hash entry stay as they are. -/
structure Later (c c' : Caches ι) : Prop where
  length : c.heap.length ≤ c'.heap.length
  read : ∀ r, r < c.heap.length → Sealed (c.read r) → c'.read r = c.read r

theorem Later.refl (c : Caches ι) : Later c c := ⟨Nat.le_refl _, fun _ _ _ => rfl⟩

theorem Later.trans {c₁ c₂ c₃ : Caches ι} (h : Later c₁ c₂) (h' : Later c₂ c₃) : Later c₁ c₃ := by
  refine ⟨Nat.le_trans h.length h'.length, fun r hr hs => ?_⟩
  have h12 := h.read r hr hs
  rw [← h12] at hs
  rw [h'.read r (Nat.lt_of_lt_of_le hr h.length) hs, h12]

theorem read_alloc_lt {c : Caches ι} (d : Dict) {r : Ref} (h : r < c.heap.length) :
    (alloc d c).2.read r = c.read r := by
  show ((c.heap ++ [d])[r]?).getD [] = (c.heap[r]?).getD []
  rw [List.getElem?_append_left h]

theorem read_alloc_self (c : Caches ι) (d : Dict) : (alloc d c).2.read c.heap.length = d := by
  show ((c.heap ++ [d])[c.heap.length]?).getD [] = d
  rw [List.getElem?_concat_length]
  rfl

theorem later_alloc (c : Caches ι) (d : Dict) : Later c (alloc d c).2 := by
  refine ⟨?_, fun r hr _ => read_alloc_lt d hr⟩
  show c.heap.length ≤ (c.heap ++ [d]).length
  rw [List.length_append]
  exact Nat.le_add_right _ _

variable [Sha256] (blocks : ι → Block)

/-- A dictionary of `__base_block`: the base entries, or these with the hash. -/
def BaseDict (block : Block) (d : Dict) : Prop :=
  block.baseBlock = .ok d
    ∨ ∃ entries h, block.baseBlock = .ok entries ∧ block.hash = .ok h
      ∧ d = dictUpdate entries [("hash", .str (hex h))]

/-- **Every entry is what the method returns**; the dictionary in the cache of
`__base_block` may have the hash in it. -/
structure Right (c : Caches ι) : Prop where
  hash : ∀ b h, c.hash = some (b, h) → (blocks b).hash = .ok h
  header : ∀ b r, c.header = some (b, r) →
    r < c.heap.length ∧ (blocks b).header = .ok (.obj (c.read r))
  toBytes : ∀ b m, c.toBytes = some (b, m) → (blocks b).toBytes = .ok m
  base : ∀ b r, c.base = some (b, r) → r < c.heap.length ∧ BaseDict (blocks b) (c.read r)
  asJson : ∀ b r, c.asJson = some (b, r) →
    r < c.heap.length ∧ (blocks b).asJson = .ok (.obj (c.read r))
  asStr : ∀ b s, c.asStr = some (b, s) → (blocks b).asStr = .ok s

variable {blocks}

/-- The base entries have no hash. -/
theorem lookup_baseBlock {block : Block} {d : Dict} (h : block.baseBlock = .ok d) :
    d.lookup "hash" = none := by
  obtain ⟨txs, _, h⟩ := except_bind_ok h
  cases h
  simp [List.lookup_cons, List.lookup_nil]

omit [Sha256] in
theorem sealed_update (d : Dict) (h : String) : Sealed (dictUpdate d [("hash", .str h)]) := by
  rw [Sealed, show dictUpdate d [("hash", Json.str h)] = dictSet "hash" (.str h) d from rfl,
    lookup_dictSet_self]
  exact Option.some_ne_none _

theorem asJson_eq_ok_iff {block : Block} {d : Dict} :
    block.asJson = .ok (.obj d) ↔ ∃ entries h, block.baseBlock = .ok entries
      ∧ block.hash = .ok h ∧ d = dictUpdate entries [("hash", .str (hex h))] := by
  constructor
  · intro h
    obtain ⟨entries, hbase, h⟩ := except_bind_ok h
    obtain ⟨x, hx, h⟩ := except_bind_ok h
    cases h
    exact ⟨entries, x, hbase, hx, rfl⟩
  · rintro ⟨entries, x, hbase, hx, rfl⟩
    rw [Block.asJson, hbase, hx]
    rfl

theorem sealed_asJson {block : Block} {d : Dict} (h : block.asJson = .ok (.obj d)) : Sealed d := by
  obtain ⟨entries, x, _, _, rfl⟩ := asJson_eq_ok_iff.mp h
  exact sealed_update entries (hex x)

theorem sealed_header {block : Block} {d : Dict} (h : block.header = .ok (.obj d)) : Sealed d := by
  obtain ⟨x, _, h⟩ := except_bind_ok h
  cases h
  simp [Sealed, List.lookup_cons]

/-- A base dictionary that keeps no hash is the base entries. -/
theorem BaseDict.of_not_sealed {block : Block} {d : Dict} (h : BaseDict block d)
    (hs : ¬ Sealed d) : block.baseBlock = .ok d := by
  rcases h with h | ⟨entries, x, _, _, rfl⟩
  · exact h
  · exact absurd (sealed_update entries (hex x)) hs

/-- Writing the block's hash into a base dictionary gives the document of the block,
and changes nothing where the hash was there. -/
theorem BaseDict.update {block : Block} {d : Dict} {h : Bytes} (hd : BaseDict block d)
    (hh : block.hash = .ok h) :
    block.asJson = .ok (.obj (dictUpdate d [("hash", .str (hex h))]))
      ∧ (Sealed d → dictUpdate d [("hash", .str (hex h))] = d) := by
  rcases hd with hd | ⟨entries, x, hbase, hx, rfl⟩
  · refine ⟨asJson_eq_ok_iff.mpr ⟨d, h, hd, hh, rfl⟩, fun hs => ?_⟩
    exact absurd (lookup_baseBlock hd) hs
  · cases Except.ok.inj (hh.symm.trans hx)
    have hsame : dictUpdate (dictUpdate entries [("hash", Json.str (hex h))])
        [("hash", .str (hex h))] = dictUpdate entries [("hash", .str (hex h))] :=
      dictSet_dictSet "hash" _ _ entries
    exact ⟨asJson_eq_ok_iff.mpr ⟨entries, h, hbase, hx, hsame⟩, fun _ => hsame⟩

/-- A new dictionary leaves the entries right. -/
theorem Right.alloc {c : Caches ι} (hc : Right blocks c) (d : Dict) :
    Right blocks (alloc d c).2 := by
  have hlt : ∀ r, r < c.heap.length → r < (BlockCaches.alloc d c).2.heap.length :=
    fun r hr => Nat.lt_of_lt_of_le hr (later_alloc c d).length
  refine ⟨hc.hash, ?_, hc.toBytes, ?_, ?_, hc.asStr⟩
  · intro b r h
    obtain ⟨hr, hh⟩ := hc.header b r h
    exact ⟨hlt r hr, by rw [read_alloc_lt d hr, hh]⟩
  · intro b r h
    obtain ⟨hr, hb⟩ := hc.base b r h
    exact ⟨hlt r hr, by rw [read_alloc_lt d hr]; exact hb⟩
  · intro b r h
    obtain ⟨hr, hj⟩ := hc.asJson b r h
    exact ⟨hlt r hr, by rw [read_alloc_lt d hr, hj]⟩

end Right

/-! ## §2. What each method does to the caches. -/

section Calls

variable [DecidableEq ι] [Sha256] {blocks : ι → Block}

omit [DecidableEq ι] [Sha256] in
/-- The cache of `__base_block` holds a dictionary of the block with the hash in it. -/
def Tampered (c : Caches ι) (b : ι) : Prop := ∃ r, c.base = some (b, r) ∧ Sealed (c.read r)

/-- The cache of `__base_block` is on the block: the dictionary, what stayed as it
was, and where a hash in it came from. -/
structure Based (blocks : ι → Block) (c : Caches ι) (b : ι) (r : Ref) (c' : Caches ι) : Prop where
  base : c'.base = some (b, r)
  right : Right blocks c'
  later : Later c c'
  hash : c'.hash = c.hash
  toBytes : c'.toBytes = c.toBytes
  tampered : Tampered c' b → Tampered c b

/-- `__base_block` fails where the base entries do, and changes nothing then. -/
theorem baseBlock_spec {c : Caches ι} (hc : Right blocks c) (b : ι) :
    (∃ e, (blocks b).baseBlock = .error e ∧ baseBlock blocks b c = (.error e, c))
      ∨ ∃ r c', baseBlock blocks b c = (.ok r, c') ∧ Based blocks c b r c'
        ∧ ∃ entries, (blocks b).baseBlock = .ok entries := by
  cases hl : baseSlot.lookup b c with
  | some r =>
      have hentry : c.base = some (b, r) := Slot.lookup_eq_some.mp hl
      refine Or.inr ⟨r, c, Slot.cached_hit hl, ⟨hentry, hc, Later.refl c, rfl, rfl, id⟩, ?_⟩
      obtain ⟨_, hd | ⟨entries, _, hbase, _, _⟩⟩ := hc.base b r hentry
      · exact ⟨_, hd⟩
      · exact ⟨entries, hbase⟩
  | none =>
      have hrun : baseBlock blocks b c = baseSlot.fill b
          (Comp.lift (blocks b).baseBlock >>= fun entries => alloc entries) c := Slot.cached_miss hl
      rw [hrun]
      cases hbase : (blocks b).baseBlock with
      | error e => exact Or.inl ⟨e, rfl, Slot.fill_error rfl⟩
      | ok entries =>
          refine Or.inr ⟨c.heap.length, _, Slot.fill_ok rfl, ?_, entries, rfl⟩
          have hright := hc.alloc entries
          have hread := read_alloc_self c entries
          refine ⟨rfl, ⟨hright.hash, hright.header, hright.toBytes, ?_, hright.asJson,
            hright.asStr⟩, ⟨(later_alloc c entries).length, (later_alloc c entries).read⟩, rfl, rfl, ?_⟩
          · intro b' r' h
            cases h
            refine ⟨?_, Or.inl ?_⟩
            · show c.heap.length < (c.heap ++ [entries]).length
              simp
            · show (blocks b).baseBlock = .ok ((alloc entries c).2.read c.heap.length)
              rw [hread, hbase]
          · rintro ⟨r', h, hs⟩
            cases h
            have hs' : Sealed ((alloc entries c).2.read c.heap.length) := hs
            rw [hread] at hs'
            exact absurd (lookup_baseBlock hbase) hs'

omit [DecidableEq ι] in
/-- Neither the base entries nor these with a hash repeat a key. -/
theorem wf_baseBlock {block : Block} {entries : Dict} (h : block.baseBlock = .ok entries)
    (hm : ∀ tx ∈ block.txs, tx.memo.wf = true) (x : String) :
    (Json.obj entries).wf = true
      ∧ (Json.obj (dictUpdate entries [("hash", .str x)])).wf = true := by
  obtain ⟨txs, htxs, h⟩ := except_bind_ok h
  cases h
  have hdocs := Block.wf_of_txDocs (mapE_eq_ok htxs) hm
  have hbase : (Json.obj [("height", .int block.height), ("tx_root", .str (hex block.txRoot)),
      ("receipt_root", .str (hex block.receiptRoot)), ("timestamp", .float block.timestamp),
      ("txs", .arr txs)]).wf = true := by
    rw [Json.wf_obj_iff]
    refine ⟨by simp, ?_⟩
    simp [Json.wf, (Json.wfList_iff txs).mpr hdocs]
  exact ⟨hbase, Json.wf_dictSet hbase rfl⟩

/-- **`to_bytes` is wrong** where it encodes a dictionary with the hash in it. -/
theorem toBytes_tampered {c : Caches ι} (hc : Right blocks c) {b : ι}
    (hm : ∀ tx ∈ (blocks b).txs, tx.memo.wf = true) (hl : toBytesSlot.lookup b c = none)
    (ht : Tampered c b) : (toBytes blocks b c).1 ≠ (blocks b).toBytes := by
  obtain ⟨r, hbase, hs⟩ := ht
  obtain ⟨_, hd | ⟨entries, x, hentries, _, hread⟩⟩ := hc.base b r hbase
  · exact absurd (lookup_baseBlock hd) hs
  · have hrun : baseBlock blocks b c = (.ok r, c) :=
      Slot.cached_hit (Slot.lookup_eq_some.mpr hbase)
    have hbody : (baseBlock blocks b >>= fun r => Comp.gets (fun c => c.read r) >>= fun base =>
        pure (encodeUtf8 (Json.dumps (.obj base)))) c
        = (.ok (encodeUtf8 (Json.dumps (.obj (c.read r)))), c) := Comp.bind_of_ok hrun
    have hdirect : (blocks b).toBytes = .ok (encodeUtf8 (Json.dumps (.obj entries))) := by
      rw [Block.toBytes, hentries]
      rfl
    rw [toBytes, Slot.cached_miss hl, Slot.fill_ok hbody, hdirect, hread]
    intro heq
    have htext := congrArg Json.loads (encodeUtf8_injective (Except.ok.inj heq))
    obtain ⟨hwf, hwf'⟩ := wf_baseBlock hentries hm (hex x)
    rw [Json.loads_dumps hwf, Json.loads_dumps hwf'] at htext
    have hnone := lookup_baseBlock hentries
    rw [← Json.obj.inj (Except.ok.inj htext)] at hnone
    exact sealed_update entries (hex x) hnone

/-- What `to_bytes` and `hash` leave behind: right entries, and an untouched
dictionary where `__base_block` was on the block. -/
structure Computed (blocks : ι → Block) (c : Caches ι) (b : ι) (c' : Caches ι) : Prop where
  right : Right blocks c'
  later : Later c c'
  base : ∀ r, c.base = some (b, r) → c'.base = some (b, r) ∧ c'.heap = c.heap

omit [DecidableEq ι] in
theorem Computed.refl {c : Caches ι} (hc : Right blocks c) (b : ι) : Computed blocks c b c :=
  ⟨hc, Later.refl c, fun _ h => ⟨h, rfl⟩⟩

theorem Based.computed {c c' : Caches ι} {b : ι} {r : Ref} (h : Based blocks c b r c')
    (hrun : baseBlock blocks b c = (.ok r, c')) : Computed blocks c b c' := by
  refine ⟨h.right, h.later, fun r' hr' => ?_⟩
  have hhit : baseBlock blocks b c = (.ok r', c) := Slot.cached_hit (Slot.lookup_eq_some.mpr hr')
  cases (hrun.symm.trans hhit)
  exact ⟨hr', rfl⟩

/-- **`to_bytes` is right** unless it encodes a dictionary with the hash in it. -/
theorem toBytes_spec {c : Caches ι} (hc : Right blocks c) (b : ι)
    (hok : toBytesSlot.lookup b c = none → ¬ Tampered c b) :
    (toBytes blocks b c).1 = (blocks b).toBytes
      ∧ Computed blocks c b (toBytes blocks b c).2 ∧ (toBytes blocks b c).2.hash = c.hash := by
  cases hl : toBytesSlot.lookup b c with
  | some m =>
      have hm : (blocks b).toBytes = .ok m := hc.toBytes b m (Slot.lookup_eq_some.mp hl)
      rw [toBytes, Slot.cached_hit hl]
      exact ⟨hm.symm, Computed.refl hc b, rfl⟩
  | none =>
      rw [toBytes, Slot.cached_miss hl]
      rcases baseBlock_spec hc b with ⟨e, herr, hrun⟩ | ⟨r, c', hrun, hbased, entries, hentries⟩
      · rw [Slot.fill_error (Comp.bind_of_error hrun)]
        refine ⟨?_, Computed.refl hc b, rfl⟩
        rw [Block.toBytes, herr]
        rfl
      · have hclean : ¬ Sealed (c'.read r) := fun hs =>
          hok hl (hbased.tampered ⟨r, hbased.base, hs⟩)
        have hdict := (hbased.right.base b r hbased.base).2.of_not_sealed hclean
        have hbytes : (blocks b).toBytes = .ok (encodeUtf8 (Json.dumps (.obj (c'.read r)))) := by
          rw [Block.toBytes, hdict]
          rfl
        have hbody : (baseBlock blocks b >>= fun r => Comp.gets (fun c => c.read r) >>= fun base =>
            pure (encodeUtf8 (Json.dumps (.obj base)))) c
            = (.ok (encodeUtf8 (Json.dumps (.obj (c'.read r)))), c') := Comp.bind_of_ok hrun
        rw [Slot.fill_ok hbody]
        have hcomp := hbased.computed hrun
        refine ⟨hbytes.symm, ⟨⟨hcomp.right.hash, hcomp.right.header, ?_, hcomp.right.base,
          hcomp.right.asJson, hcomp.right.asStr⟩, ⟨hcomp.later.length, hcomp.later.read⟩,
          hcomp.base⟩, hbased.hash⟩
        intro b' m h
        cases h
        exact hbytes

/-- **`hash` is right** unless it makes `to_bytes` encode such a dictionary. -/
theorem hash_spec {c : Caches ι} (hc : Right blocks c) (b : ι)
    (hok : hashSlot.lookup b c = none → toBytesSlot.lookup b c = none → ¬ Tampered c b) :
    (hash blocks b c).1 = (blocks b).hash ∧ Computed blocks c b (hash blocks b c).2 := by
  cases hl : hashSlot.lookup b c with
  | some h =>
      have hh : (blocks b).hash = .ok h := hc.hash b h (Slot.lookup_eq_some.mp hl)
      rw [hash, Slot.cached_hit hl]
      exact ⟨hh.symm, Computed.refl hc b⟩
  | none =>
      rw [hash, Slot.cached_miss hl]
      obtain ⟨hvalue, hcomp, _⟩ := toBytes_spec hc b (hok hl)
      rcases hrun : toBytes blocks b c with ⟨e | m, c'⟩
      · rw [hrun] at hvalue hcomp
        rw [Slot.fill_error (Comp.bind_of_error hrun), Block.hash, ← hvalue]
        exact ⟨rfl, hcomp⟩
      · rw [hrun] at hvalue hcomp
        have hbody : (toBytes blocks b >>= fun message => pure (Sha256.digest message)) c
            = (.ok (Sha256.digest m), c') := Comp.bind_of_ok hrun
        have hhash : (blocks b).hash = .ok (Sha256.digest m) := by
          rw [Block.hash, ← hvalue]
          rfl
        rw [Slot.fill_ok hbody, hhash]
        refine ⟨rfl, ⟨?_, hcomp.right.header, hcomp.right.toBytes, hcomp.right.base,
          hcomp.right.asJson, hcomp.right.asStr⟩, ⟨hcomp.later.length, hcomp.later.read⟩, hcomp.base⟩
        intro b' h heq
        cases heq
        exact hhash

/-- **`header` is right** under the same condition. -/
theorem header_spec {c : Caches ι} (hc : Right blocks c) (b : ι)
    (hok : headerSlot.lookup b c = none → hashSlot.lookup b c = none →
      toBytesSlot.lookup b c = none → ¬ Tampered c b) :
    (header blocks b c).1.map (fun r => Json.obj ((header blocks b c).2.read r))
        = (blocks b).header
      ∧ Right blocks (header blocks b c).2 ∧ Later c (header blocks b c).2
      ∧ ∀ r, (header blocks b c).1 = .ok r → r < (header blocks b c).2.heap.length := by
  cases hl : headerSlot.lookup b c with
  | some r =>
      obtain ⟨hr, hh⟩ := hc.header b r (Slot.lookup_eq_some.mp hl)
      rw [header, Slot.cached_hit hl]
      refine ⟨hh.symm, hc, Later.refl c, fun r' h => ?_⟩
      cases h
      exact hr
  | none =>
      rw [header, Slot.cached_miss hl]
      obtain ⟨hvalue, hcomp⟩ := hash_spec hc b (hok hl)
      rcases hrun : hash blocks b c with ⟨e | h, c'⟩
      · rw [hrun] at hvalue hcomp
        rw [Slot.fill_error (Comp.bind_of_error hrun), Block.header, ← hvalue]
        exact ⟨rfl, hcomp.right, hcomp.later, fun r h => nomatch h⟩
      · rw [hrun] at hvalue hcomp
        have hbody : (hash blocks b >>= fun h => alloc (headerEntries (blocks b) h)) c
            = (.ok c'.heap.length, (alloc (headerEntries (blocks b) h) c').2) := Comp.bind_of_ok hrun
        have hheader : (blocks b).header = .ok (.obj (headerEntries (blocks b) h)) := by
          rw [Block.header, ← hvalue]
          rfl
        have hread := read_alloc_self c' (headerEntries (blocks b) h)
        have hright := hcomp.right.alloc (headerEntries (blocks b) h)
        have hlater := hcomp.later.trans (later_alloc c' (headerEntries (blocks b) h))
        have hlt : c'.heap.length < (alloc (headerEntries (blocks b) h) c').2.heap.length := by
          show c'.heap.length < (c'.heap ++ [headerEntries (blocks b) h]).length
          simp
        rw [Slot.fill_ok hbody, hheader]
        refine ⟨?_, ⟨hright.hash, ?_, hright.toBytes, hright.base, hright.asJson, hright.asStr⟩,
          ⟨hlater.length, hlater.read⟩, ?_⟩
        · show Except.ok (Json.obj ((alloc (headerEntries (blocks b) h) c').2.read c'.heap.length)) = _
          rw [hread]
        · intro b' r heq
          cases heq
          refine ⟨hlt, ?_⟩
          show (blocks b).header
            = .ok (.obj ((alloc (headerEntries (blocks b) h) c').2.read c'.heap.length))
          rw [hread, hheader]
        · intro r heq
          cases heq
          exact hlt

omit [DecidableEq ι] in
/-- Writing the hash into the dictionary of `__base_block` makes it the document of
the block and leaves every entry right. -/
theorem writeHash_spec {c : Caches ι} (hc : Right blocks c) {b : ι} {r : Ref} {h : Bytes}
    (hbase : c.base = some (b, r)) (hh : (blocks b).hash = .ok h) :
    Right blocks (writeHash r (hex h) c).2 ∧ Later c (writeHash r (hex h) c).2
      ∧ r < (writeHash r (hex h) c).2.heap.length
      ∧ (blocks b).asJson = .ok (.obj ((writeHash r (hex h) c).2.read r)) := by
  obtain ⟨hr, hdict⟩ := hc.base b r hbase
  obtain ⟨hdoc, hsame⟩ := hdict.update hh
  generalize hc' : (writeHash r (hex h) c).2 = c'
  have hheap : c'.heap = c.heap.set r (dictUpdate (c.read r) [("hash", .str (hex h))]) := by
    rw [← hc']
    rfl
  have hlen : c'.heap.length = c.heap.length := by rw [hheap, List.length_set]
  have hself : c'.read r = dictUpdate (c.read r) [("hash", .str (hex h))] := by
    rw [Caches.read, hheap, List.getElem?_set_self hr]
    rfl
  have hother : ∀ r', r' ≠ r → c'.read r' = c.read r' := by
    intro r' hne
    rw [Caches.read, hheap, List.getElem?_set_ne (Ne.symm hne)]
    rfl
  have hlater : Later c c' := by
    refine ⟨Nat.le_of_eq hlen.symm, fun r' _ hs => ?_⟩
    by_cases heq : r' = r
    · rw [heq] at hs ⊢
      rw [hself, hsame hs]
    · exact hother r' heq
  have hfields : c'.hash = c.hash ∧ c'.header = c.header ∧ c'.toBytes = c.toBytes
      ∧ c'.base = c.base ∧ c'.asJson = c.asJson ∧ c'.asStr = c.asStr := by
    rw [← hc']
    exact ⟨rfl, rfl, rfl, rfl, rfl, rfl⟩
  obtain ⟨h1, h2, h3, h4, h5, h6⟩ := hfields
  refine ⟨⟨h1 ▸ hc.hash, ?_, h3 ▸ hc.toBytes, ?_, ?_, h6 ▸ hc.asStr⟩, hlater, hlen ▸ hr,
    by rw [hself, hdoc]⟩
  · intro b' r' heq
    obtain ⟨hr', hd⟩ := hc.header b' r' (h2 ▸ heq)
    exact ⟨hlen ▸ hr', by rw [hlater.read r' hr' (sealed_header hd), hd]⟩
  · intro b' r' heq
    cases hbase.symm.trans (h4 ▸ heq)
    refine ⟨hlen ▸ hr, ?_⟩
    rw [hself]
    obtain ⟨entries, x, he, hx, hd⟩ := asJson_eq_ok_iff.mp hdoc
    exact Or.inr ⟨entries, x, he, hx, hd⟩
  · intro b' r' heq
    obtain ⟨hr', hd⟩ := hc.asJson b' r' (h5 ▸ heq)
    exact ⟨hlen ▸ hr', by rw [hlater.read r' hr' (sealed_asJson hd), hd]⟩

/-- **`as_json` is right** under the same condition. -/
theorem asJson_spec {c : Caches ι} (hc : Right blocks c) (b : ι)
    (hok : asJsonSlot.lookup b c = none → hashSlot.lookup b c = none →
      toBytesSlot.lookup b c = none → ¬ Tampered c b) :
    (asJson blocks b c).1.map (fun r => Json.obj ((asJson blocks b c).2.read r))
        = (blocks b).asJson
      ∧ Right blocks (asJson blocks b c).2 ∧ Later c (asJson blocks b c).2
      ∧ ∀ r, (asJson blocks b c).1 = .ok r → r < (asJson blocks b c).2.heap.length := by
  cases hl : asJsonSlot.lookup b c with
  | some r =>
      obtain ⟨hr, hd⟩ := hc.asJson b r (Slot.lookup_eq_some.mp hl)
      rw [asJson, Slot.cached_hit hl]
      refine ⟨hd.symm, hc, Later.refl c, fun r' h => ?_⟩
      cases h
      exact hr
  | none =>
      rw [asJson, Slot.cached_miss hl]
      rcases baseBlock_spec hc b with ⟨e, herr, hrun⟩ | ⟨r, c₁, hrun, hbased, entries, hentries⟩
      · rw [Slot.fill_error (Comp.bind_of_error hrun), Block.asJson, herr]
        exact ⟨rfl, hc, Later.refl c, fun r h => by cases h⟩
      · have hcond : hashSlot.lookup b c₁ = none → toBytesSlot.lookup b c₁ = none →
            ¬ Tampered c₁ b := by
          have hsame : hashSlot.lookup b c₁ = hashSlot.lookup b c
              ∧ toBytesSlot.lookup b c₁ = toBytesSlot.lookup b c := by
            simp only [Slot.lookup, hashSlot, toBytesSlot, hbased.hash, hbased.toBytes]
            exact ⟨trivial, trivial⟩
          rw [hsame.1, hsame.2]
          exact fun h1 h2 ht => hok hl h1 h2 (hbased.tampered ht)
        obtain ⟨hvalue, hcomp⟩ := hash_spec hbased.right b hcond
        have hlater₁ := hbased.later
        rcases hrun₂ : hash blocks b c₁ with ⟨e | h, c₂⟩
        · rw [hrun₂] at hvalue hcomp
          have hbody : (baseBlock blocks b >>= fun r => hash blocks b >>= fun h =>
              writeHash r (hex h) >>= fun _ => pure r) c = (.error e, c₂) := by
            rw [Comp.bind_of_ok hrun, Comp.bind_of_error hrun₂]
          rw [Slot.fill_error hbody, Block.asJson, hentries, ← hvalue]
          exact ⟨rfl, hcomp.right, hlater₁.trans hcomp.later, fun r h => by cases h⟩
        · rw [hrun₂] at hvalue hcomp
          obtain ⟨hbase₂, _⟩ := hcomp.base r hbased.base
          obtain ⟨hright, hlater, hr, hdoc⟩ := writeHash_spec hcomp.right hbase₂ hvalue.symm
          have hbody : (baseBlock blocks b >>= fun r => hash blocks b >>= fun h =>
              writeHash r (hex h) >>= fun _ => pure r) c = (.ok r, (writeHash r (hex h) c₂).2) := by
            rw [Comp.bind_of_ok hrun, Comp.bind_of_ok hrun₂]
            rfl
          have hall := (hlater₁.trans hcomp.later).trans hlater
          rw [Slot.fill_ok hbody, hdoc]
          refine ⟨rfl, ⟨hright.hash, hright.header, hright.toBytes, hright.base, ?_,
            hright.asStr⟩, ⟨hall.length, hall.read⟩, ?_⟩
          · intro b' r' heq
            cases heq
            exact ⟨hr, hdoc⟩
          · intro r' heq
            cases heq
            exact hr

/-- **`as_str` is right** under the same condition. -/
theorem asStr_spec {c : Caches ι} (hc : Right blocks c) (b : ι)
    (hok : asStrSlot.lookup b c = none → asJsonSlot.lookup b c = none →
      hashSlot.lookup b c = none → toBytesSlot.lookup b c = none → ¬ Tampered c b) :
    (asStr blocks b c).1 = (blocks b).asStr
      ∧ Right blocks (asStr blocks b c).2 ∧ Later c (asStr blocks b c).2 := by
  cases hl : asStrSlot.lookup b c with
  | some t =>
      have ht : (blocks b).asStr = .ok t := hc.asStr b t (Slot.lookup_eq_some.mp hl)
      rw [asStr, Slot.cached_hit hl]
      exact ⟨ht.symm, hc, Later.refl c⟩
  | none =>
      rw [asStr, Slot.cached_miss hl]
      obtain ⟨hvalue, hright, hlater, _⟩ := asJson_spec hc b (hok hl)
      rcases hrun : asJson blocks b c with ⟨e | r, c'⟩
      · rw [hrun] at hvalue hright hlater
        rw [Slot.fill_error (Comp.bind_of_error hrun), Block.asStr, ← hvalue]
        exact ⟨rfl, hright, hlater⟩
      · rw [hrun] at hvalue hright hlater
        have hbody : (asJson blocks b >>= fun r => Comp.gets (fun c => c.read r) >>= fun d =>
            pure (Json.dumps (.obj d))) c = (.ok (Json.dumps (.obj (c'.read r))), c') :=
          Comp.bind_of_ok hrun
        have hstr : (blocks b).asStr = .ok (Json.dumps (.obj (c'.read r))) := by
          rw [Block.asStr, ← hvalue]
          rfl
        rw [Slot.fill_ok hbody, hstr]
        refine ⟨rfl, ⟨hright.hash, hright.header, hright.toBytes, hright.base, hright.asJson, ?_⟩,
          ⟨hlater.length, hlater.read⟩⟩
        intro b' t heq
        cases heq
        exact hstr

/-! ## §3. Programs of calls. -/

omit [Sha256] in
/-- The call gets as far as encoding the block. -/
def Encodes (c : Caches ι) : Method → ι → Prop
  | .toBytes, b => toBytesSlot.lookup b c = none
  | .hash, b => hashSlot.lookup b c = none ∧ toBytesSlot.lookup b c = none
  | .header, b => headerSlot.lookup b c = none ∧ hashSlot.lookup b c = none
      ∧ toBytesSlot.lookup b c = none
  | .asJson, b => asJsonSlot.lookup b c = none ∧ hashSlot.lookup b c = none
      ∧ toBytesSlot.lookup b c = none
  | .asStr, b => asStrSlot.lookup b c = none ∧ asJsonSlot.lookup b c = none
      ∧ hashSlot.lookup b c = none ∧ toBytesSlot.lookup b c = none

omit [Sha256] in
/-- The call does not encode a dictionary with the hash in it. -/
def Untampered (c : Caches ι) (m : Method) (b : ι) : Prop := Encodes c m b → ¬ Tampered c b

omit [DecidableEq ι] [Sha256] in
/-- A returned dictionary is one with a hash entry, so that it stays as it is. -/
def Lasting (c : Caches ι) : Value → Prop
  | .dict r => r < c.heap.length ∧ Sealed (c.read r)
  | _ => True

omit [DecidableEq ι] [Sha256] in
theorem Lasting.later {c c' : Caches ι} {v : Value} (h : Lasting c v) (hl : Later c c') :
    Lasting c' v ∧ v.read c' = v.read c := by
  cases v with
  | dict r =>
      have hread := hl.read r h.1 h.2
      exact ⟨⟨Nat.lt_of_lt_of_le h.1 hl.length, hread ▸ h.2⟩, by rw [Value.read, hread]; rfl⟩
  | bytes m => exact ⟨trivial, rfl⟩
  | text t => exact ⟨trivial, rfl⟩

/-- A call that returned what the method returns, and left the entries right. -/
structure CallRight (blocks : ι → Block) (c : Caches ι) (m : Method) (b : ι)
    (r : Except Exn Value) (c' : Caches ι) : Prop where
  answer : r.map (Value.read c') = direct (blocks b) m
  lasting : ∀ v, r = .ok v → Lasting c' v
  right : Right blocks c'
  later : Later c c'

omit [DecidableEq ι] [Sha256] in
theorem lasting_map {α : Type} {c : Caches ι} {r : Except Exn α} {f : α → Value}
    (h : ∀ a, r = .ok a → Lasting c (f a)) (v : Value) (hv : r.map f = .ok v) : Lasting c v := by
  cases r with
  | error e => cases hv
  | ok a =>
      cases hv
      exact h a rfl

omit [DecidableEq ι] [Sha256] in
/-- The document a reference stands for has a hash entry. -/
theorem lasting_dict {c : Caches ι} {r : Except Exn Ref} {doc : Except Exn Json}
    (hdoc : r.map (fun r => Json.obj (c.read r)) = doc) (hlt : ∀ a, r = .ok a → a < c.heap.length)
    (hsealed : ∀ d, doc = .ok (.obj d) → Sealed d) :
    ∀ a, r = .ok a → Lasting c (.dict a) := by
  rintro a rfl
  exact ⟨hlt a rfl, hsealed _ hdoc.symm⟩

/-- **A call that does not encode a dictionary with the hash in it returns what the
method returns.** -/
theorem call_right {c : Caches ι} (hc : Right blocks c) (m : Method) (b : ι)
    (hok : Untampered c m b) :
    CallRight blocks c m b (call blocks m b c).1 (call blocks m b c).2 := by
  cases m with
  | hash =>
      obtain ⟨hvalue, hcomp⟩ := hash_spec hc b (fun h1 h2 => hok ⟨h1, h2⟩)
      rw [call, Comp.mapOk_run]
      refine ⟨?_, lasting_map (fun _ _ => trivial), hcomp.right, hcomp.later⟩
      rw [hvalue, direct]
      cases (blocks b).hash <;> rfl
  | toBytes =>
      obtain ⟨hvalue, hcomp, _⟩ := toBytes_spec hc b hok
      rw [call, Comp.mapOk_run]
      refine ⟨?_, lasting_map (fun _ _ => trivial), hcomp.right, hcomp.later⟩
      rw [hvalue, direct]
      cases (blocks b).toBytes <;> rfl
  | header =>
      obtain ⟨hvalue, hright, hlater, hlt⟩ := header_spec hc b (fun h1 h2 h3 => hok ⟨h1, h2, h3⟩)
      rw [call, Comp.mapOk_run]
      refine ⟨?_, lasting_map (lasting_dict hvalue hlt (fun _ => sealed_header)), hright, hlater⟩
      rw [direct, ← hvalue]
      cases (header blocks b c).1 <;> rfl
  | asJson =>
      obtain ⟨hvalue, hright, hlater, hlt⟩ := asJson_spec hc b (fun h1 h2 h3 => hok ⟨h1, h2, h3⟩)
      rw [call, Comp.mapOk_run]
      refine ⟨?_, lasting_map (lasting_dict hvalue hlt (fun _ => sealed_asJson)), hright, hlater⟩
      rw [direct, ← hvalue]
      cases (asJson blocks b c).1 <;> rfl
  | asStr =>
      obtain ⟨hvalue, hright, hlater⟩ :=
        asStr_spec hc b (fun h1 h2 h3 h4 => hok ⟨h1, h2, h3, h4⟩)
      rw [call, Comp.mapOk_run]
      refine ⟨?_, lasting_map (fun _ _ => trivial), hright, hlater⟩
      rw [hvalue, direct]
      cases (blocks b).asStr <;> rfl

/-- The caches, and what every call so far returned. -/
structure Session (ι : Type) where
  caches : Caches ι := {}
  log : List ((Method × ι) × Except Exn Value) := []

/-- One call. -/
def step (blocks : ι → Block) (s : Session ι) (a : Method × ι) : Option (Session ι) :=
  let r := call blocks a.1 a.2 s.caches
  some { caches := r.2, log := s.log ++ [(a, r.1)] }

/-- The answer, read now, is what the method returns. -/
def Answered (blocks : ι → Block) (c : Caches ι) (e : (Method × ι) × Except Exn Value) : Prop :=
  e.2.map (Value.read c) = direct (blocks e.1.2) e.1.1

/-- Every entry is right, and every answer so far is right and will stay so. -/
structure SessionRight (blocks : ι → Block) (s : Session ι) : Prop where
  right : Right blocks s.caches
  answered : ∀ e ∈ s.log, Answered blocks s.caches e
  lasting : ∀ e ∈ s.log, ∀ v, e.2 = .ok v → Lasting s.caches v

theorem step_right {s s' : Session ι} {a : Method × ι} (hs : SessionRight blocks s)
    (hok : Untampered s.caches a.1 a.2) (h : step blocks s a = some s') :
    SessionRight blocks s' := by
  cases h
  have hcall := call_right hs.right a.1 a.2 hok
  refine ⟨hcall.right, ?_, ?_⟩
  · intro e he
    rcases List.mem_append.mp he with he | he
    · have hold := hs.answered e he
      unfold Answered at hold ⊢
      rw [← hold]
      cases hr : e.2 with
      | error x => rfl
      | ok v => exact congrArg Except.ok ((hs.lasting e he v hr).later hcall.later).2
    · rw [List.mem_singleton.mp he]
      exact hcall.answer
  · intro e he v hv
    rcases List.mem_append.mp he with he | he
    · exact ((hs.lasting e he v hv).later hcall.later).1
    · rw [List.mem_singleton.mp he] at hv
      exact hcall.lasting v hv

/-- The log of a program is the list of its calls. -/
theorem run_log (calls : List (Method × ι)) :
    ∀ {s s' : Session ι}, runFrom (step blocks) s calls = some s' →
      s'.log.map Prod.fst = s.log.map Prod.fst ++ calls := by
  induction calls with
  | nil =>
      intro s s' h
      cases h
      rw [List.append_nil]
  | cons a calls ih =>
      intro s s' h
      obtain ⟨s₁, hs₁, h⟩ := runFrom_cons h
      cases hs₁
      rw [ih h, List.map_append, List.append_assoc]
      rfl

/-- **In every program whose calls never encode a dictionary with the hash in it,
every answer is what the method returns without its cache**, when it is given and
ever after. -/
theorem answers_right (blocks : ι → Block) (calls : List (Method × ι)) (s : Session ι)
    (hrun : runFrom (step blocks) {} calls = some s)
    (hok : Along (step blocks) (fun s a => Untampered s.caches a.1 a.2) {} calls) :
    s.log.map Prod.fst = calls ∧ ∀ e ∈ s.log, Answered blocks s.caches e := by
  have hnone : SessionRight blocks {} := by
    refine ⟨⟨?_, ?_, ?_, ?_, ?_, ?_⟩, (fun e he => nomatch he), (fun e he => nomatch he)⟩
    all_goals exact fun _ _ h => nomatch h
  exact ⟨run_log calls hrun,
    (run_invariant_along (fun _ _ _ hs ha h => step_right hs ha h) calls hok hrun hnone).answered⟩

end Calls

/-- Two blocks, for worked inputs. -/
def sampleBlocks (i : Nat) : Block := { height := i }

/-- The message as its own digest: a stand-in for worked inputs. -/
@[reducible] def wholeDigest : Sha256 := ⟨id⟩

instance (c : Caches ι) (b : ι) [DecidableEq ι] : Decidable (Tampered c b) :=
  match h : c.base with
  | none => .isFalse (fun ⟨_, hb, _⟩ => nomatch h.symm.trans hb)
  | some (b', r) =>
      decidable_of_iff (b' = b ∧ ((c.read r).lookup "hash").isSome = true) (by
        constructor
        · rintro ⟨rfl, hs⟩
          exact ⟨r, h, Option.isSome_iff_ne_none.mp hs⟩
        · rintro ⟨r', hb, hs⟩
          cases h.symm.trans hb
          exact ⟨rfl, Option.isSome_iff_ne_none.mpr hs⟩)

instance [DecidableEq ι] (c : Caches ι) (m : Method) (b : ι) : Decidable (Encodes c m b) :=
  match m with
  | .toBytes => inferInstanceAs (Decidable (_ = none))
  | .hash => inferInstanceAs (Decidable (_ = none ∧ _ = none))
  | .header => inferInstanceAs (Decidable (_ = none ∧ _ = none ∧ _ = none))
  | .asJson => inferInstanceAs (Decidable (_ = none ∧ _ = none ∧ _ = none))
  | .asStr => inferInstanceAs (Decidable (_ = none ∧ _ = none ∧ _ = none ∧ _ = none))

instance [DecidableEq ι] (c : Caches ι) (m : Method) (b : ι) : Decidable (Untampered c m b) :=
  inferInstanceAs (Decidable (Encodes c m b → ¬ Tampered c b))

/-- Encoding a block for the storage, hashing another one, and coming back. -/
def sampleCalls : List (Method × Nat) :=
  [(.hash, 1), (.asStr, 1), (.header, 2), (.asJson, 1), (.hash, 1)]

theorem answers_right_sample :
    ∃ s : Session Nat, s.log.map Prod.fst = sampleCalls
      ∧ ∀ e ∈ s.log, @Answered Nat wholeDigest sampleBlocks s.caches e := by
  let _ := wholeDigest
  obtain ⟨s, hrun⟩ : ∃ s, runFrom (step sampleBlocks) {} sampleCalls = some s := ⟨_, rfl⟩
  exact ⟨s, answers_right sampleBlocks sampleCalls s hrun (by decide +kernel)⟩

/-- The bytes a call returned. -/
def returned : Except Exn Value → Option Bytes
  | .ok (.bytes m) => some m
  | _ => none

theorem returned_of_answered [Sha256] {blocks : ι → Block} {c : Caches ι} {b : ι}
    {r : Except Exn Value} (h : Answered blocks c ((.hash, b), r)) :
    returned r = (blocks b).hash.toOption := by
  unfold Answered direct at h
  cases hr : r with
  | error e =>
      rw [hr] at h
      cases hh : (blocks b).hash with
      | error e' => rfl
      | ok d =>
          rw [hh] at h
          cases h
  | ok v =>
      rw [hr] at h
      cases hh : (blocks b).hash with
      | error e' =>
          rw [hh] at h
          cases h
      | ok d =>
          rw [hh] at h
          cases v with
          | bytes m =>
              cases h
              rfl
          | dict r => cases h
          | text t => cases h

/-- Two blocks take turns, and the second hash of the first one comes last. -/
def turningCalls : List (Method × Nat) :=
  [(.hash, 1), (.toBytes, 2), (.asJson, 1), (.hash, 2), (.hash, 1)]

/-- The first and the last of the five calls both ask for the hash, with two answers. -/
def Turned (log : List ((Method × Nat) × Except Exn Value)) : Bool :=
  match log with
  | [e, _, _, _, e'] => decide (e.1 = (.hash, 1) ∧ e'.1 = (.hash, 1)
      ∧ returned e.2 ≠ returned e'.2)
  | _ => false

/-- **A block's hash changes**: `as_json` writes its hash into the dictionary that
`__base_block` returned, the bytes and the hash of the block are evicted by those of
another one, and `hash` then covers the dictionary with the hash in it. -/
theorem hash_changes :
    ∃ (s : Session Nat) (r r' : Except Exn Value),
      runFrom (@step Nat _ wholeDigest sampleBlocks) {} turningCalls = some s
        ∧ ((.hash, 1), r) ∈ s.log ∧ ((.hash, 1), r') ∈ s.log ∧ returned r ≠ returned r'
        ∧ ∃ e ∈ s.log, ¬ @Answered Nat wholeDigest sampleBlocks s.caches e := by
  let _ := wholeDigest
  have heval : ((runFrom (step sampleBlocks) {} turningCalls).map (fun s => Turned s.log))
      = some true := by decide +kernel
  obtain ⟨s, hrun, heval⟩ := Option.map_eq_some_iff.mp heval
  unfold Turned at heval
  split at heval
  next e e1 e2 e3 e' hlog =>
      obtain ⟨a, r⟩ := e
      obtain ⟨a', r'⟩ := e'
      obtain ⟨ha, ha', hne⟩ := of_decide_eq_true heval
      dsimp only at ha ha'
      subst ha ha'
      have hmem : ((Method.hash, 1), r) ∈ s.log ∧ ((Method.hash, 1), r') ∈ s.log := by
        rw [hlog]
        exact ⟨by simp, by simp⟩
      refine ⟨s, r, r', hrun, hmem.1, hmem.2, hne, ?_⟩
      by_contra hall
      simp only [not_exists, not_and, not_not] at hall
      exact hne ((returned_of_answered (hall _ hmem.1)).trans
        (returned_of_answered (hall _ hmem.2)).symm)
  next => cases heval

end BlockCaches

end TorSim
