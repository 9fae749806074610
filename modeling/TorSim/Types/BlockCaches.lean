/-
  TorSim.Types.BlockCaches — the cached methods of a block.

  Every encoder of `Block` is behind its own `lru_cache(maxsize=1)`, one entry
  for all blocks.  `__base_block` returns a dictionary, and `as_json` writes the
  hash into the very dictionary that the cache of `__base_block` still holds.
  Dictionaries are therefore kept in a heap, and the caches hold references.

  Main definitions:
    * `Caches` — the six entries and the heap.
    * `call` — a method behind its cache; `direct` — the method alone.
-/
import TorSim.Lib.LruCache
import TorSim.Types.Block

namespace TorSim

open TorSim.Lib

namespace BlockCaches

/-! ## §1. The caches. -/

abbrev Ref := Nat

abbrev Dict := List (String × Json)

/-- One entry for each cached method, and the dictionaries that were returned. -/
structure Caches (ι : Type) where
  hash : Option (ι × Bytes) := none
  header : Option (ι × Ref) := none
  toBytes : Option (ι × Bytes) := none
  base : Option (ι × Ref) := none
  asJson : Option (ι × Ref) := none
  asStr : Option (ι × String) := none
  heap : List Dict := []

variable {ι : Type}

def Caches.read (c : Caches ι) (r : Ref) : Dict := (c.heap[r]?).getD []

/-- A new dictionary. -/
def alloc (d : Dict) : Comp (Caches ι) Ref := fun c =>
  (.ok c.heap.length, { c with heap := c.heap ++ [d] })

/-- `d.update({"hash": h})`. -/
def writeHash (r : Ref) (h : String) : Comp (Caches ι) Unit :=
  Comp.update (fun c => { c with
    heap := c.heap.set r (dictUpdate (c.read r) [("hash", .str h)]) })

def hashSlot : Slot (Caches ι) ι Bytes := ⟨Caches.hash, fun b v c => { c with hash := some (b, v) }⟩

def headerSlot : Slot (Caches ι) ι Ref :=
  ⟨Caches.header, fun b v c => { c with header := some (b, v) }⟩

def toBytesSlot : Slot (Caches ι) ι Bytes :=
  ⟨Caches.toBytes, fun b v c => { c with toBytes := some (b, v) }⟩

def baseSlot : Slot (Caches ι) ι Ref := ⟨Caches.base, fun b v c => { c with base := some (b, v) }⟩

def asJsonSlot : Slot (Caches ι) ι Ref :=
  ⟨Caches.asJson, fun b v c => { c with asJson := some (b, v) }⟩

def asStrSlot : Slot (Caches ι) ι String :=
  ⟨Caches.asStr, fun b v c => { c with asStr := some (b, v) }⟩

/-! ## §2. The methods. -/

section Methods

variable [DecidableEq ι] [Sha256] (blocks : ι → Block)

def baseBlock (b : ι) : Comp (Caches ι) Ref :=
  baseSlot.cached b (do
    let entries ← Comp.lift (blocks b).baseBlock
    alloc entries)

def toBytes (b : ι) : Comp (Caches ι) Bytes :=
  toBytesSlot.cached b (do
    let r ← baseBlock blocks b
    let base ← Comp.gets (fun c => c.read r)
    return encodeUtf8 (Json.dumps (.obj base)))

def hash (b : ι) : Comp (Caches ι) Bytes :=
  hashSlot.cached b (do
    let message ← toBytes blocks b
    return Sha256.digest message)

/-- The entries of the header, given the block's hash. -/
def headerEntries (block : Block) (h : Bytes) : Dict := [
  ("height", .int block.height),
  ("hash", .str (hex h)),
  ("txroot", .str (hex block.txRoot)),
  ("receiptroot", .str (hex block.receiptRoot)),
  ("timestamp", .float block.timestamp)]

def header (b : ι) : Comp (Caches ι) Ref :=
  headerSlot.cached b (do
    let h ← hash blocks b
    alloc (headerEntries (blocks b) h))

/-- The hash goes into the dictionary `__base_block` returned. -/
def asJson (b : ι) : Comp (Caches ι) Ref :=
  asJsonSlot.cached b (do
    let r ← baseBlock blocks b
    let h ← hash blocks b
    writeHash r (hex h)
    return r)

def asStr (b : ι) : Comp (Caches ι) String :=
  asStrSlot.cached b (do
    let r ← asJson blocks b
    let d ← Comp.gets (fun c => c.read r)
    return Json.dumps (.obj d))

/-! ## §3. Calls and answers. -/

inductive Method where
  | hash
  | toBytes
  | header
  | asJson
  | asStr
  deriving Repr, DecidableEq

/-- What a method returns: bytes, a text, or a reference to a dictionary. -/
inductive Value where
  | bytes (m : Bytes)
  | dict (r : Ref)
  | text (s : String)

/-- What the caller sees. -/
inductive Answer where
  | bytes (m : Bytes)
  | dict (d : Json)
  | text (s : String)

def Value.read (c : Caches ι) : Value → Answer
  | .bytes m => .bytes m
  | .dict r => .dict (.obj (c.read r))
  | .text s => .text s

/-- A method behind its cache. -/
def call : Method → ι → Comp (Caches ι) Value
  | .hash, b => Comp.mapOk .bytes (hash blocks b)
  | .toBytes, b => Comp.mapOk .bytes (toBytes blocks b)
  | .header, b => Comp.mapOk .dict (header blocks b)
  | .asJson, b => Comp.mapOk .dict (asJson blocks b)
  | .asStr, b => Comp.mapOk .text (asStr blocks b)

/-- The same method without any cache. -/
def direct (block : Block) : Method → Except Exn Answer
  | .hash => block.hash.map .bytes
  | .toBytes => block.toBytes.map .bytes
  | .header => block.header.map .dict
  | .asJson => block.asJson.map .dict
  | .asStr => block.asStr.map .text

end Methods

end BlockCaches

end TorSim
