/-
  TorSim.Lib.LruCache — methods behind a cache of one entry.

  `lru_cache(maxsize=1)` on a method keeps one entry for all instances: the
  instance of the last call that was computed, and what that call returned.  An
  exception is not kept.  Nothing is compared but the identity of the instance,
  so an entry can be out of date in two ways: the instance changed, or the
  returned object did.

  Main results:
    * `cached_hit` — a hit returns the entry and changes nothing.
    * `fill_ok`, `fill_error` — a computation writes its entry when it returns.
-/
import TorSim.Lib.Comp

namespace TorSim.Lib

/-- The cache of a method, inside a larger state. -/
structure Slot (σ κ α : Type) where
  entry : σ → Option (κ × α)
  put : κ → α → σ → σ

namespace Slot

variable {σ κ α : Type} [DecidableEq κ]

/-- What the entry says for a key. -/
def lookup (slot : Slot σ κ α) (key : κ) (s : σ) : Option α :=
  match slot.entry s with
  | some (k, v) => if k = key then some v else none
  | none => none

/-- A miss: run the body and keep what it returns. -/
def fill (slot : Slot σ κ α) (key : κ) (body : Comp σ α) : Comp σ α := do
  let v ← body
  Comp.update (slot.put key v)
  return v

/-- `lru_cache(maxsize=1)` around the body of a method. -/
def cached (slot : Slot σ κ α) (key : κ) (body : Comp σ α) : Comp σ α := fun s =>
  match slot.lookup key s with
  | some v => (.ok v, s)
  | none => slot.fill key body s

variable {slot : Slot σ κ α} {key : κ} {body : Comp σ α} {s : σ}

theorem lookup_eq_some {v : α} : slot.lookup key s = some v ↔ slot.entry s = some (key, v) := by
  unfold lookup
  cases h : slot.entry s with
  | none => simp
  | some e =>
      obtain ⟨k, w⟩ := e
      by_cases hk : k = key
      · simp [hk]
      · simp [hk]

theorem cached_hit {v : α} (h : slot.lookup key s = some v) :
    slot.cached key body s = (.ok v, s) := by
  unfold cached
  rw [h]

theorem cached_miss (h : slot.lookup key s = none) :
    slot.cached key body s = slot.fill key body s := by
  unfold cached
  rw [h]

omit [DecidableEq κ] in
theorem fill_ok {v : α} {s' : σ} (h : body s = (.ok v, s')) :
    slot.fill key body s = (.ok v, slot.put key v s') := by
  rw [fill, Comp.bind_of_ok h]
  rfl

omit [DecidableEq κ] in
theorem fill_error {e : Exn} {s' : σ} (h : body s = (.error e, s')) :
    slot.fill key body s = (.error e, s') := by
  rw [fill, Comp.bind_of_error h]

end Slot

end TorSim.Lib
