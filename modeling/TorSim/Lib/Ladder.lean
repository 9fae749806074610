/-
  TorSim.Lib.Ladder — sequences that skip nothing on their way up.

  A ladder from `s` starts at `s` and reaches a value only after every value
  between `s` and it; it may step back or repeat itself.  Whatever follows a
  ladder through a first-in first-out channel sees a prefix of it, and a prefix
  of a ladder is one.  So the greatest value seen tells which values were seen.

  Main results:
    * `ladder_snoc` — what may come next.
    * `Ladder.of_append` — prefixes.
    * `Ladder.mem_of_le_peak` — **up to its peak a ladder has no gap**.
-/
import Mathlib.Order.Lattice
import Mathlib.Order.MinMax
import Mathlib.Data.List.Basic

namespace TorSim.Lib

section Ladder

variable {α : Type} [LinearOrder α]

/-- Every value of the list comes after all values from `s` up to it. -/
def Ladder (s : α) (xs : List α) : Prop :=
  ∀ pre x post, xs = pre ++ x :: post → s ≤ x ∧ ∀ y, s ≤ y → y < x → y ∈ pre

theorem ladder_nil (s : α) : Ladder s [] := by
  intro pre x post h
  cases pre <;> cases h

/-- A prefix of a ladder is one. -/
theorem Ladder.of_append {s : α} {xs ys : List α} (h : Ladder s (xs ++ ys)) : Ladder s xs := by
  intro pre x post hxs
  exact h pre x (post ++ ys) (by rw [hxs, List.append_assoc, List.cons_append])

/-- **What may come next**: a value with nothing missing below it. -/
theorem ladder_snoc {s : α} {xs : List α} {x : α} :
    Ladder s (xs ++ [x]) ↔ Ladder s xs ∧ s ≤ x ∧ ∀ y, s ≤ y → y < x → y ∈ xs := by
  constructor
  · intro h
    exact ⟨h.of_append, h xs x [] rfl⟩
  · rintro ⟨hxs, hx⟩ pre z post h
    rcases List.eq_nil_or_concat post with rfl | ⟨post', w, rfl⟩
    · obtain ⟨rfl, hz⟩ := List.append_inj' h rfl
      cases hz
      exact hx
    · rw [List.concat_eq_append, ← List.cons_append, ← List.append_assoc] at h
      obtain ⟨rfl, _⟩ := List.append_inj' h rfl
      exact hxs pre z post' rfl

/-- Below a value of the ladder nothing is missing. -/
theorem Ladder.mem_of_le {s : α} {xs : List α} (h : Ladder s xs) {x y : α} (hx : x ∈ xs)
    (hs : s ≤ y) (hy : y ≤ x) : y ∈ xs := by
  obtain ⟨pre, post, rfl⟩ := List.append_of_mem hx
  rcases lt_or_eq_of_le hy with hlt | rfl
  · exact List.mem_append_left _ ((h pre x post rfl).2 y hs hlt)
  · exact hx

theorem Ladder.le_of_mem {s : α} {xs : List α} (h : Ladder s xs) {x : α} (hx : x ∈ xs) :
    s ≤ x := by
  obtain ⟨pre, post, rfl⟩ := List.append_of_mem hx
  exact (h pre x post rfl).1

/-! ## The peak of a sequence. -/

/-- The greatest value, `b` at least. -/
def peak (b : α) (xs : List α) : α := xs.foldl max b

@[simp] theorem peak_nil (b : α) : peak b [] = b := rfl

theorem peak_append (b : α) (xs ys : List α) : peak b (xs ++ ys) = peak (peak b xs) ys :=
  List.foldl_append

@[simp] theorem peak_snoc (b : α) (xs : List α) (x : α) : peak b (xs ++ [x]) = max (peak b xs) x := by
  rw [peak_append]
  rfl

theorem le_peak (xs : List α) : ∀ b : α, b ≤ peak b xs := by
  induction xs with
  | nil => exact fun b => le_refl b
  | cons x xs ih => exact fun b => (le_max_left b x).trans (ih (max b x))

/-- No value is above the peak. -/
theorem le_peak_of_mem {xs : List α} {x : α} (h : x ∈ xs) (b : α) : x ≤ peak b xs := by
  obtain ⟨pre, post, rfl⟩ := List.append_of_mem h
  rw [peak_append]
  exact (le_max_right (peak b pre) x).trans (le_peak post _)

/-- A longer sequence has no lower peak. -/
theorem peak_le_append (b : α) (xs ys : List α) : peak b xs ≤ peak b (xs ++ ys) := by
  rw [peak_append]
  exact le_peak ys _

/-- The peak is the bound or a value of the sequence. -/
theorem peak_mem (xs : List α) : ∀ b : α, peak b xs = b ∨ peak b xs ∈ xs := by
  induction xs with
  | nil => exact fun b => Or.inl rfl
  | cons x xs ih =>
      intro b
      rcases ih (max b x) with h | h
      · rcases max_choice b x with hm | hm
        · exact Or.inl (h.trans hm)
        · exact Or.inr (List.mem_cons.mpr (Or.inl (h.trans hm)))
      · exact Or.inr (List.mem_cons_of_mem _ h)

/-- **Up to its peak a ladder has no gap.** -/
theorem Ladder.mem_of_le_peak {s b : α} {xs : List α} (h : Ladder s xs) {y : α} (hs : s ≤ y)
    (hb : b < y) (hy : y ≤ peak b xs) : y ∈ xs := by
  rcases peak_mem xs b with hp | hp
  · rw [hp] at hy
    exact absurd hb (not_lt.mpr hy)
  · exact h.mem_of_le hp hs hy

end Ladder

end TorSim.Lib
