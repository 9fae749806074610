/-
  TorSim.Lib.Handover — items that pass through one pair of hands.

  A task takes items on one side and hands them over on the other, one at a
  time.  It may put an item down for good instead, and it may stop with an item
  in hand.  What was handed over or is in hand was taken, in that order; and the
  books balance exactly as long as nothing was put down.

  Main results:
    * `Moves.booked` — the order is kept, whatever happens.
    * `Moves.balanced_iff` — **a move keeps the balance exactly where it loses
      nothing**.
-/
import Mathlib.Tactic.Common

namespace TorSim.Lib

section Handover

variable {α : Type}

/-- What a task has taken, what it has handed over, and what it has in hand. -/
structure Desk (α : Type) where
  taken : List α := []
  delivered : List α := []
  hand : Option α := none

namespace Desk

/-- What was handed over or is in hand was taken, in that order. -/
def Booked (d : Desk α) : Prop := (d.delivered ++ d.hand.toList).Sublist d.taken

/-- Whatever was taken was handed over or is in hand. -/
def Balanced (d : Desk α) : Prop := d.taken = d.delivered ++ d.hand.toList

instance [DecidableEq α] (d : Desk α) : Decidable d.Balanced :=
  inferInstanceAs (Decidable (d.taken = d.delivered ++ d.hand.toList))

end Desk

/-- What can happen, and whether an item is lost by it. -/
inductive Moves : Desk α → Bool → Desk α → Prop where
  | rest (d : Desk α) : Moves d false d
  | take {d : Desk α} (x : α) (hhand : d.hand = none) :
      Moves d false { d with taken := d.taken ++ [x], hand := some x }
  | deliver {d : Desk α} {x : α} (hhand : d.hand = some x) :
      Moves d false { d with delivered := d.delivered ++ [x], hand := none }
  | lose {d : Desk α} {x : α} (hhand : d.hand = some x) : Moves d true { d with hand := none }

variable {d d' : Desk α} {lost : Bool}

/-- A move to what is the same desk. -/
theorem Moves.of_eq {d'' : Desk α} (h : Moves d lost d') (heq : d'' = d') : Moves d lost d'' := by
  rw [heq]
  exact h

/-- **The order is kept**, whatever happens. -/
theorem Moves.booked (h : Moves d lost d') (hd : d.Booked) : d'.Booked := by
  unfold Desk.Booked at hd ⊢
  cases h with
  | rest => exact hd
  | take x hhand =>
      rw [hhand] at hd
      show (d.delivered ++ [x]).Sublist (d.taken ++ [x])
      rw [Option.toList_none, List.append_nil] at hd
      exact hd.append (List.Sublist.refl [x])
  | deliver hhand =>
      rw [hhand] at hd
      show (d.delivered ++ [_] ++ []).Sublist d.taken
      rw [List.append_nil]
      exact hd
  | lose hhand =>
      rw [hhand] at hd
      show (d.delivered ++ []).Sublist d.taken
      rw [List.append_nil]
      exact (List.sublist_append_left _ _).trans hd

/-- **A move keeps the balance exactly where it loses nothing.** -/
theorem Moves.balanced_iff (h : Moves d lost d') (hd : d.Booked) :
    d'.Balanced ↔ d.Balanced ∧ lost = false := by
  unfold Desk.Balanced
  cases h with
  | rest => simp
  | take x hhand =>
      rw [hhand]
      show d.taken ++ [x] = d.delivered ++ [x] ↔ _
      simp
  | deliver hhand =>
      rw [hhand]
      show d.taken = d.delivered ++ [_] ++ [] ↔ _
      simp
  | @lose x hhand =>
      rw [hhand]
      -- one more item was taken than is left to account for it
      have hlen : (d.delivered ++ [x]).length ≤ d.taken.length := by
        unfold Desk.Booked at hd
        rw [hhand] at hd
        exact hd.length_le
      constructor
      · intro heq
        replace heq : d.taken = d.delivered := heq.trans (List.append_nil _)
        rw [heq, List.length_append, List.length_singleton] at hlen
        omega
      · intro hfalse
        cases hfalse.2

end Handover

end TorSim.Lib
