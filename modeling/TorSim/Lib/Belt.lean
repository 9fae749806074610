/-
  TorSim.Lib.Belt — items that leave in the order they came.

  A belt is a queue with a hand at its head and a place the hand delivers to.  Items join
  the queue at its end, the hand takes the first one and delivers it before it takes the
  next.  What came in is then what was delivered, what is in hand and what is queued, in
  this order.

  Main results:
    * `Moves.whole` — **every move keeps the belt whole.**
    * `Whole.mem_iff` — whatever came in is somewhere.
    * `Whole.place_unique` — and, if all keys differ, in one place only.
    * `Whole.along_unique` — what is still to come is not there yet.
-/
import Mathlib.Data.List.Nodup

namespace TorSim.Lib

variable {α β κ : Type}

/-- What came in, what was delivered, and what is between. -/
structure Belt (α : Type) where
  entered : List α := []
  delivered : List α := []
  hand : Option α := none
  queue : List α := []

namespace Belt

/-- Nothing is lost and nothing doubled, and the order is kept. -/
def Whole (b : Belt α) : Prop := b.entered = b.delivered ++ b.hand.toList ++ b.queue

/-- What can happen to a belt. -/
inductive Moves : Belt α → Belt α → Prop where
  | load (b : Belt α) (xs : List α) :
      Moves b { b with entered := b.entered ++ xs, queue := b.queue ++ xs }
  | take {b : Belt α} {x : α} {rest : List α} (hhand : b.hand = none)
      (hqueue : b.queue = x :: rest) : Moves b { b with hand := some x, queue := rest }
  | deliver {b : Belt α} {x : α} (hhand : b.hand = some x) :
      Moves b { b with delivered := b.delivered ++ [x], hand := none }

/-- A belt that stays as it is. -/
theorem Moves.rest (b : Belt α) : Moves b b := by
  have h := Moves.load b []
  rw [List.append_nil, List.append_nil] at h
  exact h

/-- **Every move keeps the belt whole.** -/
theorem Moves.whole {b b' : Belt α} (h : Moves b b') (hb : b.Whole) : b'.Whole := by
  unfold Whole at hb ⊢
  cases h with
  | load xs =>
      show b.entered ++ xs = b.delivered ++ b.hand.toList ++ (b.queue ++ xs)
      rw [hb, List.append_assoc]
  | @take x rest hhand hqueue =>
      rw [hb, hhand, hqueue]
      show b.delivered ++ [] ++ x :: rest = b.delivered ++ [x] ++ rest
      rw [List.append_nil, List.append_assoc]
      rfl
  | @deliver x hhand =>
      rw [hb, hhand]
      show b.delivered ++ [x] ++ b.queue = b.delivered ++ [x] ++ [] ++ b.queue
      rw [List.append_nil]

/-- Delivered, in hand and queued, in this order. -/
def contents (b : Belt α) : List α := b.delivered ++ b.hand.toList ++ b.queue

/-- **A move adds to the contents what it adds to what came in.** -/
theorem Moves.contents {b b' : Belt α} (h : Moves b b') :
    ∃ xs, b'.entered = b.entered ++ xs ∧ b'.contents = b.contents ++ xs := by
  unfold Belt.contents
  cases h with
  | load xs => exact ⟨xs, rfl, (List.append_assoc _ _ _).symm⟩
  | take hhand hqueue =>
      refine ⟨[], (List.append_nil _).symm, ?_⟩
      simp [hhand, hqueue]
  | deliver hhand =>
      refine ⟨[], (List.append_nil _).symm, ?_⟩
      simp [hhand]

/-- Where an item can be. -/
inductive Place where
  | delivered
  | hand
  | queue
  deriving DecidableEq

/-- The items of a place. -/
def at_ (b : Belt α) : Place → List α
  | .delivered => b.delivered
  | .hand => b.hand.toList
  | .queue => b.queue

/-- **Whatever came in is somewhere**, and nothing else is. -/
theorem Whole.mem_iff {b : Belt α} (hb : b.Whole) {x : α} :
    x ∈ b.entered ↔ ∃ p, x ∈ b.at_ p := by
  unfold Whole at hb
  rw [hb]
  constructor
  · intro h
    rcases List.mem_append.mp h with h | h
    · rcases List.mem_append.mp h with h | h
      · exact ⟨.delivered, h⟩
      · exact ⟨.hand, h⟩
    · exact ⟨.queue, h⟩
  · rintro ⟨p, h⟩
    cases p with
    | delivered => exact List.mem_append_left _ (List.mem_append_left _ h)
    | hand => exact List.mem_append_left _ (List.mem_append_right _ h)
    | queue => exact List.mem_append_right _ h

/-- A place holds its items in the order they came. -/
theorem Whole.sublist {b : Belt α} (hb : b.Whole) (p : Place) : (b.at_ p).Sublist b.entered := by
  unfold Whole at hb
  rw [hb]
  cases p with
  | delivered =>
      exact (List.sublist_append_left _ _).trans (List.sublist_append_left _ _)
  | hand => exact (List.sublist_append_right _ _).trans (List.sublist_append_left _ _)
  | queue => exact List.sublist_append_right _ _

/-- **No two items of one key are in different places**, if no two came in. -/
theorem Whole.place_unique {b : Belt α} (hb : b.Whole) {f : α → β}
    (hnodup : (b.entered.map f).Nodup) {p q : Place} {x y : α} (hx : x ∈ b.at_ p)
    (hy : y ∈ b.at_ q) (hkey : f x = f y) : p = q := by
  unfold Whole at hb
  rw [hb, List.map_append, List.map_append, List.nodup_append, List.nodup_append] at hnodup
  obtain ⟨⟨_, _, hhand⟩, _, hqueue⟩ := hnodup
  have hdelivered : ∀ {u v : α}, u ∈ b.delivered → v ∈ b.hand.toList → f u ≠ f v :=
    fun hu hv => hhand _ (List.mem_map_of_mem hu) _ (List.mem_map_of_mem hv)
  have hrest : ∀ {u v : α}, u ∈ b.delivered ∨ u ∈ b.hand.toList → v ∈ b.queue → f u ≠ f v := by
    intro u v hu hv
    refine hqueue _ ?_ _ (List.mem_map_of_mem hv)
    rw [← List.map_append]
    exact List.mem_map_of_mem (List.mem_append.mpr hu)
  cases p with
  | delivered =>
      cases q with
      | delivered => rfl
      | hand => exact absurd hkey (hdelivered hx hy)
      | queue => exact absurd hkey (hrest (Or.inl hx) hy)
  | hand =>
      cases q with
      | delivered => exact absurd hkey.symm (hdelivered hy hx)
      | hand => rfl
      | queue => exact absurd hkey (hrest (Or.inr hx) hy)
  | queue =>
      cases q with
      | delivered => exact absurd hkey.symm (hrest (Or.inl hy) hx)
      | hand => exact absurd hkey.symm (hrest (Or.inr hy) hx)
      | queue => rfl

/-- What is to come onto the belt, then the places of the belt. -/
def along (ahead : List α) (b : Belt α) : Option Place → List α
  | none => ahead
  | some p => b.at_ p

/-- **No two items of one key are in different places of the way**, neither ahead of the
belt nor on it. -/
theorem Whole.along_unique {b : Belt α} (hb : b.Whole) {ahead : List α} {f : α → β}
    (hnodup : ((b.entered ++ ahead).map f).Nodup) {p q : Option Place} {x y : α}
    (hx : x ∈ b.along ahead p) (hy : y ∈ b.along ahead q) (hkey : f x = f y) : p = q := by
  rw [List.map_append, List.nodup_append] at hnodup
  obtain ⟨hentered, _, happart⟩ := hnodup
  have hout : ∀ {u v : α} {p : Place}, u ∈ b.at_ p → v ∈ ahead → f u ≠ f v :=
    fun hu hv => happart _ (List.mem_map_of_mem (hb.mem_iff.mpr ⟨_, hu⟩)) _
      (List.mem_map_of_mem hv)
  cases p with
  | none =>
      cases q with
      | none => rfl
      | some q => exact absurd hkey.symm (hout hy hx)
  | some p =>
      cases q with
      | none => exact absurd hkey (hout hx hy)
      | some q => exact congrArg some (hb.place_unique hentered hx hy hkey)

end Belt

/-- What is made of some of the items has their keys, in order. -/
theorem map_filterMap_sublist {γ : Type} {f : α → Option β} {key : α → γ} {key' : β → γ}
    (h : ∀ x y, f x = some y → key' y = key x) (xs : List α) :
    ((xs.filterMap f).map key').Sublist (xs.map key) := by
  induction xs with
  | nil => exact List.Sublist.refl []
  | cons x xs ih =>
      cases hf : f x with
      | none =>
          rw [List.filterMap_cons_none hf]
          exact ih.cons _
      | some y =>
          rw [List.filterMap_cons_some hf, List.map_cons, List.map_cons, h x y hf]
          exact ih.cons_cons _

/-- A list without repetitions among the items of each kind has none. -/
theorem nodup_of_kinds [DecidableEq κ] (f : α → κ) {xs : List α}
    (h : ∀ k, (xs.filter (fun x => f x = k)).Nodup) : xs.Nodup := by
  induction xs with
  | nil => exact List.nodup_nil
  | cons x xs ih =>
      rw [List.nodup_cons]
      constructor
      · intro hmem
        have hkind := h (f x)
        rw [List.filter_cons_of_pos (by simp), List.nodup_cons] at hkind
        exact hkind.1 (List.mem_filter.mpr ⟨hmem, by simp⟩)
      · refine ih fun k => (h k).sublist ?_
        exact (List.sublist_cons_self x xs).filter _

end TorSim.Lib
