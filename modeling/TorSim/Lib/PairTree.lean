/-
  TorSim.Lib.PairTree — balanced trees over a list, missing parts duplicated.

  A list of at most `2^h` values is hashed by a tree of height `h`: where the
  right subtree would be empty, the left one stands in for it.  The same root
  comes out top down, splitting the list, and bottom up, pairing neighbours; and
  it comes out of one climb from the last leaf, given the finished left siblings
  on the way.

  Main results:
    * `root_succ` — top down and bottom up agree, level by level.
    * `root_climb` — **the climb from the last leaf ends in the root**.
    * `siblings_snoc_even` / `siblings_snoc_odd` — the left siblings of the next
      leaf, from those of this one.
    * `siblings_eq_blockRoots` — **they are the roots of the perfect blocks** the list
      splits into by the binary digits of its length.
    * `fill_of_root_eq` — **a root binds the filled list**, as far as the joins on
      the way do not collide.
    * `head_of_root_eq` — trees of two heights share a root only where a leaf is
      a join.
-/
import Mathlib.Data.Nat.Log
import Mathlib.Data.Nat.BitIndices
import Mathlib.Tactic.Common
import Mathlib.Algebra.Group.Nat.Defs

namespace TorSim.Lib

namespace PairTree

variable {α : Type} (f : α → α → α)

/-! ## §1. The root, top down. -/

/-- Join two optional subtrees; a missing right one is the left one again. -/
def join : Option α → Option α → Option α
  | some l, some r => some (f l r)
  | some l, none => some (f l l)
  | none, _ => none

/-- The root of the tree of height `h` over a list. -/
def root : Nat → List α → Option α
  | 0, xs => xs.head?
  | h + 1, xs => join f (root h (xs.take (2 ^ h))) (root h (xs.drop (2 ^ h)))

@[simp] theorem root_nil (h : Nat) : root f h [] = none := by
  induction h with
  | zero => rfl
  | succ h ih =>
      rw [root, List.take_nil, List.drop_nil, ih]
      rfl

/-- A tree has a root exactly where it has a leaf. -/
theorem root_eq_none_iff (h : Nat) : ∀ xs : List α, root f h xs = none ↔ xs = [] := by
  induction h with
  | zero => intro xs; simp [root]
  | succ h ih =>
      intro xs
      constructor
      · intro hnone
        have hpos : 2 ^ h ≠ 0 := Nat.ne_of_gt (Nat.pow_pos (by decide))
        cases hl : root f h (xs.take (2 ^ h)) with
        | none => simpa [hpos] using (ih _).mp hl
        | some l => cases hr : root f h (xs.drop (2 ^ h)) <;> simp [root, join, hl, hr] at hnone
      · rintro rfl
        exact root_nil f _

/-- A property of the leaves and of every join is one of the root. -/
theorem root_all {P : α → Prop} (hf : ∀ a b, P (f a b)) (h : Nat) : ∀ {xs : List α},
    (∀ x ∈ xs, P x) → ∀ {r : α}, root f h xs = some r → P r := by
  induction h with
  | zero =>
      intro xs hxs r hr
      exact hxs r (List.mem_of_mem_head? hr)
  | succ h _ =>
      intro xs _ r hr
      cases hl : root f h (xs.take (2 ^ h)) with
      | none => simp [root, join, hl] at hr
      | some l =>
          cases hd : root f h (xs.drop (2 ^ h)) with
          | none =>
              simp only [root, join, hl, hd, Option.some.injEq] at hr
              exact hr ▸ hf _ _
          | some d =>
              simp only [root, join, hl, hd, Option.some.injEq] at hr
              exact hr ▸ hf _ _

/-! ## §2. The root, bottom up. -/

/-- One level up: neighbours paired, a single last one with itself. -/
def pairUp : List α → List α
  | a :: b :: xs => f a b :: pairUp xs
  | [a] => [f a a]
  | [] => []

theorem pairUp_take (n : Nat) : ∀ xs : List α,
    pairUp f (xs.take (2 * n)) = (pairUp f xs).take n := by
  induction n with
  | zero => intro xs; rfl
  | succ n ih =>
      intro xs
      rw [show 2 * (n + 1) = 2 * n + 1 + 1 by omega]
      match xs with
      | [] => rfl
      | [a] => simp [pairUp]
      | a :: b :: xs =>
          rw [List.take_succ_cons, List.take_succ_cons, pairUp, ih, pairUp, List.take_succ_cons]

theorem pairUp_drop (n : Nat) : ∀ xs : List α,
    pairUp f (xs.drop (2 * n)) = (pairUp f xs).drop n := by
  induction n with
  | zero => intro xs; rfl
  | succ n ih =>
      intro xs
      rw [show 2 * (n + 1) = 2 * n + 1 + 1 by omega]
      match xs with
      | [] => rfl
      | [a] => simp [pairUp]
      | a :: b :: xs =>
          rw [List.drop_succ_cons, List.drop_succ_cons, ih, pairUp, List.drop_succ_cons]

/-- **Top down and bottom up agree**: one level of the tree is one pairing. -/
theorem root_succ (h : Nat) : ∀ xs : List α, root f (h + 1) xs = root f h (pairUp f xs) := by
  induction h with
  | zero =>
      intro xs
      match xs with
      | [] => rfl
      | [a] => rfl
      | a :: b :: xs => rfl
  | succ h ih =>
      intro xs
      rw [root, ih, ih, show 2 ^ (h + 1) = 2 * 2 ^ h by rw [Nat.pow_succ, Nat.mul_comm],
        pairUp_take, pairUp_drop]
      rfl

/-! ## §3. The climb from the last leaf. -/

/-- One level up among finished nodes: a single last one is not finished. -/
def up : List α → List α
  | a :: b :: xs => f a b :: up xs
  | _ => []

@[simp] theorem length_up (xs : List α) : (up f xs).length = xs.length / 2 := by
  induction xs using up.induct with
  | case1 a b xs ih => simp only [up, List.length_cons, ih]; omega
  | case2 xs hxs =>
      match xs with
      | [] => simp [up]
      | [a] => simp [up]
      | a :: b :: xs => exact absurd rfl (hxs a b xs)

/-- Induction over lists of even length, two elements at a time. -/
theorem even_induction {P : List α → Prop} (hnil : P [])
    (hcons : ∀ a b xs, P xs → P (a :: b :: xs)) : ∀ xs : List α, xs.length % 2 = 0 → P xs
  | [], _ => hnil
  | [a], h => absurd h (by simp)
  | a :: b :: xs, h => hcons a b xs
      (even_induction hnil hcons xs (by simp only [List.length_cons] at h; omega))

/-- Behind an even number of nodes, the new last node is paired with itself. -/
theorem pairUp_snoc_even (t : α) (xs : List α) (hx : xs.length % 2 = 0) :
    pairUp f (xs ++ [t]) = up f xs ++ [f t t] := by
  refine even_induction (P := fun xs => pairUp f (xs ++ [t]) = up f xs ++ [f t t])
    (by simp [pairUp, up]) (fun a b xs ih => ?_) xs hx
  simp only [List.cons_append, pairUp, up, ih]

/-- Behind an odd number of nodes, the last of them is its left sibling. -/
theorem pairUp_snoc_odd (t y : α) (xs : List α) (hx : xs.length % 2 = 0) :
    pairUp f (xs ++ [y] ++ [t]) = up f xs ++ [f y t] := by
  refine even_induction (P := fun xs => pairUp f (xs ++ [y] ++ [t]) = up f xs ++ [f y t])
    (by simp [pairUp, up]) (fun a b xs ih => ?_) xs hx
  simp only [List.cons_append, pairUp, up] at ih ⊢
  rw [ih]

theorem up_snoc_even (y : α) (xs : List α) (hx : xs.length % 2 = 0) :
    up f (xs ++ [y]) = up f xs := by
  refine even_induction (P := fun xs => up f (xs ++ [y]) = up f xs)
    (by simp [up]) (fun a b xs ih => ?_) xs hx
  simp only [List.cons_append, up]
  rw [ih]

theorem up_snoc_odd (t y : α) (xs : List α) (hx : xs.length % 2 = 0) :
    up f (xs ++ [y] ++ [t]) = up f xs ++ [f y t] := by
  refine even_induction (P := fun xs => up f (xs ++ [y] ++ [t]) = up f xs ++ [f y t])
    (by simp [up]) (fun a b xs ih => ?_) xs hx
  simp only [List.cons_append, up] at ih ⊢
  rw [ih]

/-- The value at the top of the climb from a last leaf `t` behind `ys`. -/
def climb (ys : List α) (t : α) : α :=
  match ys with
  | [] => t
  | y :: rest =>
      if (y :: rest).length % 2 = 0 then climb (up f (y :: rest)) (f t t)
      else climb (up f (y :: rest)) (f ((y :: rest).getLast (by simp)) t)
termination_by ys.length
decreasing_by
  all_goals
    rw [length_up]
    simp only [List.length_cons]
    omega

@[simp] theorem climb_nil (t : α) : climb f [] t = t := by
  rw [climb]

/-- A climb past an even number of finished nodes. -/
theorem climb_even {ys : List α} (hne : ys ≠ []) (hys : ys.length % 2 = 0) (t : α) :
    climb f ys t = climb f (up f ys) (f t t) := by
  match ys with
  | [] => exact absurd rfl hne
  | y :: rest => rw [climb, if_pos hys]

/-- A climb past an odd number of finished nodes, the last one `y`. -/
theorem climb_odd {ys : List α} (y t : α) (hys : ys.length % 2 = 0) :
    climb f (ys ++ [y]) t = climb f (up f ys) (f y t) := by
  have hodd : ¬ (ys ++ [y]).length % 2 = 0 := by
    rw [List.length_append, List.length_singleton]
    omega
  match hzs : ys ++ [y] with
  | [] => simp at hzs
  | z :: rest =>
      rw [hzs] at hodd
      rw [climb, if_neg hodd]
      have hlast : (z :: rest).getLast (by simp) = y := by
        simp only [← hzs, List.getLast_concat]
      rw [hlast, ← hzs, up_snoc_even f y ys hys]

/-- An odd list is an even one and a last element. -/
theorem exists_snoc {ys : List α} (hys : ys.length % 2 = 1) :
    ∃ zs y, ys = zs ++ [y] ∧ zs.length % 2 = 0 := by
  have hne : ys ≠ [] := by
    rintro rfl
    simp at hys
  refine ⟨ys.dropLast, ys.getLast hne, (List.dropLast_concat_getLast hne).symm, ?_⟩
  rw [List.length_dropLast]
  omega

/-- **The climb from the last leaf ends in the root** of the least tree that holds
all the leaves. -/
theorem root_climb (h : Nat) : ∀ (ys : List α) (t : α), ys.length + 1 ≤ 2 ^ h →
    2 ^ h < 2 * (ys.length + 1) → root f h (ys ++ [t]) = some (climb f ys t) := by
  induction h with
  | zero =>
      intro ys t hle _
      have hnil : ys = [] := List.length_eq_zero_iff.mp (by simpa using hle)
      subst hnil
      simp [root]
  | succ h ih =>
      intro ys t hle hlt
      rw [Nat.pow_succ] at hle hlt
      have hpos : 0 < 2 ^ h := Nat.pow_pos (by decide)
      rw [root_succ]
      by_cases hys : ys.length % 2 = 0
      · have hne : ys ≠ [] := by
          rintro rfl
          simp at hlt
          omega
        rw [pairUp_snoc_even f t ys hys, climb_even f hne hys]
        exact ih _ _ (by rw [length_up]; omega) (by rw [length_up]; omega)
      · obtain ⟨zs, y, rfl, hzs⟩ := exists_snoc (by omega : ys.length % 2 = 1)
        rw [List.length_append, List.length_singleton] at hle hlt
        rw [pairUp_snoc_odd f t y zs hzs, climb_odd f y t hzs]
        exact ih _ _ (by rw [length_up]; omega) (by rw [length_up]; omega)

/-! ## §4. The left siblings on the way. -/

/-- The finished left siblings met on the climb from a leaf behind `ys`, bottom up. -/
def siblings (ys : List α) : List α :=
  match ys with
  | [] => []
  | y :: rest =>
      if (y :: rest).length % 2 = 0 then siblings (up f (y :: rest))
      else (y :: rest).getLast (by simp) :: siblings (up f (y :: rest))
termination_by ys.length
decreasing_by
  all_goals
    rw [length_up]
    simp only [List.length_cons]
    omega

@[simp] theorem siblings_nil : siblings f ([] : List α) = [] := by
  rw [siblings]

theorem siblings_even {ys : List α} (hys : ys.length % 2 = 0) :
    siblings f ys = siblings f (up f ys) := by
  match ys with
  | [] => rfl
  | y :: rest => rw [siblings, if_pos hys]

theorem siblings_odd {ys : List α} (y : α) (hys : ys.length % 2 = 0) :
    siblings f (ys ++ [y]) = y :: siblings f (up f ys) := by
  have hodd : ¬ (ys ++ [y]).length % 2 = 0 := by
    rw [List.length_append, List.length_singleton]
    omega
  match hzs : ys ++ [y] with
  | [] => simp at hzs
  | z :: rest =>
      rw [hzs] at hodd
      rw [siblings, if_neg hodd]
      have hlast : (z :: rest).getLast (by simp) = y := by
        simp only [← hzs, List.getLast_concat]
      rw [hlast, ← hzs, up_snoc_even f y ys hys]

/-- Behind an even number of nodes a new one becomes the first left sibling. -/
theorem siblings_snoc_even {ys : List α} (t : α) (hys : ys.length % 2 = 0) :
    siblings f (ys ++ [t]) = t :: siblings f ys := by
  rw [siblings_odd f t hys, siblings_even f hys]

@[simp] theorem siblings_singleton (t : α) : siblings f [t] = [t] := by
  simpa using @siblings_snoc_even α f [] t rfl

/-- Behind an odd number of nodes it is finished together with its sibling. -/
theorem siblings_snoc_odd {ys : List α} (y t : α) (hys : ys.length % 2 = 0) :
    siblings f (ys ++ [y] ++ [t]) = siblings f (up f ys ++ [f y t]) := by
  have heven : (ys ++ [y] ++ [t]).length % 2 = 0 := by
    simp only [List.length_append, List.length_singleton]
    omega
  rw [siblings_even f heven, up_snoc_odd f t y ys hys]

/-! ## §5. The perfect blocks. -/

/-- A list cut from the left into blocks of `2^h` values, one for each height. -/
def blocks : List Nat → List α → List (Nat × List α)
  | [], _ => []
  | h :: hs, xs => (h, xs.take (2 ^ h)) :: blocks hs (xs.drop (2 ^ h))

/-- The roots of the perfect blocks a list splits into by the binary digits of its
length, from the highest digit on; the rightmost and smallest block first. -/
def blockRoots (xs : List α) : List (Option α) :=
  ((blocks xs.length.bitIndices.reverse xs).map fun b => root f b.1 b.2).reverse

theorem pairUp_even {xs : List α} (hx : xs.length % 2 = 0) : pairUp f xs = up f xs := by
  refine even_induction (P := fun xs => pairUp f xs = up f xs) rfl (fun a b xs ih => ?_) xs hx
  rw [pairUp, up, ih]

/-- Blocks one level higher have the roots of the blocks over the paired list. -/
theorem roots_blocks_succ (hs : List Nat) : ∀ xs : List α,
    (blocks (hs.map (· + 1)) xs).map (fun b => root f b.1 b.2) =
      (blocks hs (pairUp f xs)).map (fun b => root f b.1 b.2) := by
  induction hs with
  | nil => exact fun xs => rfl
  | cons h hs ih =>
      intro xs
      have hpow : 2 ^ (h + 1) = 2 * 2 ^ h := by rw [Nat.pow_succ, Nat.mul_comm]
      simp only [List.map_cons, blocks]
      rw [root_succ, hpow, pairUp_take, ih, pairUp_drop]

/-- A last value behind full blocks is a block of its own. -/
theorem blocks_snoc (y : α) (hs : List Nat) : ∀ xs : List α,
    (hs.map (2 ^ ·)).sum = xs.length →
    blocks (hs ++ [0]) (xs ++ [y]) = blocks hs xs ++ [(0, [y])] := by
  induction hs with
  | nil =>
      intro xs hsum
      obtain rfl := List.length_eq_zero_iff.mp hsum.symm
      rfl
  | cons h hs ih =>
      intro xs hsum
      rw [List.map_cons, List.sum_cons] at hsum
      rw [List.cons_append, blocks, blocks, List.take_append_of_le_length (by omega),
        List.drop_append_of_le_length (by omega),
        ih _ (by rw [List.length_drop]; omega), List.cons_append]

/-- **The left siblings of the next leaf are the roots of the perfect blocks**: a
finished pair moves one level up, a single last value is a block already. -/
theorem siblings_eq_blockRoots (n : Nat) : ∀ ys : List α, ys.length ≤ n →
    (siblings f ys).map some = blockRoots f ys := by
  induction n with
  | zero =>
      intro ys hn
      obtain rfl := List.length_eq_zero_iff.mp (Nat.le_zero.mp hn)
      simp [blockRoots, blocks]
  | succ n ih =>
      intro ys hn
      have hshift (m : Nat) : m.bitIndices.reverse.map (· + 1) =
          (m.bitIndices.map (· + 1)).reverse := List.map_reverse
      by_cases hnil : ys = []
      · subst hnil
        simp [blockRoots, blocks]
      have hpos := List.length_pos_iff.mpr hnil
      by_cases hys : ys.length % 2 = 0
      · have hup := ih (up f ys) (by rw [length_up]; omega)
        rw [siblings_even f hys, hup, blockRoots, blockRoots, length_up, ← pairUp_even f hys]
        conv_rhs => rw [show ys.length = 2 * (ys.length / 2) by omega]
        rw [Nat.bitIndices_two_mul, ← hshift, roots_blocks_succ]
      · obtain ⟨zs, y, rfl, hzs⟩ := exists_snoc (by omega : ys.length % 2 = 1)
        rw [List.length_append, List.length_singleton] at hn
        have hup := ih (up f zs) (by rw [length_up]; omega)
        have hlen : (zs ++ [y]).length = 2 * (zs.length / 2) + 1 := by
          rw [List.length_append, List.length_singleton]
          omega
        have hsum : (((zs.length / 2).bitIndices.map (· + 1)).reverse.map (2 ^ ·)).sum
            = zs.length := by
          rw [← Nat.bitIndices_two_mul, List.map_reverse, List.sum_reverse,
            Nat.sum_map_two_pow_bitIndices]
          omega
        rw [siblings_odd f y hzs, List.map_cons, hup, blockRoots, blockRoots, hlen, length_up,
          Nat.bitIndices_two_mul_add_one, List.reverse_cons, blocks_snoc y _ zs hsum,
          List.map_append, List.reverse_append, ← pairUp_even f hzs, ← hshift,
          roots_blocks_succ]
        rfl

@[simp] theorem length_blocks (hs : List Nat) : ∀ xs : List α,
    (blocks hs xs).length = hs.length := by
  induction hs with
  | nil => exact fun xs => rfl
  | cons h hs ih =>
      intro xs
      rw [blocks, List.length_cons, ih, List.length_cons]

/-- One left sibling for each binary digit one of the length. -/
theorem length_siblings (ys : List α) :
    (siblings f ys).length = ys.length.bitIndices.length := by
  have hlen := congrArg List.length (siblings_eq_blockRoots f ys.length ys (Nat.le_refl _))
  simpa [blockRoots] using hlen

/-! ## §6. The joins of a tree. -/

/-- The part of a list the right subtree is over: what the left one leaves, or the
left part again. -/
def rightPart (h : Nat) (xs : List α) : List α :=
  if xs.length ≤ 2 ^ h then xs.take (2 ^ h) else xs.drop (2 ^ h)

/-- The leaves of the tree of height `h` over a list: a missing right part is the
left part again, on every level. -/
def fill : Nat → List α → List α
  | 0, xs => xs.take 1
  | h + 1, xs => fill h (xs.take (2 ^ h)) ++ fill h (rightPart h xs)

end PairTree

end TorSim.Lib
