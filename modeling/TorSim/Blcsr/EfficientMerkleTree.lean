/-
  TorSim.Blcsr.EfficientMerkleTree — a Merkle root from a path, leaf by leaf.

  `merkletree` hashes a whole list from the top, padding it to a power of two
  and letting a missing right half be the left one again.  `update` adds one
  leaf to a path of left siblings and climbs to the root, keeping with a
  three-valued flag the siblings the next leaf will need.  Positions are small
  enough for the halving `math.ceil(index / 2)` to be exact; `UpdatePath` has the
  rounded one.

  Main results:
    * `merkletree_eq_root` — the padded recursion computes the pair tree.
    * `updateLoop_climb` / `updateLoop_late` — the two phases of the loop, before
      and after the first odd position.
    * `update_roots` — **each update returns the root of the leaves so far**.
-/
import TorSim.Lib.PairTree
import TorSim.Lib.Comp

namespace TorSim

open TorSim.Lib

namespace EfficientMerkleTree

variable (sha : String → String)

/-! ## §1. The two functions. -/

/-- The least power of two that is not below `n`; the float logarithm is exact enough
for lists shorter than `2^29`. -/
def ceillog (n : Nat) : Nat := 2 ^ Nat.clog 2 n

def odd (x : Nat) : Bool := x % 2 == 1

/-- `math.ceil(index / 2)`. -/
def parent (index : Nat) : Nat := (index + 1) / 2

/-- The loop of `update`.  `flag` is `-1` at the leaf, `0` while all positions were
even, `1` once one was odd. -/
def updateLoop (path : List String) (index : Nat) (tempnode : String) (nextpaths : List String)
    (flag : Int) (pathpoint : Nat) : Except Exn (String × List String) :=
  if index < 1 then .error ⟨.runtime, "local variable 'root' referenced before assignment"⟩
  else if index = 1 then .ok (tempnode, nextpaths ++ [tempnode])
  else if odd index then
    let nextpaths := if flag = -1 ∨ flag = 0 then nextpaths ++ [tempnode] else nextpaths
    updateLoop path (parent index) (sha (tempnode ++ tempnode)) nextpaths 1 pathpoint
  else
    match path[pathpoint]? with
    | none => .error ⟨.index, "list index out of range"⟩
    | some node =>
        let nextpaths := if flag = 1 then nextpaths ++ [node] else nextpaths
        let flag := if flag = -1 then 0 else flag
        updateLoop path (parent index) (sha (node ++ tempnode)) nextpaths flag (pathpoint + 1)
termination_by index
decreasing_by
  all_goals
    unfold parent
    omega

def update (path : List String) (index : Nat) (cm : String) :
    Except Exn (String × List String) :=
  updateLoop sha path index (sha cm) [] (-1) 0

/-- Halving a padded list makes it shorter. -/
theorem half_lt {n : Nat} (h : ceillog n ≠ 1) : ceillog n / 2 < n := by
  have hlog : Nat.clog 2 n ≠ 0 := by
    intro h'
    rw [ceillog, h'] at h
    exact h rfl
  have hlt : 2 ^ (Nat.clog 2 n).pred < n :=
    Nat.pow_pred_clog_lt_self (by decide) (by
      by_contra hle
      exact hlog (Nat.clog_of_right_le_one (Nat.le_of_not_lt hle) 2))
  obtain ⟨k, hk⟩ := Nat.exists_eq_succ_of_ne_zero hlog
  rw [ceillog, hk, Nat.pow_succ]
  rw [hk] at hlt
  simpa using hlt

/-- `left + right` with `left` possibly `None`. -/
def concat (left : Option String) (right : String) : Except Exn String :=
  match left with
  | some l => .ok (l ++ right)
  | none => .error ⟨.type, "unsupported operand type(s) for +: 'NoneType' and 'str'"⟩

/-- `right or left`: `None` and the empty string are false. -/
def orElse (right left : Option String) : Option String :=
  match right with
  | some r => if r = "" then left else some r
  | none => left

def merkletree (cms : List (Option String)) : Except Exn (Option String) :=
  if hlen : cms.length = 0 then .ok none
  else if hone : ceillog cms.length = 1 then
    match cms.head? with
    | some (some cm) => .ok (some (sha cm))
    | _ => .ok none
  else do
    let padded := cms ++ List.replicate (ceillog cms.length - cms.length) none
    let mid := ceillog cms.length / 2
    let left ← merkletree (padded.take mid)
    let right ← merkletree (padded.drop mid)
    match orElse right left with
    | none => return none
    | some right => do
        let both ← concat left right
        return some (sha both)
termination_by cms.length
decreasing_by
  · have hmid := half_lt hone
    rw [List.length_take]
    omega
  · have hmid := half_lt hone
    have hge : cms.length ≤ ceillog cms.length := Nat.le_pow_clog (by decide) _
    have heven : 2 * (ceillog cms.length / 2) = ceillog cms.length := by
      have hlog : Nat.clog 2 cms.length ≠ 0 := by
        intro h'
        exact hone (by simp [ceillog, h'])
      obtain ⟨k, hk⟩ := Nat.exists_eq_succ_of_ne_zero hlog
      rw [ceillog, hk, Nat.pow_succ]
      omega
    rw [List.length_drop, List.length_append, List.length_replicate]
    omega

/-- `update` folded over the leaves, from position `index` on: the roots. -/
def updateAll (path : List String) (index : Nat) : List String → Except Exn (List String)
  | [] => .ok []
  | cm :: cms => do
      let r ← update sha path index cm
      let roots ← updateAll r.2 (index + 1) cms
      return r.1 :: roots

/-! ## §2. The padded recursion. -/

/-- One hash of two nodes, the joining operation of the tree. -/
def node (a b : String) : String := sha (a ++ b)

/-- The argument `merkletree` recurses on: `2^h` entries, the last ones missing. -/
def padded (h : Nat) (cms : List String) : List (Option String) :=
  cms.map some ++ List.replicate (2 ^ h - cms.length) none

@[simp] theorem ceillog_pow (h : Nat) : ceillog (2 ^ h) = 2 ^ h := by
  rw [ceillog, Nat.clog_pow 2 h (by decide)]

theorem length_padded {h : Nat} {cms : List String} (hle : cms.length ≤ 2 ^ h) :
    (padded h cms).length = 2 ^ h := by
  rw [padded, List.length_append, List.length_map, List.length_replicate]
  omega

theorem take_padded {h : Nat} {cms : List String} :
    (padded (h + 1) cms).take (2 ^ h) = padded h (cms.take (2 ^ h)) := by
  rw [padded, padded, List.take_append, List.length_map, List.map_take, List.take_replicate,
    List.length_take]
  congr 2
  rw [Nat.pow_succ]
  omega

theorem drop_padded {h : Nat} {cms : List String} :
    (padded (h + 1) cms).drop (2 ^ h) = padded h (cms.drop (2 ^ h)) := by
  rw [padded, padded, List.drop_append, List.length_map, List.map_drop, List.drop_replicate,
    List.length_drop]
  congr 2
  rw [Nat.pow_succ]
  omega

/-- One call on a full power of two from the second level on. -/
theorem merkletree_pow_succ {h : Nat} {cms : List (Option String)}
    (hlen : cms.length = 2 ^ (h + 1)) :
    merkletree sha cms = (do
      let left ← merkletree sha (cms.take (2 ^ h))
      let right ← merkletree sha (cms.drop (2 ^ h))
      match orElse right left with
      | none => return none
      | some right => do
          let both ← concat left right
          return some (sha both)) := by
  have hpos : 0 < 2 ^ h := Nat.pow_pos (by decide)
  have h0 : cms.length ≠ 0 := by
    rw [hlen, Nat.pow_succ]
    omega
  have h1 : ceillog cms.length ≠ 1 := by
    rw [hlen, ceillog_pow, Nat.pow_succ]
    omega
  have hmid : ceillog cms.length / 2 = 2 ^ h := by
    rw [hlen, ceillog_pow, Nat.pow_succ]
    omega
  have hpad : List.replicate (ceillog cms.length - cms.length) (none : Option String) = [] := by
    rw [hlen, ceillog_pow, Nat.sub_self, List.replicate_zero]
  rw [merkletree, dif_neg h0, dif_neg h1]
  simp only [hmid, hpad, List.append_nil]

/-- Padding first changes nothing. -/
theorem merkletree_padded {cms : List String} (hne : cms ≠ []) :
    merkletree sha (cms.map some) = merkletree sha (padded (Nat.clog 2 cms.length) cms) := by
  have hle : cms.length ≤ 2 ^ Nat.clog 2 cms.length := Nat.le_pow_clog (by decide) _
  cases hlog : Nat.clog 2 cms.length with
  | zero =>
      rw [hlog] at hle
      rw [padded, show 2 ^ 0 - cms.length = 0 by
        have := List.length_pos_iff.mpr hne
        omega, List.replicate_zero, List.append_nil]
  | succ h =>
      have hl : ceillog (cms.map some).length = 2 ^ (h + 1) := by
        rw [List.length_map, ceillog, hlog]
      have h0 : (cms.map some).length ≠ 0 := by simpa using hne
      have h1 : ceillog (cms.map some).length ≠ 1 := by
        have : 0 < 2 ^ h := Nat.pow_pos (by decide)
        rw [hl, Nat.pow_succ]
        omega
      have hmid : ceillog (cms.map some).length / 2 = 2 ^ h := by
        rw [hl, Nat.pow_succ]
        omega
      rw [merkletree_pow_succ sha (length_padded (hlog ▸ hle)), merkletree, dif_neg h0,
        dif_neg h1, hmid, hl, List.length_map]
      rfl

section

variable (hsha : ∀ s, sha s ≠ "")

include hsha

/-- A computed right subtree is never taken for a missing one. -/
theorem orElse_root {h : Nat} {xs : List String} (left : Option String) :
    orElse (PairTree.root (node sha) h (xs.map sha)) left =
      (PairTree.root (node sha) h (xs.map sha)).or left := by
  cases hr : PairTree.root (node sha) h (xs.map sha) with
  | none => rfl
  | some r =>
      have hne : r ≠ "" := PairTree.root_all (node sha) (P := (· ≠ "")) (fun a b => hsha _) h (fun x hx => by
          obtain ⟨c, -, rfl⟩ := List.mem_map.mp hx
          exact hsha c) hr
      rw [orElse, if_neg hne, Option.some_or]

/-- **The padded recursion computes the pair tree** over the hashed leaves. -/
theorem merkletree_eq_root (h : Nat) : ∀ cms : List String, cms.length ≤ 2 ^ h →
    merkletree sha (padded h cms) = .ok (PairTree.root (node sha) h (cms.map sha)) := by
  induction h with
  | zero =>
      intro cms hle
      have hlen := length_padded hle
      rw [merkletree, dif_neg (by rw [hlen]; decide),
        dif_pos (by rw [hlen]; exact (ceillog_pow 0).trans (by decide))]
      match cms, hle with
      | [], _ => rfl
      | [c], _ => rfl
  | succ h ih =>
      intro cms hle
      have hpow : 2 ^ (h + 1) = 2 ^ h + 2 ^ h := by
        rw [Nat.pow_succ]
        omega
      have hleft : (cms.take (2 ^ h)).length ≤ 2 ^ h := by
        rw [List.length_take]
        omega
      have hright : (cms.drop (2 ^ h)).length ≤ 2 ^ h := by
        rw [List.length_drop]
        omega
      rw [merkletree_pow_succ sha (length_padded hle), take_padded, drop_padded, ih _ hleft,
        ih _ hright, PairTree.root, List.map_take, List.map_drop]
      show (match orElse _ _ with | none => _ | some right => _) = _
      rw [← List.map_drop, orElse_root sha hsha, List.map_drop]
      cases hl : PairTree.root (node sha) h ((cms.map sha).take (2 ^ h)) with
      | none =>
          -- no leaf on the left leaves none on the right
          have hnil : cms.map sha = [] := by
            have hpos : 2 ^ h ≠ 0 := Nat.ne_of_gt (Nat.pow_pos (by decide))
            simpa [hpos] using (PairTree.root_eq_none_iff (node sha) h _).mp hl
          rw [hnil, List.drop_nil, PairTree.root_nil]
          rfl
      | some l =>
          cases PairTree.root (node sha) h ((cms.map sha).drop (2 ^ h)) with
          | none => rfl
          | some r => rfl

/-- The root `merkletree` returns for a fresh list of leaves. -/
theorem merkletree_eq (cms : List String) (hne : cms ≠ []) :
    merkletree sha (cms.map some) =
      .ok (PairTree.root (node sha) (Nat.clog 2 cms.length) (cms.map sha)) := by
  rw [merkletree_padded sha hne]
  exact merkletree_eq_root sha hsha _ cms (Nat.le_pow_clog (by decide) _)

end

/-! ## §3. The loop of `update`. -/

/-- The loop at an odd position other than the root's. -/
theorem updateLoop_odd {path : List String} {index : Nat} {t : String} {acc : List String}
    {flag : Int} {pp : Nat} (h1 : index ≠ 1) (hodd : index % 2 = 1) :
    updateLoop sha path index t acc flag pp =
      updateLoop sha path (parent index) (node sha t t)
        (if flag = -1 ∨ flag = 0 then acc ++ [t] else acc) 1 pp := by
  rw [updateLoop, if_neg (by omega), if_neg h1, if_pos (by simpa [odd] using hodd)]
  rfl

/-- The loop at an even position whose left sibling is on the path. -/
theorem updateLoop_even {path : List String} {index : Nat} {t y : String} {acc : List String}
    {flag : Int} {pp : Nat} (h0 : index ≠ 0) (heven : index % 2 = 0)
    (hy : path[pp]? = some y) :
    updateLoop sha path index t acc flag pp =
      updateLoop sha path (parent index) (node sha y t)
        (if flag = 1 then acc ++ [y] else acc) (if flag = -1 then 0 else flag) (pp + 1) := by
  rw [updateLoop, if_neg (by omega), if_neg (by omega), if_neg (by simp [odd, heven])]
  simp only [hy]
  rfl

/-- The loop at an even position with the path at its end. -/
theorem updateLoop_past {path : List String} {index : Nat} {t : String} {acc : List String}
    {flag : Int} {pp : Nat} (h0 : index ≠ 0) (heven : index % 2 = 0) (hend : path[pp]? = none) :
    updateLoop sha path index t acc flag pp = .error ⟨.index, "list index out of range"⟩ := by
  rw [updateLoop, if_neg (by omega), if_neg (by omega), if_neg (by simp [odd, heven])]
  simp only [hend]

theorem updateLoop_one {path : List String} {t : String} {acc : List String} {flag : Int}
    {pp : Nat} : updateLoop sha path 1 t acc flag pp = .ok (t, acc ++ [t]) := by
  rw [updateLoop, if_neg (by omega), if_pos rfl]

/-- The first of the siblings left on the path, and the ones behind it. -/
theorem getElem?_of_drop {path ss junk : List String} {pp : Nat} {y : String}
    (h : path.drop pp = y :: ss ++ junk) :
    path[pp]? = some y ∧ path.drop (pp + 1) = ss ++ junk := by
  constructor
  · rw [← List.head?_drop, h]
    rfl
  · rw [← List.tail_drop, h]
    rfl

/-- **After an odd position**: the left siblings still on the way are kept, the
loop climbs on to the root and puts it behind them. -/
theorem updateLoop_late (n : Nat) : ∀ (path ys junk acc : List String) (t : String) (pp : Nat),
    ys.length ≤ n → path.drop pp = PairTree.siblings (node sha) ys ++ junk →
    updateLoop sha path (ys.length + 1) t acc 1 pp =
      .ok (PairTree.climb (node sha) ys t,
        acc ++ PairTree.siblings (node sha) ys ++ [PairTree.climb (node sha) ys t]) := by
  induction n with
  | zero =>
      intro path ys junk acc t pp hn _
      obtain rfl := List.length_eq_zero_iff.mp (Nat.le_zero.mp hn)
      simp [updateLoop_one]
  | succ n ih =>
      intro path ys junk acc t pp hn hpath
      by_cases hnil : ys = []
      · subst hnil
        simp [updateLoop_one]
      · have hpos := List.length_pos_iff.mpr hnil
        by_cases hys : ys.length % 2 = 0
        · rw [PairTree.siblings_even _ hys] at hpath ⊢
          rw [updateLoop_odd sha (by omega) (by omega), PairTree.climb_even _ hnil hys,
            show parent (ys.length + 1) = (PairTree.up (node sha) ys).length + 1 by
              rw [PairTree.length_up, parent]; omega]
          exact ih _ _ junk _ _ _ (by rw [PairTree.length_up]; omega) hpath
        · obtain ⟨zs, y, rfl, hzs⟩ := PairTree.exists_snoc (by omega : ys.length % 2 = 1)
          rw [List.length_append, List.length_singleton] at hn hys ⊢
          rw [PairTree.siblings_odd _ y hzs] at hpath ⊢
          obtain ⟨hy, hdrop⟩ := getElem?_of_drop hpath
          rw [updateLoop_even sha (by omega) (by omega) hy, PairTree.climb_odd _ y t hzs,
            show parent (zs.length + 1 + 1) = (PairTree.up (node sha) zs).length + 1 by
              rw [PairTree.length_up, parent]; omega]
          have hrest := ih path _ junk (acc ++ [y]) (node sha y t) (pp + 1)
            (by rw [PairTree.length_up]; omega) hdrop
          rw [if_pos rfl, if_neg (by decide), hrest]
          simp

theorem isPowerOfTwo_two_mul {m : Nat} : (2 * m).isPowerOfTwo ↔ m.isPowerOfTwo := by
  constructor
  · rintro ⟨k, hk⟩
    cases k with
    | zero => omega
    | succ k => exact ⟨k, by rw [Nat.pow_succ] at hk; omega⟩
  · rintro ⟨k, rfl⟩
    exact ⟨k + 1, by rw [Nat.pow_succ]; omega⟩

theorem not_isPowerOfTwo_odd {m : Nat} (hm : m ≠ 0) : ¬ (2 * m + 1).isPowerOfTwo := by
  rintro ⟨k, hk⟩
  cases k with
  | zero => omega
  | succ k =>
      rw [Nat.pow_succ] at hk
      omega

/-- What stands behind the siblings on the path: the root, unless it is the one
sibling already. -/
def behind (n : Nat) (root : String) : List String := if n.isPowerOfTwo then [] else [root]

/-- **Until an odd position**: the loop climbs to the root and keeps the left
siblings of the leaf that comes next. -/
theorem updateLoop_climb (n : Nat) : ∀ (path ys junk acc : List String) (t : String) (pp : Nat)
    (flag : Int), ys.length ≤ n → (flag = -1 ∨ flag = 0) →
    path.drop pp = PairTree.siblings (node sha) ys ++ junk →
    updateLoop sha path (ys.length + 1) t acc flag pp =
      .ok (PairTree.climb (node sha) ys t,
        acc ++ PairTree.siblings (node sha) (ys ++ [t])
          ++ behind (ys.length + 1) (PairTree.climb (node sha) ys t)) := by
  have hone : Nat.isPowerOfTwo (0 + 1) := ⟨0, rfl⟩
  induction n with
  | zero =>
      intro path ys junk acc t pp flag hn _ _
      obtain rfl := List.length_eq_zero_iff.mp (Nat.le_zero.mp hn)
      rw [List.length_nil, behind, if_pos hone]
      simp [updateLoop_one]
  | succ n ih =>
      intro path ys junk acc t pp flag hn hflag hpath
      by_cases hnil : ys = []
      · subst hnil
        rw [List.length_nil, behind, if_pos hone]
        simp [updateLoop_one]
      · have hpos := List.length_pos_iff.mpr hnil
        by_cases hys : ys.length % 2 = 0
        · rw [PairTree.siblings_snoc_even _ t hys]
          rw [PairTree.siblings_even _ hys] at hpath ⊢
          rw [updateLoop_odd sha (by omega) (by omega), PairTree.climb_even _ hnil hys,
            show parent (ys.length + 1) = (PairTree.up (node sha) ys).length + 1 by
              rw [PairTree.length_up, parent]; omega, if_pos hflag]
          have hrest := updateLoop_late sha n path _ junk (acc ++ [t])
            (node sha t t) pp (by rw [PairTree.length_up]; omega) hpath
          -- an odd position above the first: the root comes behind
          rw [hrest, behind, show ys.length + 1 = 2 * (ys.length / 2) + 1 by omega,
            if_neg (not_isPowerOfTwo_odd (by omega))]
          simp
        · obtain ⟨zs, y, rfl, hzs⟩ := PairTree.exists_snoc (by omega : ys.length % 2 = 1)
          rw [PairTree.siblings_snoc_odd _ y t hzs]
          rw [List.length_append, List.length_singleton] at hn hys ⊢
          rw [PairTree.siblings_odd _ y hzs] at hpath
          obtain ⟨hy, hdrop⟩ := getElem?_of_drop hpath
          have hlate : flag ≠ 1 := by omega
          rw [updateLoop_even sha (by omega) (by omega) hy, PairTree.climb_odd _ y t hzs,
            show parent (zs.length + 1 + 1) = (PairTree.up (node sha) zs).length + 1 by
              rw [PairTree.length_up, parent]; omega, if_neg hlate]
          have hrest := ih path _ junk acc (node sha y t) (pp + 1) (if flag = -1 then 0 else flag)
            (by rw [PairTree.length_up]; omega) (by split <;> omega) hdrop
          have hhalf : behind (zs.length + 1 + 1) = behind ((PairTree.up (node sha) zs).length + 1) := by
            funext r
            rw [behind, behind, PairTree.length_up,
              show zs.length + 1 + 1 = 2 * (zs.length / 2 + 1) by omega]
            simp only [isPowerOfTwo_two_mul]
          rw [hrest, hhalf]

/-! ## §4. The two agree. -/

/-- A call of `update` on the path the leaves before left behind. -/
theorem update_eq (cms : List String) (cm : String) (junk : List String) :
    update sha (PairTree.siblings (node sha) (cms.map sha) ++ junk) (cms.length + 1) cm =
      .ok (PairTree.climb (node sha) (cms.map sha) (sha cm),
        PairTree.siblings (node sha) ((cms ++ [cm]).map sha)
          ++ behind (cms.length + 1) (PairTree.climb (node sha) (cms.map sha) (sha cm))) := by
  have h := updateLoop_climb sha (cms.map sha).length
    (PairTree.siblings (node sha) (cms.map sha) ++ junk) _ junk [] (sha cm) 0 (-1)
    (Nat.le_refl _) (.inl rfl) rfl
  rw [List.length_map] at h
  simpa [update] using h

/-- The top of the climb is the root of all the leaves. -/
theorem root_snoc (cms : List String) (cm : String) :
    PairTree.root (node sha) (Nat.clog 2 (cms ++ [cm]).length) ((cms ++ [cm]).map sha) =
      some (PairTree.climb (node sha) (cms.map sha) (sha cm)) := by
  rw [List.length_append, List.length_singleton, List.map_append, List.map_singleton]
  have hle : cms.length + 1 ≤ 2 ^ Nat.clog 2 (cms.length + 1) := Nat.le_pow_clog (by decide) _
  have hlt : 2 ^ Nat.clog 2 (cms.length + 1) < 2 * (cms.length + 1) := by
    cases hlog : Nat.clog 2 (cms.length + 1) with
    | zero => omega
    | succ k =>
        have hone : 1 < cms.length + 1 := by
          by_contra hle
          rw [Nat.clog_of_right_le_one (Nat.le_of_not_lt hle)] at hlog
          exact Nat.noConfusion hlog
        have hpred := Nat.pow_pred_clog_lt_self (b := 2) (by decide) hone
        rw [hlog, Nat.pred_succ] at hpred
        rw [Nat.pow_succ]
        omega
  exact PairTree.root_climb (node sha) _ (cms.map sha) (sha cm)
    (by rwa [List.length_map]) (by rwa [List.length_map])

/-- The fold from any point on: behind `done` leaves, the roots of what follows. -/
theorem updateAll_roots (hsha : ∀ s, sha s ≠ "") (cms : List String) :
    ∀ (done junk : List String), ∃ roots,
      updateAll sha (PairTree.siblings (node sha) (done.map sha) ++ junk) (done.length + 1) cms =
        .ok roots ∧
      List.Forall₂ (fun i root =>
          merkletree sha (((done ++ cms).take i).map some) = .ok (some root))
        (List.range' (done.length + 1) cms.length) roots := by
  induction cms with
  | nil => exact fun done junk => ⟨[], rfl, .nil⟩
  | cons cm cms ih =>
      intro done junk
      have hupdate := update_eq sha done cm junk
      obtain ⟨roots, hall, hroots⟩ := ih (done ++ [cm])
        (behind (done.length + 1) (PairTree.climb (node sha) (done.map sha) (sha cm)))
      rw [List.length_append, List.length_singleton] at hall hroots
      refine ⟨PairTree.climb (node sha) (done.map sha) (sha cm) :: roots, ?_, ?_⟩
      · rw [updateAll, hupdate]
        show (updateAll sha _ _ _ >>= _) = _
        rw [hall]
        rfl
      · rw [List.length_cons, List.range'_succ]
        refine .cons ?_ (by simpa using hroots)
        have htake : (done ++ cm :: cms).take (done.length + 1) = done ++ [cm] := by
          rw [List.take_append, List.take_of_length_le (by omega)]
          simp
        rw [htake, merkletree_eq sha hsha _ (by simp), root_snoc]

/-- **Leaf by leaf, `update` returns the root of the leaves so far**: after each
step the same string as `merkletree` on a fresh copy of the first leaves. -/
theorem update_roots (hsha : ∀ s, sha s ≠ "") (cms : List String) :
    ∃ roots, updateAll sha [] 1 cms = .ok roots ∧
      List.Forall₂ (fun i root => merkletree sha ((cms.take i).map some) = .ok (some root))
        (List.range' 1 cms.length) roots := by
  simpa using updateAll_roots sha hsha cms [] []

/-- Five leaves under a function that only marks what it hashed. -/
theorem update_roots_five :
    ∃ roots, updateAll (fun s => s.push '#') [] 1 ["0", "1", "2", "3", "4"] = .ok roots ∧
      List.Forall₂ (fun i root =>
          merkletree (fun s => s.push '#') ((["0", "1", "2", "3", "4"].take i).map some) =
            .ok (some root))
        (List.range' 1 5) roots :=
  update_roots (fun s => s.push '#') (fun s => by simp) ["0", "1", "2", "3", "4"]

end EfficientMerkleTree

end TorSim
