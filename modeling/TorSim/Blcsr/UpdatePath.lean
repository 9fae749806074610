/-
  TorSim.Blcsr.UpdatePath — what stands on the path `update` returns.

  Behind `n` leaves the path holds one root for each binary digit one of `n`: a
  new leaf is carried up past the odd positions as one is added to a binary
  counter.  Unless `n` is a power of two the root of all the leaves stands behind
  them, where the next call never looks.

  The position is halved by `math.ceil(index / 2)`, whose quotient is a float.
  `Rounded.update` computes it so; up to position `2^53` it is the `update` with
  exact halves, and one further the climb goes wrong.

  Main results:
    * `Rounded.halfUp_eq` / `Rounded.halfUp_lt` — halves are exact up to `2^53`, and
      always below the position.
    * `Rounded.updateLoop_eq` — up to there the two loops agree.
    * `updateLoop_short` — every sibling on the way is read.
    * `update_path_iff` — **the path is the one the digits of `n` say exactly as long as
      `n < 2^53`**.
-/
import TorSim.Blcsr.EfficientMerkleTree
import TorSim.Lib.Float
import Mathlib.Algebra.Order.Ring.Int

namespace TorSim

open TorSim.Lib

namespace EfficientMerkleTree

variable (sha : String → String)

namespace Rounded

/-! ## §1. Halving a position. -/

/-- `math.ceil(index / 2)`: the quotient is a float. -/
def halfUp (index : Nat) : Except Exn Nat := do
  let x ← Double.ofQuotient index 2
  let i ← x.ceil
  return i.toNat

theorem log2_two : Nat.log2 2 = 1 := by decide

/-- Half a position: 53 digits of it are kept. -/
theorem ofFraction_half {i : Nat} (h0 : i ≠ 0) :
    Double.ofFraction false i 2 =
      let e : Int := (Nat.log2 i : Int) - 53
      let s := Double.scale2 i 2 e
      let q := Double.roundDiv s.1 s.2
      let r : Nat × Int := if q = 2 ^ 53 then (2 ^ 52, e + 1) else (q, e)
      if 971 < r.2 then .inf false else .finite false r.1 r.2 := by
  have hself := Nat.log2_self_le h0
  have hscaled : ¬ (Double.scale2 i 2 ((Nat.log2 i : Int) - 53)).1 /
      (Double.scale2 i 2 ((Nat.log2 i : Int) - 53)).2 < 2 ^ 52 := by
    rw [Nat.not_lt]
    unfold Double.scale2
    by_cases hk : (0 : Int) ≤ (Nat.log2 i : Int) - 53
    · rw [if_pos hk]
      obtain ⟨k, hk⟩ := Nat.exists_eq_add_of_le (show 53 ≤ Nat.log2 i by omega)
      rw [hk, show (((53 + k : Nat) : Int) - 53).toNat = k by omega]
      rw [hk, Nat.pow_add] at hself
      have hpos : 0 < 2 ^ k := Nat.pow_pos (by decide)
      rw [Nat.le_div_iff_mul_le (by omega)]
      omega
    · rw [if_neg hk]
      obtain ⟨k, hk⟩ := Nat.exists_eq_add_of_le (show Nat.log2 i ≤ 53 by omega)
      rw [show (-((Nat.log2 i : Int) - 53)).toNat = k by omega]
      have hmul : 2 ^ Nat.log2 i * 2 ^ k ≤ i * 2 ^ k := Nat.mul_le_mul_right _ hself
      rw [← Nat.pow_add, ← hk] at hmul
      show 2 ^ 52 ≤ i * 2 ^ k / 2
      omega
  have he : (Nat.log2 i : Int) - (Nat.log2 2 : Nat) - 52 = (Nat.log2 i : Int) - 53 := by
    rw [log2_two]
    omega
  have hmax : max ((Nat.log2 i : Int) - 53) (-1074) = (Nat.log2 i : Int) - 53 := by omega
  rw [Double.ofFraction, if_neg h0]
  simp only [he, if_neg hscaled, hmax]

/-- A whole float is its own ceiling. -/
theorem ceil_whole (m k : Nat) : (Double.finite false m k).ceil = .ok ((m * 2 ^ k : Nat) : Int) := by
  have hk : (0 : Int) ≤ (k : Int) := Int.natCast_nonneg k
  simp only [Double.ceil, if_pos hk, Bool.false_eq_true, if_false, Int.toNat_natCast]
  rw [Nat.cast_mul, Nat.cast_pow, Nat.cast_ofNat]

/-- An odd number of halves is rounded up. -/
theorem ceil_half (i k : Nat) {e : Int} (he : e = -((k + 1 : Nat) : Int)) :
    (Double.finite false (i * 2 ^ k) e).ceil = .ok (parent i) := by
  have hneg : ¬ 0 ≤ e := by omega
  have hexp : (-e).toNat = k + 1 := by omega
  have hpos : (0 : Int) < 2 ^ k := Int.pow_pos (by decide)
  have hceil : -(-((i * 2 ^ k : Nat) : Int) / 2 ^ (k + 1)) = (parent i : Int) := by
    rw [Int.pow_succ, Int.mul_comm (2 ^ k) 2, Nat.cast_mul, ← Int.neg_mul, Nat.cast_pow,
      Nat.cast_ofNat, Int.mul_ediv_mul_of_pos_left _ _ hpos]
    unfold parent
    omega
  simp only [Double.ceil, if_neg hneg, Bool.false_eq_true, if_false, hexp, hceil]

/-- Below `2^53` half a position is a float. -/
theorem ofQuotient_small {i : Nat} (h0 : i ≠ 0) (hlt : i < 2 ^ 53) : ∃ (k : Nat) (e : Int),
    e = -((k + 1 : Nat) : Int) ∧ Double.ofQuotient i 2 = .ok (.finite false (i * 2 ^ k) e) := by
  have hlog : Nat.log2 i < 53 := (Nat.log2_lt h0).mpr hlt
  obtain ⟨k, hk⟩ := Nat.exists_eq_add_of_le (show Nat.log2 i ≤ 52 by omega)
  refine ⟨k, (Nat.log2 i : Int) - 53, by omega, ?_⟩
  have hscale : Double.scale2 i 2 ((Nat.log2 i : Int) - 53) = (i * 2 ^ (k + 1), 2) := by
    rw [Double.scale2, if_neg (by omega), show (-((Nat.log2 i : Int) - 53)).toNat = k + 1 by omega]
  have hround : Double.roundDiv (i * 2 ^ (k + 1)) 2 = i * 2 ^ k := by
    rw [Nat.pow_succ, ← Nat.mul_assoc, Double.roundDiv]
    simp
  have hq : i * 2 ^ k < 2 ^ 53 := by
    have hmul : i * 2 ^ k < 2 ^ (Nat.log2 i + 1) * 2 ^ k :=
      Nat.mul_lt_mul_of_pos_right Nat.lt_log2_self (Nat.pow_pos (by decide))
    rwa [← Nat.pow_add, show Nat.log2 i + 1 + k = 53 by omega] at hmul
  rw [Double.ofQuotient, ofFraction_half h0]
  simp only [hscale, hround]
  rw [if_neg (Nat.ne_of_lt hq), if_neg (by omega)]

/-- From `2^53` on half a position is rounded to a whole float below it. -/
theorem ofQuotient_large {i : Nat} (hle : 2 ^ 53 ≤ i) {x : Double}
    (h : Double.ofQuotient i 2 = .ok x) :
    ∃ m k : Nat, x = .finite false m k ∧ m * 2 ^ k < i := by
  have h0 : i ≠ 0 := by omega
  have hself := Nat.log2_self_le h0
  obtain ⟨k, hk⟩ := Nat.exists_eq_add_of_le ((Nat.le_log2 h0).mpr hle)
  rw [hk, Nat.pow_add] at hself
  have hpos : 0 < 2 ^ k := Nat.pow_pos (by decide)
  have he : (Nat.log2 i : Int) - 53 = (k : Nat) := by omega
  have hscale : Double.scale2 i 2 (k : Nat) = (i, 2 * 2 ^ k) := by
    rw [Double.scale2, if_pos (by omega), Int.toNat_natCast]
  have hround : Double.roundDiv i (2 * 2 ^ k) ≤ i / (2 * 2 ^ k) + 1 := by
    rw [Double.roundDiv]
    split
    · omega
    · split <;> omega
  have hbound : Double.roundDiv i (2 * 2 ^ k) * 2 ^ k < i := by
    have hmul := Nat.mul_le_mul_right (2 ^ k) hround
    have hdiv : i / (2 * 2 ^ k) * (2 * 2 ^ k) ≤ i := Nat.div_mul_le_self _ _
    rw [← Nat.mul_assoc, Nat.mul_right_comm] at hdiv
    rw [Nat.add_mul] at hmul
    omega
  rw [Double.ofQuotient, ofFraction_half h0, he] at h
  simp only [hscale] at h
  by_cases hfull : Double.roundDiv i (2 * 2 ^ k) = 2 ^ 53
  · -- rounded up to the next power of two: one more exponent
    rw [if_pos hfull] at h
    by_cases hbig : (971 : Int) < (k : Nat) + 1
    · rw [if_pos hbig] at h
      cases h
    · rw [if_neg hbig] at h
      cases h
      refine ⟨2 ^ 52, k + 1, rfl, ?_⟩
      rw [hfull] at hbound
      rw [Nat.pow_succ]
      omega
  · rw [if_neg hfull] at h
    by_cases hbig : (971 : Int) < (k : Nat)
    · rw [if_pos hbig] at h
      cases h
    · rw [if_neg hbig] at h
      cases h
      exact ⟨_, k, rfl, hbound⟩

theorem halfUp_of_quotient {i : Nat} {x : Double} {v : Nat} (hx : Double.ofQuotient i 2 = .ok x)
    (hv : x.ceil = .ok (v : Int)) : halfUp i = .ok v := by
  rw [halfUp, hx]
  show (x.ceil >>= _) = _
  rw [hv]
  rfl

/-- **Up to `2^53` the halving is exact.** -/
theorem halfUp_eq {i : Nat} (h0 : i ≠ 0) (hle : i ≤ 2 ^ 53) : halfUp i = .ok (parent i) := by
  by_cases htop : i = 2 ^ 53
  · subst htop
    decide +kernel
  · obtain ⟨k, e, he, hx⟩ := ofQuotient_small h0 (by omega)
    exact halfUp_of_quotient hx (ceil_half i k he)

/-- Halving a position other than the root's brings it closer to the root. -/
theorem halfUp_lt {i p : Nat} (h2 : 2 ≤ i) (h : halfUp i = .ok p) : p < i := by
  by_cases hle : i ≤ 2 ^ 53
  · rw [halfUp_eq (by omega) hle] at h
    cases h
    unfold parent
    omega
  · cases hx : Double.ofQuotient i 2 with
    | error e =>
        rw [halfUp, hx] at h
        cases h
    | ok x =>
        obtain ⟨m, k, rfl, hlt⟩ := ofQuotient_large (by omega) hx
        rw [halfUp_of_quotient hx (ceil_whole m k)] at h
        cases h
        exact hlt

/-! ## §2. The loop over rounded positions. -/

/-- The loop of `update` with the halving as it is computed. -/
def updateLoop (path : List String) (index : Nat) (tempnode : String) (nextpaths : List String)
    (flag : Int) (pathpoint : Nat) : Except Exn (String × List String) :=
  if _h0 : index < 1 then .error ⟨.runtime, "local variable 'root' referenced before assignment"⟩
  else if _h1 : index = 1 then .ok (tempnode, nextpaths ++ [tempnode])
  else if odd index then
    let nextpaths := if flag = -1 ∨ flag = 0 then nextpaths ++ [tempnode] else nextpaths
    match _hup : halfUp index with
    | .error e => .error e
    | .ok up => updateLoop path up (sha (tempnode ++ tempnode)) nextpaths 1 pathpoint
  else
    match path[pathpoint]? with
    | none => .error ⟨.index, "list index out of range"⟩
    | some node =>
        let nextpaths := if flag = 1 then nextpaths ++ [node] else nextpaths
        let flag := if flag = -1 then 0 else flag
        match _hup : halfUp index with
        | .error e => .error e
        | .ok up => updateLoop path up (sha (node ++ tempnode)) nextpaths flag (pathpoint + 1)
termination_by index
decreasing_by
  all_goals exact halfUp_lt (by omega) (by assumption)

def update (path : List String) (index : Nat) (cm : String) :
    Except Exn (String × List String) :=
  updateLoop sha path index (sha cm) [] (-1) 0

theorem updateLoop_odd {path : List String} {index up : Nat} {t : String} {acc : List String}
    {flag : Int} {pp : Nat} (h1 : index ≠ 1) (hodd : index % 2 = 1)
    (hup : halfUp index = .ok up) :
    updateLoop sha path index t acc flag pp =
      updateLoop sha path up (node sha t t)
        (if flag = -1 ∨ flag = 0 then acc ++ [t] else acc) 1 pp := by
  rw [updateLoop, dif_neg (by omega), dif_neg h1, if_pos (by simpa [odd] using hodd)]
  generalize (if flag = -1 ∨ flag = 0 then acc ++ [t] else acc) = acc
  dsimp only
  split
  · rename_i e herr
    rw [hup] at herr
    cases herr
  · rename_i i hok
    rw [hup] at hok
    cases hok
    rfl

theorem updateLoop_even {path : List String} {index up : Nat} {t y : String}
    {acc : List String} {flag : Int} {pp : Nat} (h0 : index ≠ 0) (heven : index % 2 = 0)
    (hy : path[pp]? = some y) (hup : halfUp index = .ok up) :
    updateLoop sha path index t acc flag pp =
      updateLoop sha path up (node sha y t)
        (if flag = 1 then acc ++ [y] else acc) (if flag = -1 then 0 else flag) (pp + 1) := by
  rw [updateLoop, dif_neg (by omega), dif_neg (by omega), if_neg (by simp [odd, heven])]
  simp only [hy]
  generalize (if flag = 1 then acc ++ [y] else acc) = acc
  generalize (if flag = -1 then 0 else flag) = flag
  split
  · rename_i e herr
    rw [hup] at herr
    cases herr
  · rename_i i hok
    rw [hup] at hok
    cases hok
    rfl

theorem updateLoop_past {path : List String} {index : Nat} {t : String} {acc : List String}
    {flag : Int} {pp : Nat} (h0 : index ≠ 0) (heven : index % 2 = 0) (hend : path[pp]? = none) :
    updateLoop sha path index t acc flag pp = .error ⟨.index, "list index out of range"⟩ := by
  rw [updateLoop, dif_neg (by omega), dif_neg (by omega), if_neg (by simp [odd, heven])]
  simp only [hend]

/-- Up to `2^53` the loop is the one with exact positions. -/
theorem updateLoop_eq (n : Nat) : ∀ (path acc : List String) (index : Nat) (t : String)
    (flag : Int) (pp : Nat), index ≤ n → index ≤ 2 ^ 53 →
    updateLoop sha path index t acc flag pp =
      EfficientMerkleTree.updateLoop sha path index t acc flag pp := by
  induction n with
  | zero =>
      intro path acc index t flag pp hn _
      rw [updateLoop, EfficientMerkleTree.updateLoop, dif_pos (by omega), if_pos (by omega)]
  | succ n ih =>
      intro path acc index t flag pp hn hle
      by_cases h0 : index < 1
      · rw [updateLoop, EfficientMerkleTree.updateLoop, dif_pos h0, if_pos h0]
      by_cases h1 : index = 1
      · rw [updateLoop, EfficientMerkleTree.updateLoop, dif_neg h0, if_neg h0, dif_pos h1,
          if_pos h1]
      have hhalf : halfUp index = .ok (parent index) := halfUp_eq (by omega) hle
      have hup : parent index ≤ n := by
        unfold parent
        omega
      have hup' : parent index ≤ 2 ^ 53 := by
        unfold parent
        omega
      by_cases hodd : index % 2 = 1
      · rw [updateLoop_odd sha h1 hodd hhalf, EfficientMerkleTree.updateLoop_odd sha h1 hodd]
        exact ih _ _ _ _ _ _ hup hup'
      · cases hnode : path[pp]? with
        | none =>
            rw [updateLoop_past sha (by omega) (by omega) hnode,
              EfficientMerkleTree.updateLoop_past sha (by omega) (by omega) hnode]
        | some y =>
            rw [updateLoop_even sha (by omega) (by omega) hnode hhalf,
              EfficientMerkleTree.updateLoop_even sha (by omega) (by omega) hnode]
            exact ih _ _ _ _ _ _ hup hup'

/-- `update` called for one leaf after another, each time on the path returned before:
the last path. -/
def updates (path : List String) (index : Nat) : List String → Except Exn (List String)
  | [] => .ok path
  | cm :: cms => do
      let r ← update sha path index cm
      updates r.2 (index + 1) cms

theorem updates_append (as bs : List String) : ∀ (path : List String) (index : Nat),
    updates sha path index (as ++ bs) =
      (updates sha path index as).bind fun q => updates sha q (index + as.length) bs := by
  induction as with
  | nil => exact fun path index => rfl
  | cons a as ih =>
      intro path index
      rw [List.cons_append, updates, updates]
      cases hr : update sha path index a with
      | error e => rfl
      | ok r =>
          show updates sha r.2 (index + 1) (as ++ bs) = (updates sha r.2 (index + 1) as).bind _
          rw [ih, List.length_cons, Nat.add_right_comm, Nat.add_assoc]

end Rounded

/-! ## §3. The path behind the leaves. -/

/-- The path behind the leaves `cms`: the left siblings of the next leaf, and the root
behind them unless it is one of them. -/
def pathOf (cms : List String) : List String :=
  PairTree.siblings (node sha) (cms.map sha) ++
    if cms.length.isPowerOfTwo then []
    else (PairTree.root (node sha) (Nat.clog 2 cms.length) (cms.map sha)).toList

theorem pathOf_snoc (cms : List String) (cm : String) :
    pathOf sha (cms ++ [cm]) = PairTree.siblings (node sha) ((cms ++ [cm]).map sha)
      ++ behind (cms.length + 1) (PairTree.climb (node sha) (cms.map sha) (sha cm)) := by
  rw [pathOf, root_snoc, behind, List.length_append, List.length_singleton]
  rfl

/-- A path cut short before the last sibling on the way is read past its end. -/
theorem updateLoop_short (n : Nat) : ∀ (path ys acc : List String) (t : String) (flag : Int)
    (pp k : Nat), ys.length ≤ n → k < (PairTree.siblings (node sha) ys).length →
    path.drop pp = (PairTree.siblings (node sha) ys).take k →
    updateLoop sha path (ys.length + 1) t acc flag pp =
      .error ⟨.index, "list index out of range"⟩ := by
  induction n with
  | zero =>
      intro path ys acc t flag pp k hn hk _
      obtain rfl := List.length_eq_zero_iff.mp (Nat.le_zero.mp hn)
      rw [PairTree.siblings_nil] at hk
      exact absurd hk (Nat.not_lt_zero _)
  | succ n ih =>
      intro path ys acc t flag pp k hn hk hpath
      by_cases hnil : ys = []
      · subst hnil
        rw [PairTree.siblings_nil] at hk
        exact absurd hk (Nat.not_lt_zero _)
      have hpos := List.length_pos_iff.mpr hnil
      by_cases hys : ys.length % 2 = 0
      · rw [PairTree.siblings_even _ hys] at hpath hk
        rw [updateLoop_odd sha (by omega) (by omega),
          show parent (ys.length + 1) = (PairTree.up (node sha) ys).length + 1 by
            rw [PairTree.length_up, parent]; omega]
        exact ih _ _ _ _ _ _ k (by rw [PairTree.length_up]; omega) hk hpath
      · obtain ⟨zs, y, rfl, hzs⟩ := PairTree.exists_snoc (by omega : ys.length % 2 = 1)
        rw [List.length_append, List.length_singleton] at hn ⊢
        rw [PairTree.siblings_odd _ y hzs] at hpath hk
        cases k with
        | zero =>
            have hnone : path[pp]? = none := by
              rw [← List.head?_drop, hpath]
              rfl
            exact updateLoop_past sha (by omega) (by omega) hnone
        | succ k =>
            rw [List.length_cons] at hk
            rw [List.take_succ_cons, ← List.append_nil (y :: _)] at hpath
            obtain ⟨hy, hdrop⟩ := getElem?_of_drop hpath
            rw [updateLoop_even sha (by omega) (by omega) hy,
              show parent (zs.length + 1 + 1) = (PairTree.up (node sha) zs).length + 1 by
                rw [PairTree.length_up, parent]; omega]
            exact ih _ _ _ _ _ _ k (by rw [PairTree.length_up]; omega) (by omega)
              (by simpa using hdrop)

/-! ## §4. What a path is, and when it is one. -/

/-- The number of ones among the binary digits of `n`. -/
def popcount (n : Nat) : Nat := n.bitIndices.length

/-- `call` returns and reads the first `k` entries of the path and no other: what stands
behind them makes no difference, and a path that ends among them is read past its end. -/
structure ReadsFirst {β : Type} (call : List String → Except Exn β) (path : List String)
    (k : Nat) : Prop where
  returns : ∃ r, call path = .ok r
  enough : k ≤ path.length
  ignores : ∀ rest, call (path.take k ++ rest) = call path
  needs : ∀ j < k, call (path.take j) = .error ⟨.index, "list index out of range"⟩

/-- The path behind the leaves `cms`: the roots of the perfect blocks, smallest first,
then the root of all the leaves unless their number is a power of two; and what the
next call reads of it. -/
structure IsPath (cms path : List String) : Prop where
  entries : path.map some = PairTree.blockRoots (node sha) (cms.map sha) ++
    if cms.length.isPowerOfTwo then []
    else [PairTree.root (node sha) (Nat.clog 2 cms.length) (cms.map sha)]
  reads : ∀ cm, ReadsFirst (fun p => Rounded.update sha p (cms.length + 1) cm) path
    (popcount cms.length)
  short : path.length ≤ popcount cms.length + 1

theorem length_siblings_map (cms : List String) :
    (PairTree.siblings (node sha) (cms.map sha)).length = popcount cms.length := by
  rw [PairTree.length_siblings, List.length_map, popcount]

theorem Rounded.update_eq_of_le {path : List String} {index : Nat} {cm : String}
    (hle : index ≤ 2 ^ 53) :
    Rounded.update sha path index cm = EfficientMerkleTree.update sha path index cm :=
  Rounded.updateLoop_eq sha index path [] index (sha cm) (-1) 0 (Nat.le_refl _) hle

/-- As long as positions are halved exactly, `updates` keeps the path. -/
theorem updates_pathOf (cms : List String) : ∀ done : List String,
    (done ++ cms).length ≤ 2 ^ 53 →
    Rounded.updates sha (pathOf sha done) (done.length + 1) cms =
      .ok (pathOf sha (done ++ cms)) := by
  induction cms with
  | nil =>
      intro done _
      rw [List.append_nil]
      rfl
  | cons cm cms ih =>
      intro done hle
      have hone : done.length + 1 ≤ 2 ^ 53 := by
        rw [List.length_append, List.length_cons] at hle
        omega
      rw [List.append_cons] at hle ⊢
      have hrest := ih (done ++ [cm]) hle
      rw [List.length_append, List.length_singleton] at hrest
      rw [Rounded.updates, Rounded.update_eq_of_le sha hone, pathOf, update_eq]
      show Rounded.updates sha _ _ _ = _
      rw [← pathOf_snoc, hrest]

/-- The next call reads the siblings, and only them. -/
theorem readsFirst_pathOf {cms : List String} (hlt : cms.length < 2 ^ 53) (cm : String) :
    ReadsFirst (fun p => Rounded.update sha p (cms.length + 1) cm) (pathOf sha cms)
      (popcount cms.length) := by
  have htake : (pathOf sha cms).take (popcount cms.length) =
      PairTree.siblings (node sha) (cms.map sha) := by
    rw [pathOf, ← length_siblings_map sha, List.take_left']
    rfl
  have hexact (p : List String) : Rounded.update sha p (cms.length + 1) cm =
      update sha p (cms.length + 1) cm := Rounded.update_eq_of_le sha hlt
  simp only [hexact]
  refine ⟨⟨_, update_eq sha cms cm _⟩, ?_, fun rest => ?_, fun j hj => ?_⟩
  · rw [pathOf, List.length_append, length_siblings_map]
    omega
  · rw [htake, update_eq, pathOf, update_eq]
  · have hcut : (pathOf sha cms).take j = (PairTree.siblings (node sha) (cms.map sha)).take j := by
      rw [← htake, List.take_take, Nat.min_eq_left (Nat.le_of_lt hj)]
    have hshort := updateLoop_short sha (cms.map sha).length ((pathOf sha cms).take j) (cms.map sha)
      [] (sha cm) (-1) 0 j (Nat.le_refl _) (by rw [length_siblings_map]; exact hj) hcut
    rwa [List.length_map] at hshort

theorem isPath_pathOf {cms : List String} (hne : cms ≠ []) (hlt : cms.length < 2 ^ 53) :
    IsPath sha cms (pathOf sha cms) := by
  obtain ⟨init, last, rfl⟩ : ∃ init last, cms = init ++ [last] :=
    ⟨cms.dropLast, cms.getLast hne, (List.dropLast_concat_getLast hne).symm⟩
  refine ⟨?_, readsFirst_pathOf sha hlt, ?_⟩
  · rw [pathOf, List.map_append, PairTree.siblings_eq_blockRoots _ _ _ (Nat.le_refl _), root_snoc]
    split <;> rfl
  · rw [pathOf, List.length_append, length_siblings_map, root_snoc]
    split <;> simp

/-- Position `2^53 + 1` is halved to `2^52`, its parent being `2^52 + 1`: the climb takes
its left neighbour's way, and one sibling too many. -/
theorem update_too_far (root cm : String) :
    Rounded.update sha [root] (2 ^ 53 + 1) cm = .error ⟨.index, "list index out of range"⟩ := by
  have hodd : Rounded.halfUp (2 ^ 53 + 1) = .ok (2 ^ 52) := by decide +kernel
  have heven : Rounded.halfUp (2 ^ 52) = .ok (2 ^ 51) := by decide +kernel
  rw [Rounded.update, Rounded.updateLoop_odd sha (by decide) (by decide) hodd,
    Rounded.updateLoop_even sha (by decide) (by decide) rfl heven,
    Rounded.updateLoop_past sha (by decide) (by decide) rfl]

/-- Behind `2^53` leaves there is one root on the path. -/
theorem pathOf_top {cms : List String} (hlen : cms.length = 2 ^ 53) :
    ∃ root, pathOf sha cms = [root] := by
  have hone : (PairTree.siblings (node sha) (cms.map sha)).length = 1 := by
    rw [length_siblings_map, hlen, popcount, Nat.bitIndices_two_pow]
    rfl
  obtain ⟨root, hroot⟩ := List.length_eq_one_iff.mp hone
  exact ⟨root, by rw [pathOf, hroot, hlen, if_pos ⟨53, rfl⟩, List.append_nil]⟩

/-- **The path of `update`**: behind `n` leaves it is the one the digits of `n` say, with
all that the next call reads on it, exactly as long as `n < 2^53`. -/
theorem update_path_iff (cms : List String) (hne : cms ≠ []) :
    (∃ path, Rounded.updates sha [] 1 cms = .ok path ∧ IsPath sha cms path) ↔
      cms.length < 2 ^ 53 := by
  constructor
  · rintro ⟨path, hrun, hpath⟩
    by_contra hlt
    -- behind the first 2^53 leaves the next call fails, be it one of the run or not
    have hcut : (cms.take (2 ^ 53)).length = 2 ^ 53 := by
      rw [List.length_take]
      omega
    have hfirst : Rounded.updates sha [] 1 (cms.take (2 ^ 53)) =
        .ok (pathOf sha (cms.take (2 ^ 53))) := by
      simpa [pathOf] using updates_pathOf sha (cms.take (2 ^ 53)) [] (Nat.le_of_eq hcut)
    obtain ⟨root, hroot⟩ := pathOf_top sha hcut
    rw [← List.take_append_drop (2 ^ 53) cms, Rounded.updates_append, hfirst, hroot, hcut] at hrun
    cases hrest : cms.drop (2 ^ 53) with
    | nil =>
        rw [hrest] at hrun
        cases hrun
        have hlen : cms.length = 2 ^ 53 := by
          have := List.drop_eq_nil_iff.mp hrest
          omega
        obtain ⟨r, hr⟩ := (hpath.reads "").returns
        rw [hlen, update_too_far] at hr
        cases hr
    | cons cm rest =>
        rw [hrest] at hrun
        have hfail : Rounded.updates sha [root] (1 + 2 ^ 53) (cm :: rest) =
            .error ⟨.index, "list index out of range"⟩ := by
          rw [Rounded.updates, Nat.add_comm, update_too_far]
          rfl
        change Rounded.updates sha [root] (1 + 2 ^ 53) (cm :: rest) = _ at hrun
        rw [hfail] at hrun
        cases hrun
  · intro hlt
    refine ⟨pathOf sha cms, ?_, isPath_pathOf sha hne hlt⟩
    simpa [pathOf] using updates_pathOf sha cms [] (by simpa using Nat.le_of_lt hlt)

/-- Seven leaves, three blocks. -/
theorem update_path_seven :
    (∃ path, Rounded.updates (fun s => s.push '#') [] 1 ["0", "1", "2", "3", "4", "5", "6"] =
        .ok path ∧ IsPath (fun s => s.push '#') ["0", "1", "2", "3", "4", "5", "6"] path) ↔
      7 < 2 ^ 53 :=
  update_path_iff (fun s => s.push '#') ["0", "1", "2", "3", "4", "5", "6"] (by decide)

/-- `2^53` equal leaves: the path is right, the call on it fails. -/
theorem update_path_top :
    ∃ root, Rounded.updates (fun s => s.push '#') [] 1 (List.replicate (2 ^ 53) "0") = .ok [root] ∧
      Rounded.update (fun s => s.push '#') [root] (2 ^ 53 + 1) "0" =
        .error ⟨.index, "list index out of range"⟩ ∧
      ¬ IsPath (fun s => s.push '#') (List.replicate (2 ^ 53) "0") [root] := by
  have hlen : (List.replicate (2 ^ 53) "0").length = 2 ^ 53 := List.length_replicate
  generalize List.replicate (2 ^ 53) "0" = cms at hlen
  obtain ⟨root, hroot⟩ := pathOf_top (fun s => s.push '#') hlen
  refine ⟨root, ?_, update_too_far _ root "0", fun hpath => ?_⟩
  · rw [← hroot]
    simpa [pathOf] using updates_pathOf (fun s => s.push '#') cms [] (Nat.le_of_eq hlen)
  · obtain ⟨r, hr⟩ := (hpath.reads "0").returns
    rw [hlen, update_too_far] at hr
    cases hr

end EfficientMerkleTree

end TorSim
