/-
  TorSim.Utils.SendTx — the senders of an experiment and the count it waits for.

  Each chain's sender marks `int(xtxratio * txnum)` of its transactions, shuffles
  the marks and replaces every one of them, in place, by a random other chain.
  The experiment waits for `int(chainnum * txnum * xtxratio)`.  Ratios are exact
  rationals here, and every outcome of the random calls is a value of `Choices`.

  Main results:
    * `rewrite_get` — the loop over the list in place visits every mark once.
    * `sendTxChain_dsts` — what one chain sends.
    * `sendTxProc_total` — all chains together send `chainnum` times the truncated
      product.
    * `sent_eq_target_iff` — **when that is what the experiment waits for**.
-/
import TorSim.Blockchain.Chain
import Mathlib.Data.Rat.Floor

namespace TorSim

open TorSim.Lib

/-! ## §1. The setting. -/

structure TestSetting where
  chainnum : Nat
  txnum : Nat
  xtxratio : ℚ

/-- `int(x)` cuts off towards zero. -/
def truncate (x : ℚ) : Int := if x < 0 then ⌈x⌉ else ⌊x⌋

namespace TestSetting

def xtxTarget (setting : TestSetting) : Int :=
  truncate (setting.chainnum * setting.txnum * setting.xtxratio * 1)

/-- The number of cross-chain transactions of one chain. -/
def xtxnum (setting : TestSetting) : Int := truncate (setting.xtxratio * setting.txnum)

end TestSetting

theorem truncate_of_nonneg {x : ℚ} (h : 0 ≤ x) : truncate x = ⌊x⌋ := by
  rw [truncate, if_neg (not_lt.mpr h)]

/-! ## §2. The random choices. -/

/-- One outcome of the random calls of a sender: the shuffled list, and for every
index what `random.randint(0, chainnum - 1)` gives until it is another chain. -/
structure Choices (chainnum paraid : Nat) where
  sample : List Int → List Int
  sample_perm : ∀ dsts, (sample dsts).Perm dsts
  draws : Nat → List Nat
  draws_lt : ∀ i, ∀ x ∈ draws i, x < chainnum
  draws_end : ∀ i, ∃ x ∈ draws i, x ≠ paraid

namespace Choices

variable {chainnum paraid : Nat}

theorem pick_isSome (c : Choices chainnum paraid) (i : Nat) :
    ((c.draws i).find? (fun x => x ≠ paraid)).isSome := by
  obtain ⟨x, hx, hne⟩ := c.draws_end i
  rw [List.find?_isSome]
  exact ⟨x, hx, by simpa using hne⟩

/-- `while True: x = random.randint(...); if x != paraid: break`. -/
def pick (c : Choices chainnum paraid) (i : Nat) : Nat :=
  ((c.draws i).find? (fun x => x ≠ paraid)).get (c.pick_isSome i)

theorem pick_spec (c : Choices chainnum paraid) (i : Nat) :
    c.pick i < chainnum ∧ c.pick i ≠ paraid := by
  have hfind : (c.draws i).find? (fun x => x ≠ paraid) = some (c.pick i) := by
    rw [pick, Option.some_get]
  refine ⟨c.draws_lt i _ (List.mem_of_find?_eq_some hfind), ?_⟩
  simpa using List.find?_some hfind

/-- The list as it is, and the chains in order: there is always another chain. -/
def inOrder (h : 2 ≤ chainnum) (paraid : Nat) : Choices chainnum paraid where
  sample dsts := dsts
  sample_perm _ := List.Perm.refl _
  draws _ := List.range chainnum
  draws_lt _ _ hx := List.mem_range.mp hx
  draws_end _ := by
    by_cases h0 : paraid = 0
    · exact ⟨1, List.mem_range.mpr (by omega), by omega⟩
    · exact ⟨0, List.mem_range.mpr (by omega), by omega⟩

end Choices

/-! ## §3. One sender. -/

namespace SendTx

/-- `[-1] * (txnum - xtxnum) + [1] * xtxnum`. -/
def marks (setting : TestSetting) : List Int :=
  List.replicate (setting.txnum - setting.xtxnum).toNat (-1)
    ++ List.replicate setting.xtxnum.toNat 1

variable {chainnum paraid : Nat}

/-- One round of the loop over the list, in place. -/
def rewriteAt (c : Choices chainnum paraid) (dsts : List Int) (i : Nat) : List Int :=
  if dsts[i]? = some 1 then dsts.set i (c.pick i) else dsts

def rewrite (c : Choices chainnum paraid) (dsts : List Int) : List Int :=
  (List.range dsts.length).foldl (rewriteAt c) dsts

/-- The body of transaction `idx`: a cross-chain one where the list has a chain. -/
def body (paraid idx : Nat) (dst : Int) (classes : List String) (time : PyFloat) :
    Except Exn Json :=
  if 0 ≤ dst then
    match classes[dst.toNat]? with
    | none => .error ⟨.index, "list index out of range"⟩
    | some chainclass => .ok (.obj [
        ("sender", .str ("send/" ++ toString paraid ++ "/" ++ toString idx)),
        ("to", .str "lightclient"),
        ("data", .str (CtrLightClient.request .appInit
          [.int dst, .str chainclass, .str "crosschain-data"])),
        ("memo", xtxMemo dst time)])
  else .ok (.obj [
    ("sender", .str ("send/" ++ toString paraid ++ "/" ++ toString idx)),
    ("to", .str "base"),
    ("data", .str (Json.dumps (.obj [
      ("arguments", .arr [.str ("a" ++ toString idx), .int idx])]))),
    ("memo", memoOf [("type", .str "TX"), ("ts", .obj [("init", .float time)])])])

/-- One round of the sending loop; every request is answered with code `200`. -/
def sendAt (paraid : Nat) (classes : List String) (dsts : List Int) (times : Nat → PyFloat)
    (idx : Nat) : Except Exn Json :=
  match dsts[idx]? with
  | none => .error ⟨.index, "list index out of range"⟩
  | some dst => body paraid idx dst classes (times idx)

/-- `send_tx_chain`: the bodies it posts, in order. -/
def sendTxChain (setting : TestSetting) (paraid : Nat) (classes : List String)
    (c : Choices setting.chainnum paraid) (times : Nat → PyFloat) : Except Exn (List Json) :=
  let dsts := rewrite c (c.sample (marks setting))
  mapE (sendAt paraid classes dsts times) (List.range setting.txnum)

/-- `send_tx_proc`: one sender for each chain. -/
def sendTxProc (setting : TestSetting) (classes : List String)
    (choices : ∀ paraid, Choices setting.chainnum paraid) (times : Nat → Nat → PyFloat) :
    Except Exn (List (List Json)) :=
  mapE (fun paraid => sendTxChain setting paraid classes (choices paraid) (times paraid))
    (List.range setting.chainnum)

/-- The destination of a posted body, when its memo makes it a `CTX-SRC` one. -/
def ctxSrcDst (info : Json) : Option Int :=
  match info.getItem "memo" with
  | .ok memo =>
      match memoField memo "type", memoField memo "dst" with
      | some (.str ty), some (.int dst) => if ty = TranMemo.ctxSrc then some dst else none
      | _, _ => none
  | .error _ => none

/-! ## §4. The list in place. -/

/-- The entry the loop leaves for a mark. -/
def entry (c : Choices chainnum paraid) (i : Nat) (mark : Int) : Int :=
  if mark = 1 then c.pick i else mark

/-- **The first `m` rounds**: an entry before `m` is rewritten once, from its mark;
the others are untouched. -/
theorem rewrite_get (c : Choices chainnum paraid) (dsts : List Int) (m : Nat) :
    ∀ j, ((List.range m).foldl (rewriteAt c) dsts)[j]?
      = if j < m then dsts[j]?.map (entry c j) else dsts[j]? := by
  induction m with
  | zero => exact fun j => (if_neg (Nat.not_lt_zero j)).symm
  | succ m ih =>
      intro j
      rw [List.range_succ, List.foldl_concat]
      generalize (List.range m).foldl (rewriteAt c) dsts = done at ih
      -- round `m` reads the mark at `m`, which no earlier round has touched
      have hmark := ih m
      rw [if_neg (Nat.lt_irrefl m)] at hmark
      unfold rewriteAt
      rw [hmark]
      by_cases hone : dsts[m]? = some 1
      · rw [if_pos hone, List.getElem?_set]
        by_cases hj : m = j
        · subst hj
          have hlt : m < done.length := by
            by_contra hge
            rw [List.getElem?_eq_none (Nat.le_of_not_lt hge), hone] at hmark
            cases hmark
          rw [if_pos rfl, if_pos hlt, if_pos (Nat.lt_succ_self m), hone]
          rfl
        · rw [if_neg hj, ih j]
          have hiff : j < m + 1 ↔ j < m := by omega
          simp only [hiff]
      · rw [if_neg hone, ih j]
        by_cases hj : m = j
        · subst hj
          rw [if_neg (Nat.lt_irrefl m), if_pos (Nat.lt_succ_self m)]
          -- the mark is not `1`, so the entry is the mark
          cases hmark : dsts[m]? with
          | none => rfl
          | some mark =>
              have hne : mark ≠ 1 := by
                rintro rfl
                exact hone hmark
              rw [Option.map_some, entry, if_neg hne]
        · have hiff : j < m + 1 ↔ j < m := by omega
          simp only [hiff]

/-- After the loop every entry comes from its mark. -/
theorem rewrite_getElem (c : Choices chainnum paraid) (dsts : List Int) (j : Nat) :
    (rewrite c dsts)[j]? = dsts[j]?.map (entry c j) := by
  unfold rewrite
  rw [rewrite_get]
  by_cases hj : j < dsts.length
  · rw [if_pos hj]
  · rw [if_neg hj, List.getElem?_eq_none (Nat.le_of_not_lt hj)]
    rfl

/-! ## §5. What one chain sends. -/

theorem ctxSrcDst_of_memo {info memo : Json} (h : info.getItem "memo" = .ok memo) :
    ctxSrcDst info = match memoField memo "type", memoField memo "dst" with
      | some (.str ty), some (.int dst) => if ty = TranMemo.ctxSrc then some dst else none
      | _, _ => none := by
  rw [ctxSrcDst, h]

theorem ctxSrcDst_body {idx : Nat} {dst : Int} {classes : List String} {time : PyFloat}
    {info : Json} (h : body paraid idx dst classes time = .ok info) :
    ctxSrcDst info = if 0 ≤ dst then some dst else none := by
  unfold body at h
  split at h
  next h0 =>
      split at h
      next => cases h
      next =>
          cases h
          rw [if_pos h0, ctxSrcDst_of_memo rfl]
          simp only [memoField_xtxMemo]
          rfl
  next h0 =>
      cases h
      have hfield : ∀ k, memoField (memoOf [("type", .str "TX"),
          ("ts", .obj [("init", .float time)])]) k
            = [("type", Json.str "TX"), ("ts", .obj [("init", .float time)])].lookup k :=
        memoField_memoOf (by simp [Json.wf, Json.wfFields])
      rw [if_neg h0, ctxSrcDst_of_memo rfl]
      simp only [hfield]
      rfl

/-- A body is posted unless the class of its chain is missing. -/
theorem body_ok (paraid idx : Nat) {dst : Int} (classes : List String) (time : PyFloat)
    (h : 0 ≤ dst → dst.toNat < classes.length) :
    ∃ info, body paraid idx dst classes time = .ok info := by
  unfold body
  by_cases h0 : 0 ≤ dst
  · rw [if_pos h0, List.getElem?_eq_getElem (h h0)]
    exact ⟨_, rfl⟩
  · rw [if_neg h0]
    exact ⟨_, rfl⟩

/-- The entries a list of chains and `-1`s sends cross-chain transactions for. -/
def chains (dsts : List Int) : List Int := dsts.filter (fun dst => 0 ≤ dst)

/-- Every entry has its body. -/
theorem bodies_of_entries {classes : List String} {dsts : List Int} {times : Nat → PyFloat}
    {infos : List Json}
    (h : mapE (sendAt paraid classes dsts times) (List.range dsts.length) = .ok infos) :
    List.Forall₂ (fun dst info => ctxSrcDst info = if 0 ≤ dst then some dst else none)
      dsts infos := by
  obtain ⟨hlen, hget⟩ := mapE_range h
  refine List.forall₂_iff_get.mpr ⟨hlen.symm, fun i hi hi' => ?_⟩
  have hbody := hget i _ (List.getElem?_eq_getElem hi')
  unfold sendAt at hbody
  rw [List.getElem?_eq_getElem hi] at hbody
  exact ctxSrcDst_body hbody

/-- The posted cross-chain bodies are those of the entries that are chains. -/
theorem filterMap_ctxSrcDst {dsts : List Int} {infos : List Json}
    (h : List.Forall₂ (fun dst info => ctxSrcDst info = if 0 ≤ dst then some dst else none)
      dsts infos) : infos.filterMap ctxSrcDst = chains dsts := by
  unfold chains
  induction h with
  | nil => rfl
  | @cons dst info dsts infos hhead _ ih =>
      by_cases h0 : 0 ≤ dst
      · rw [if_pos h0] at hhead
        rw [List.filterMap_cons_some hhead, List.filter_cons_of_pos (by simpa using h0), ih]
      · rw [if_neg h0] at hhead
        rw [List.filterMap_cons_none hhead, List.filter_cons_of_neg (by simpa using h0), ih]

/-- The list after the loop, entry by entry. -/
theorem rewrite_eq (c : Choices chainnum paraid) (dsts : List Int) :
    rewrite c dsts = dsts.mapIdx (entry c) := by
  apply List.ext_getElem?
  intro j
  rw [rewrite_getElem, List.getElem?_mapIdx]

/-- An entry is a chain where its mark was `1`. -/
theorem entry_nonneg_iff {mark : Int} (h : mark = 1 ∨ mark = -1) (c : Choices chainnum paraid)
    (i : Nat) : 0 ≤ entry c i mark ↔ mark = 1 := by
  unfold entry
  rcases h with rfl | rfl
  · simp
  · simp

/-- The chains the loop leaves are other chains. -/
theorem chain_of_entry (c : Choices chainnum paraid) {dsts : List Int}
    (hmark : ∀ mark ∈ dsts, mark = 1 ∨ mark = -1) :
    ∀ dst ∈ rewrite c dsts, 0 ≤ dst → dst < chainnum ∧ dst ≠ paraid := by
  intro dst hdst h0
  rw [rewrite_eq, List.mem_mapIdx] at hdst
  obtain ⟨i, hi, rfl⟩ := hdst
  have hone : dsts[i] = 1 :=
    (entry_nonneg_iff (hmark _ (List.getElem_mem hi)) c i).mp h0
  obtain ⟨hlt, hne⟩ := c.pick_spec i
  unfold entry
  rw [if_pos hone]
  omega

theorem length_chains_mapIdx (dsts : List Int) : ∀ f : Nat → Int → Int,
    (∀ i, ∀ mark ∈ dsts, 0 ≤ f i mark ↔ mark = 1) →
    (chains (dsts.mapIdx f)).length = dsts.count 1 := by
  induction dsts with
  | nil => exact fun _ _ => rfl
  | cons mark dsts ih =>
      intro f hf
      have hrest := ih (fun i => f (i + 1))
        (fun i m hm => hf (i + 1) m (List.mem_cons_of_mem _ hm))
      have hhead := hf 0 mark List.mem_cons_self
      unfold chains at hrest ⊢
      rw [List.mapIdx_cons]
      by_cases hone : mark = 1
      · rw [List.filter_cons_of_pos (by simpa using hhead.mpr hone), List.length_cons, hrest, hone,
          List.count_cons_self]
      · have hneg : ¬ 0 ≤ f 0 mark := fun h0 => hone (hhead.mp h0)
        rw [List.filter_cons_of_neg (by simpa using hneg), hrest,
          List.count_cons_of_ne hone]

variable {setting : TestSetting}

theorem xtxnum_nonneg (h0 : 0 ≤ setting.xtxratio) : 0 ≤ setting.xtxnum := by
  have hprod : (0 : ℚ) ≤ setting.xtxratio * setting.txnum :=
    mul_nonneg h0 (Nat.cast_nonneg _)
  unfold TestSetting.xtxnum
  rw [truncate_of_nonneg hprod]
  exact Int.floor_nonneg.mpr hprod

theorem xtxnum_le (h0 : 0 ≤ setting.xtxratio) (h1 : setting.xtxratio ≤ 1) :
    setting.xtxnum ≤ setting.txnum := by
  have hprod : (0 : ℚ) ≤ setting.xtxratio * setting.txnum :=
    mul_nonneg h0 (Nat.cast_nonneg _)
  have hle : setting.xtxratio * setting.txnum ≤ setting.txnum := by
    calc setting.xtxratio * setting.txnum ≤ 1 * setting.txnum :=
          mul_le_mul_of_nonneg_right h1 (Nat.cast_nonneg _)
      _ = setting.txnum := one_mul _
  unfold TestSetting.xtxnum
  rw [truncate_of_nonneg hprod]
  have hfloor := Int.floor_mono hle
  rwa [Int.floor_natCast] at hfloor

theorem length_marks (h0 : 0 ≤ setting.xtxratio) (h1 : setting.xtxratio ≤ 1) :
    (marks setting).length = setting.txnum := by
  have hlow := xtxnum_nonneg h0
  have hhigh := xtxnum_le h0 h1
  unfold marks
  rw [List.length_append, List.length_replicate, List.length_replicate]
  omega

theorem count_marks : (marks setting).count 1 = setting.xtxnum.toNat := by
  unfold marks
  rw [List.count_append, List.count_replicate_self, List.count_replicate]
  simp

theorem mem_marks {mark : Int} (h : mark ∈ marks setting) : mark = 1 ∨ mark = -1 := by
  rcases List.mem_append.mp h with h | h
  · exact Or.inr (List.eq_of_mem_replicate h)
  · exact Or.inl (List.eq_of_mem_replicate h)

/-- **What one chain sends**: as many cross-chain transactions as the truncated
product, each to another chain. -/
theorem sendTxChain_dsts (h0 : 0 ≤ setting.xtxratio) (h1 : setting.xtxratio ≤ 1)
    {classes : List String} (hclasses : classes.length = setting.chainnum)
    (c : Choices setting.chainnum paraid) (times : Nat → PyFloat) :
    ∃ infos, sendTxChain setting paraid classes c times = .ok infos
      ∧ (infos.filterMap ctxSrcDst).length = setting.xtxnum.toNat
      ∧ ∀ dst ∈ infos.filterMap ctxSrcDst, 0 ≤ dst ∧ dst < setting.chainnum ∧ dst ≠ paraid := by
  have hperm := c.sample_perm (marks setting)
  have hmark : ∀ mark ∈ c.sample (marks setting), mark = 1 ∨ mark = -1 :=
    fun mark hm => mem_marks (hperm.mem_iff.mp hm)
  have hlen : (rewrite c (c.sample (marks setting))).length = setting.txnum := by
    rw [rewrite_eq, List.length_mapIdx, hperm.length_eq, length_marks h0 h1]
  have hother := chain_of_entry c hmark
  obtain ⟨infos, hinfos⟩ : ∃ infos, sendTxChain setting paraid classes c times = .ok infos := by
    apply mapE_of_forall
    intro idx hidx
    rw [List.mem_range, ← hlen] at hidx
    have hget := List.getElem?_eq_getElem hidx
    obtain ⟨info, hinfo⟩ := body_ok paraid idx classes (times idx) (fun hdst => by
        obtain ⟨hlt, _⟩ := hother _ (List.mem_of_getElem? hget) hdst
        omega)
    exact ⟨info, by rw [sendAt, hget]; exact hinfo⟩
  have hsent : infos.filterMap ctxSrcDst = chains (rewrite c (c.sample (marks setting))) := by
    apply filterMap_ctxSrcDst
    apply bodies_of_entries
    rw [hlen]
    exact hinfos
  refine ⟨infos, hinfos, ?_, ?_⟩
  · rw [hsent, rewrite_eq, length_chains_mapIdx _ _
      (fun i mark hm => entry_nonneg_iff (hmark mark hm) c i), hperm.count_eq, count_marks]
  · intro dst hdst
    rw [hsent] at hdst
    obtain ⟨hmem, h0⟩ := List.mem_filter.mp hdst
    have hpos : 0 ≤ dst := of_decide_eq_true h0
    exact ⟨hpos, hother dst hmem hpos⟩

/-! ## §6. What all chains send, and what is waited for. -/

variable {classes : List String} {choices : ∀ paraid, Choices setting.chainnum paraid}
  {times : Nat → Nat → PyFloat}

/-- The destinations of the cross-chain transactions of all chains. -/
def sentDsts (sent : List (List Json)) : List Int := sent.flatMap (List.filterMap ctxSrcDst)

/-- Every cross-chain transaction goes to another chain than the one it is sent to. -/
def WellAddressed (setting : TestSetting) (sent : List (List Json)) : Prop :=
  ∀ (paraid : Nat) (infos : List Json), sent[paraid]? = some infos →
    ∀ dst ∈ infos.filterMap ctxSrcDst, 0 ≤ dst ∧ dst < setting.chainnum ∧ dst ≠ paraid

theorem length_flatMap_of_forall {α β : Type} {f : α → List β} {n : Nat} {xs : List α}
    (h : ∀ x ∈ xs, (f x).length = n) : (xs.flatMap f).length = xs.length * n := by
  induction xs with
  | nil => rw [List.flatMap_nil, List.length_nil, List.length_nil, Nat.zero_mul]
  | cons x xs ih =>
      rw [List.flatMap_cons, List.length_append, h x List.mem_cons_self,
        ih (fun y hy => h y (List.mem_cons_of_mem _ hy)), List.length_cons, Nat.succ_mul,
        Nat.add_comm]

/-- **All chains together** send `chainnum` times the truncated product, each
transaction to another chain than its own. -/
theorem sendTxProc_total (choices : ∀ paraid, Choices setting.chainnum paraid)
    (times : Nat → Nat → PyFloat) (h0 : 0 ≤ setting.xtxratio) (h1 : setting.xtxratio ≤ 1)
    (hclasses : classes.length = setting.chainnum) :
    ∃ sent, sendTxProc setting classes choices times = .ok sent
      ∧ sent.length = setting.chainnum
      ∧ ((sentDsts sent).length : Int) = setting.chainnum * setting.xtxnum
      ∧ WellAddressed setting sent := by
  have hchain := fun paraid => sendTxChain_dsts h0 h1 hclasses (choices paraid) (times paraid)
  obtain ⟨sent, hsent⟩ : ∃ sent, sendTxProc setting classes choices times = .ok sent := by
    apply mapE_of_forall
    intro paraid _
    obtain ⟨infos, hinfos, _⟩ := hchain paraid
    exact ⟨infos, hinfos⟩
  obtain ⟨hlen, hat⟩ := mapE_range hsent
  refine ⟨sent, hsent, hlen, ?_, ?_⟩
  · have hcount : (sentDsts sent).length = sent.length * setting.xtxnum.toNat := by
      apply length_flatMap_of_forall
      intro infos hinfos
      obtain ⟨paraid, hparaid⟩ := List.getElem?_of_mem hinfos
      obtain ⟨infos', hinfos', hnum, _⟩ := hchain paraid
      rw [hat paraid infos hparaid] at hinfos'
      cases hinfos'
      exact hnum
    rw [hcount, hlen, Nat.cast_mul, Int.toNat_of_nonneg (xtxnum_nonneg h0)]
  · intro paraid infos hinfos
    obtain ⟨infos', hinfos', _, hdsts⟩ := hchain paraid
    rw [hat paraid infos hinfos] at hinfos'
    cases hinfos'
    exact hdsts

/-- Truncating once or once for each of `n` chains. -/
theorem floor_mul_eq_iff (n : Nat) (x : ℚ) :
    ⌊(n : ℚ) * x⌋ = n * ⌊x⌋ ↔ (n : ℚ) * Int.fract x < 1 := by
  have hsplit : (n : ℚ) * x = ((n * ⌊x⌋ : Int) : ℚ) + (n : ℚ) * Int.fract x := by
    rw [Int.cast_mul, Int.cast_natCast, ← mul_add, Int.floor_add_fract]
  have hnonneg : (0 : ℚ) ≤ (n : ℚ) * Int.fract x :=
    mul_nonneg (Nat.cast_nonneg _) (Int.fract_nonneg x)
  rw [hsplit, Int.floor_intCast_add]
  constructor
  · intro h
    have hzero : ⌊(n : ℚ) * Int.fract x⌋ = 0 := by omega
    exact (Int.floor_eq_zero_iff.mp hzero).2
  · intro h
    have hzero : ⌊(n : ℚ) * Int.fract x⌋ = 0 := Int.floor_eq_zero_iff.mpr ⟨hnonneg, h⟩
    omega

/-- **The experiment waits for what is sent exactly where the fractions lost by the
chains do not add up to one**: whatever the random calls give, every chain sends
to other chains only, and the number sent is the number waited for if and only
if `chainnum` times the fractional part of `xtxratio * txnum` is below one. -/
theorem sent_eq_target_iff (h0 : 0 ≤ setting.xtxratio) (h1 : setting.xtxratio ≤ 1)
    (hclasses : classes.length = setting.chainnum) :
    ∃ sent, sendTxProc setting classes choices times = .ok sent
      ∧ sent.length = setting.chainnum
      ∧ WellAddressed setting sent
      ∧ (((sentDsts sent).length : Int) = setting.xtxTarget
        ↔ setting.chainnum * Int.fract (setting.xtxratio * setting.txnum) < 1) := by
  obtain ⟨sent, hsent, hlen, htotal, hdsts⟩ :=
    sendTxProc_total choices times h0 h1 hclasses
  refine ⟨sent, hsent, hlen, hdsts, ?_⟩
  have hprod : (0 : ℚ) ≤ setting.xtxratio * setting.txnum :=
    mul_nonneg h0 (Nat.cast_nonneg _)
  have hall : (setting.chainnum : ℚ) * setting.txnum * setting.xtxratio * 1
      = setting.chainnum * (setting.xtxratio * setting.txnum) := by
    ring
  have htarget : setting.xtxTarget
      = ⌊(setting.chainnum : ℚ) * (setting.xtxratio * setting.txnum)⌋ := by
    unfold TestSetting.xtxTarget
    rw [hall, truncate_of_nonneg (mul_nonneg (Nat.cast_nonneg _) hprod)]
  rw [htotal, htarget, TestSetting.xtxnum, truncate_of_nonneg hprod, eq_comm]
  exact floor_mul_eq_iff setting.chainnum (setting.xtxratio * setting.txnum)

/-- Three chains of twenty transactions, a quarter of them cross-chain. -/
def evenQuarter : TestSetting := ⟨3, 20, 1 / 4⟩

theorem sent_eq_target_evenQuarter :
    ∃ sent, sendTxProc evenQuarter ["Ethereum", "Ethereum", "Tendermint"]
        (Choices.inOrder (by decide)) (fun _ _ => PyFloat.zero) = .ok sent
      ∧ sent.length = 3 ∧ WellAddressed evenQuarter sent
      ∧ (((sentDsts sent).length : Int) = evenQuarter.xtxTarget
        ↔ evenQuarter.chainnum * Int.fract (evenQuarter.xtxratio * evenQuarter.txnum) < 1) :=
  @sent_eq_target_iff evenQuarter _ _ _ (by norm_num [evenQuarter])
    (by norm_num [evenQuarter]) rfl

/-- Three chains of ten transactions, a quarter of them cross-chain. -/
def oddQuarter : TestSetting := ⟨3, 10, 1 / 4⟩

/-- Each chain truncates `2.5`, the target truncates `7.5`. -/
theorem oddQuarter_waits_for_more :
    ∃ sent, sendTxProc oddQuarter ["Ethereum", "Ethereum", "Tendermint"]
        (Choices.inOrder (by decide)) (fun _ _ => PyFloat.zero) = .ok sent
      ∧ (sentDsts sent).length = 6 ∧ oddQuarter.xtxTarget = 7 := by
  obtain ⟨sent, hsent, _, htotal, _⟩ := @sendTxProc_total oddQuarter
    ["Ethereum", "Ethereum", "Tendermint"] (Choices.inOrder (by decide))
    (fun _ _ => PyFloat.zero) (by norm_num [oddQuarter]) (by norm_num [oddQuarter]) rfl
  have hnum : oddQuarter.xtxnum = 2 := by decide +kernel
  have htarget : oddQuarter.xtxTarget = 7 := by decide +kernel
  refine ⟨sent, hsent, ?_, htarget⟩
  rw [hnum] at htotal
  have hchains : (oddQuarter.chainnum : Int) = 3 := rfl
  omega

end SendTx

end TorSim
