/-
  TorSim.Blockchain.Positions — where in the chain a transaction was executed.

  A block takes its height from the number of blocks before it, and an execution
  its index from the transactions done before it in the block.  Generated and
  submitted transactions share these positions, no two have the same, and what is
  computed from a position at generation or execution stays with the transaction
  through the commit.  Contract addresses and the senders of generated
  transactions are computed so.

  Main results:
    * `step_placed` — **what generation and execution give a position, every step
      keeps**.
    * `executed_pairwise` / `entered_pairwise` — different transactions have
      different positions.
-/
import TorSim.Blockchain.Memos
import TorSim.Blockchain.Building

namespace TorSim

open TorSim.Lib

/-! ## §1. Rows of slots. -/

/-- **Slots in rows**: what is told apart by row and slot is told apart in the list of
all of them. -/
theorem pairwise_flatten_of_positions {α : Type} {P : Nat → Nat → α → Prop} {R : α → α → Prop}
    (hR : ∀ n i m j x y, (n, i) ≠ (m, j) → P n i x → P m j y → R x y) {rows : List (List α)}
    (hP : ∀ n row, rows[n]? = some row → ∀ i x, row[i]? = some x → P n i x) :
    rows.flatten.Pairwise R := by
  rw [List.pairwise_flatten]
  constructor
  · intro row hrow
    obtain ⟨n, hn⟩ := List.getElem?_of_mem hrow
    rw [List.pairwise_iff_getElem]
    intro i j hi hj hlt
    refine hR n i n j _ _ ?_ (hP n row hn i _ (List.getElem?_eq_getElem hi))
      (hP n row hn j _ (List.getElem?_eq_getElem hj))
    intro heq
    have := (Prod.mk.inj heq).2
    omega
  · rw [List.pairwise_iff_getElem]
    intro n m hn hm hlt x hx y hy
    obtain ⟨i, hi⟩ := List.getElem?_of_mem hx
    obtain ⟨j, hj⟩ := List.getElem?_of_mem hy
    refine hR n i m j x y ?_ (hP n _ (List.getElem?_eq_getElem hn) i x hi)
      (hP m _ (List.getElem?_eq_getElem hm) j y hj)
    intro heq
    have := (Prod.mk.inj heq).1
    omega

/-- An element of a list with one more at its end is an old one or the new one. -/
theorem getElem?_snoc {α : Type} {xs : List α} {y z : α} {i : Nat}
    (h : (xs ++ [y])[i]? = some z) : xs[i]? = some z ∨ i = xs.length ∧ z = y := by
  by_cases hlt : i < xs.length
  · rw [List.getElem?_append_left hlt] at h
    exact .inl h
  · rw [List.getElem?_append_right (Nat.le_of_not_lt hlt), List.getElem?_singleton] at h
    split at h
    · cases h
      exact .inr ⟨by omega, rfl⟩
    · cases h

namespace Chain

variable {τ : Type}

/-! ## §2. Predicates on positions. -/

section Placing

variable (P : Nat → Nat → Executed τ → Prop) (Q : Nat → Nat → Option τ × Transaction → Prop)

/-- Predicates on the transactions executed (`P`) and selected (`Q`) at a position: the
number of blocks before, and of transactions before in the block. -/
structure PlaceRules [Contracts] [Sha256] (cfg : Config) : Prop where
  generated : ∀ (n : Nat) draws txs, generateXtx cfg n draws = .ok txs →
    ∀ (i : Nat) tx, txs[i]? = some tx → Q n i (none, tx)
  taken : ∀ n i tag tx, Q n i (some tag, tx)
  executed : ∀ (n i : Nat) ctx tag tx st resp st', Q n i (tag, tx) →
    Executor.executeTx ctx (n + 1 : Nat) i tx st = (.ok resp, st') → P n i (answeredAs tag tx resp)
  committed : ∀ n i time height e s, P n i e → CommittedAs time height e s → P n i s

/-- They hold all over a chain. -/
structure Placed (c : Chain τ) : Prop where
  committed : ∀ n r, c.history[n]? = some r → ∀ i s, r.slots[i]? = some s → P n i s
  executing : ∀ i s, c.inProgress[i]? = some s → P c.history.length i s
  waiting : ∀ i e, c.selected[i]? = some e → Q c.history.length (c.inProgress.length + i) e

/-- Blocks are numbered by those before them, the one in progress included. -/
structure InRow [Sha256] (c : Chain τ) : Prop where
  blocks : ∃ b, ChainInv [b] c
  proposed : Proposed c

variable {P Q}

theorem InRow.blockNum [Sha256] {c : Chain τ} (h : InRow c) :
    c.blocks.blockNum = c.history.length := by
  obtain ⟨b, hb⟩ := h.blocks
  exact hb.blockNum

theorem InRow.height [Sha256] {c : Chain τ} (h : InRow c) {p : Proposal τ} (hp : c.phase = .executing p) :
    p.height = (c.history.length + 1 : Nat) := by
  rw [h.proposed p hp, h.blockNum]
  omega

theorem step_inRow [Contracts] [Sha256] {cfg : Config} {c c' : Chain τ} {a : Action τ} (hc : InRow c) (h : step cfg c a = some c') :
    InRow c' := by
  obtain ⟨b, hb⟩ := hc.blocks
  exact ⟨⟨b, step_chainInv hb h⟩, step_proposed hc.proposed h⟩

theorem Fresh.inRow [Sha256] {c : Chain τ} (h : Fresh c) : InRow c := by
  obtain ⟨time, hblocks⟩ := h.blocks
  have hinv := h.chainInv
  rw [hblocks] at hinv
  exact ⟨⟨_, hinv⟩, h.proposed⟩

theorem Fresh.placed {c : Chain τ} (h : Fresh c) : Placed P Q c := by
  obtain ⟨hsel, hprog⟩ := idle_queues h.phase
  refine ⟨?_, ?_, ?_⟩
  · rw [h.history]
    intro n r hr
    cases hr
  · rw [hprog]
    intro i s hs
    cases hs
  · rw [hsel]
    intro i e he
    cases he

/-- A chain with the same blocks and the same block in progress. -/
theorem Placed.congr {c c' : Chain τ} (hc : Placed P Q c) (hhistory : c'.history = c.history)
    (hprog : c'.inProgress = c.inProgress) (hsel : c'.selected = c.selected) :
    Placed P Q c' := by
  refine ⟨?_, ?_, ?_⟩
  · rw [hhistory]
    exact hc.committed
  · rw [hhistory, hprog]
    exact hc.executing
  · rw [hhistory, hprog, hsel]
    exact hc.waiting

/-- A chain with the same blocks and a new selection, nothing of it executed. -/
theorem Placed.selecting {c c' : Chain τ} (hc : Placed P Q c) (hhistory : c'.history = c.history)
    (hprog : c'.inProgress = []) (hsel : ∀ (i : Nat) e, c'.selected[i]? = some e →
      Q c.history.length i e) : Placed P Q c' := by
  refine ⟨?_, ?_, ?_⟩
  · rw [hhistory]
    exact hc.committed
  · rw [hprog]
    intro i s hs
    cases hs
  · rw [hhistory, hprog, List.length_nil]
    intro i e he
    rw [Nat.zero_add]
    exact hsel i e he

theorem submit_placed {c : Chain τ} (hc : Placed P Q c) (time : PyFloat) (tag : τ)
    (tx : Transaction) : Placed P Q (c.submit time tag tx) := by
  unfold submit
  split
  · exact hc.congr rfl rfl rfl
  · exact hc.congr rfl rfl rfl

section Rules

variable [Contracts] [Sha256] {cfg : Config} (hr : PlaceRules P Q cfg)

include hr

theorem propose_placed {c : Chain τ} (hc : Placed P Q c)
    (hnum : c.blocks.blockNum = c.history.length) (timestamp : PyFloat)
    (draws : Nat → Nat × PyFloat) : Placed P Q (c.propose cfg timestamp draws) := by
  have hnone : ∀ (i : Nat) e, ([] : List (Option τ × Transaction))[i]? = some e →
      Q c.history.length i e := by
    intro i e he
    cases he
  unfold propose
  cases hflag : c.genXtxFlag with
  | false =>
      simp only [Bool.false_eq_true, if_false, List.map_nil]
      split
      · exact hc.selecting rfl rfl hnone
      · exact hc.selecting rfl rfl hnone
  | true =>
      simp only [if_true]
      cases hgen : generateXtx cfg c.blocks.blockNum draws with
      | error e => exact hc.selecting rfl rfl hnone
      | ok txs =>
          rw [hnum] at hgen
          have hplaced : ∀ (i : Nat) e, (txs.map fun tx => ((none : Option τ), tx))[i]? = some e →
              Q c.history.length i e := by
            intro i e he
            rw [List.getElem?_map] at he
            obtain ⟨tx, htx, rfl⟩ := Option.map_eq_some_iff.mp he
            exact hr.generated _ draws txs hgen i tx htx
          dsimp only
          split
          · exact hc.selecting rfl rfl hplaced
          · exact hc.selecting rfl rfl hplaced

theorem takeTx_placed {c : Chain τ} (hc : Placed P Q c)
    {timestamp : PyFloat} {txs : List (Option τ × Transaction)}
    (h : c.phase = .selecting timestamp txs) (time : PyFloat) :
    Placed P Q (c.takeTx cfg time timestamp txs) := by
  have hprog : c.inProgress = [] := by simp only [inProgress, h]
  have hsel : c.selected = txs := by simp only [selected, h]
  have hold : ∀ (i : Nat) e, txs[i]? = some e → Q c.history.length i e := by
    intro i e he
    have hwait := hc.waiting i e (by rw [hsel]; exact he)
    rwa [hprog, List.length_nil, Nat.zero_add] at hwait
  unfold takeTx
  rcases c.pool.popTx time with ⟨_ | ⟨tag, tx⟩, pool⟩
  · exact hc.selecting rfl rfl hold
  · have hnew : ∀ (i : Nat) e, (txs ++ [(some tag, { tx with status := TxStatus.proposing })])[i]?
        = some e → Q c.history.length i e := by
      intro i e he
      rcases getElem?_snoc he with he | ⟨_, rfl⟩
      · exact hold i e he
      · exact hr.taken _ i tag _
    dsimp only
    split
    · exact hc.selecting rfl rfl hnew
    · exact hc.selecting rfl rfl hnew

theorem executeNext_placed {c : Chain τ} (hc : Placed P Q c) (hrow : InRow c)
    {p : Proposal τ} {tag : Option τ} {tx : Transaction} {rest : List (Option τ × Transaction)}
    (h : c.phase = .executing p) (hrest : p.rest = (tag, tx) :: rest) :
    Placed P Q (c.executeNext p tag tx rest) := by
  have hprog : c.inProgress = p.done := by simp only [inProgress, h]
  have hsel : c.selected = (tag, tx) :: rest := by simp only [selected, h, hrest]
  have hdone := hc.executing
  have hwait := hc.waiting
  rw [hprog] at hdone hwait
  rw [hsel] at hwait
  unfold executeNext
  rcases hx : Executor.executeTx ⟨some p.block⟩ p.height p.done.length tx c.store with
    ⟨e | resp, store⟩
  · -- the loop stops on the block as it stands
    refine hc.congr rfl ?_ ?_
    · rw [hprog]
      rfl
    · rw [hsel, ← hrest]
      rfl
  · rw [hrow.height h] at hx
    have hnew := hr.executed _ _ _ tag tx _ resp store (hwait 0 (tag, tx) rfl) hx
    refine ⟨hc.committed, fun i s hs => ?_, fun i e he => ?_⟩
    · change (p.done ++ [answeredAs tag tx resp])[i]? = some s at hs
      rcases getElem?_snoc hs with hs | ⟨rfl, rfl⟩
      · exact hdone i s hs
      · exact hnew
    · change rest[i]? = some e at he
      have hnext := hwait (i + 1) e (by rw [List.getElem?_cons_succ]; exact he)
      show Q c.history.length ((p.done ++ [answeredAs tag tx resp]).length + i) e
      rwa [List.length_append, List.length_singleton, Nat.add_assoc, Nat.add_comm 1 i]

theorem commit_placed {c : Chain τ} (hc : Placed P Q c) {p : Proposal τ}
    (h : c.phase = .executing p) (hrest : p.rest = []) (time : PyFloat) :
    Placed P Q (c.commit time p) := by
  have hprog : c.inProgress = p.done := by simp only [inProgress, h]
  rcases commit_cases h hrest time with hhalt | ⟨slots, hcommit⟩
  · rw [hhalt]
    refine hc.congr rfl ?_ ?_
    · rw [hprog]
      rfl
    · simp only [selected, h]
      rfl
  · obtain ⟨time, htxs⟩ := hcommit.txs
    obtain ⟨hsel', hprog'⟩ := idle_queues hcommit.idle
    have hall := List.forall₂_iff_get.mp (commitTxs_slots htxs)
    have hnew : ∀ i s, slots[i]? = some s → P c.history.length i s := by
      intro i s hs
      obtain ⟨hlt, rfl⟩ := List.getElem?_eq_some_iff.mp hs
      have hlt' : i < p.done.length := by rw [hall.1]; exact hlt
      have hold := hc.executing i p.done[i] (by rw [hprog]; exact List.getElem?_eq_getElem hlt')
      exact hr.committed _ i time _ _ _ hold (hall.2 i hlt' hlt)
    refine ⟨?_, ?_, ?_⟩
    · rw [hcommit.history]
      intro n r hn
      rcases getElem?_snoc hn with hn | ⟨rfl, rfl⟩
      · exact hc.committed n r hn
      · exact hnew
    · rw [hprog']
      intro i s hs
      cases hs
    · rw [hsel']
      intro i e he
      cases he

/-- **What generation and execution give a position, every step keeps.** -/
theorem step_placed {c c' : Chain τ} {a : Action τ} (hc : Placed P Q c) (hrow : InRow c)
    (h : step cfg c a = some c') : Placed P Q c' := by
  cases step_cases h with
  | submit time tag tx => exact submit_placed hc time tag tx
  | setMining on => exact hc.congr rfl rfl rfl
  | setGenXtx on => exact hc.congr rfl rfl rfl
  | setRunning on => exact hc.congr rfl rfl rfl
  | propose hphase timestamp draws => exact propose_placed hr hc hrow.blockNum timestamp draws
  | takeTx hphase time => exact takeTx_placed hr hc hphase time
  | executeNext hphase hrest => exact executeNext_placed hr hc hrow hphase hrest
  | commit hphase hrest time => exact commit_placed hr hc hphase hrest time

/-- Over every run of a fresh chain. -/
theorem run_placed {c0 c : Chain τ} {acts : List (Action τ)} (h0 : Fresh c0)
    (hrun : runFrom (step cfg) c0 acts = some c) : Placed P Q c ∧ InRow c :=
  run_invariant (P := fun c => Placed P Q c ∧ InRow c)
    (fun _ _ _ hc hs => ⟨step_placed hr hc.1 hc.2 hs, step_inRow hc.2 hs⟩) acts hrun
    ⟨h0.placed, h0.inRow⟩

end Rules

/-! ## §3. Different transactions, different positions. -/

/-- The transactions that entered a block, executed or not. -/
def entered (c : Chain τ) : List (Option τ × Transaction) :=
  c.executed.map (fun e => (e.tag, e.tx)) ++ c.selected

/-- The same for any two transactions that entered a block. -/
theorem Placed.entered_pairwise {c : Chain τ}
    (hc : Placed (fun n i s => Q n i (s.tag, s.tx)) Q c)
    {R : Option τ × Transaction → Option τ × Transaction → Prop}
    (hR : ∀ n i m j e f, (n, i) ≠ (m, j) → Q n i e → Q m j f → R e f) :
    c.entered.Pairwise R := by
  have hrows : c.entered = (c.history.map (fun r => r.slots.map fun e => (e.tag, e.tx))
      ++ [c.inProgress.map (fun e => (e.tag, e.tx)) ++ c.selected]).flatten := by
    rw [entered, executed, List.map_append, List.flatten_append, List.flatten_singleton,
      List.map_flatMap, List.flatMap_def, List.append_assoc]
  rw [hrows]
  refine pairwise_flatten_of_positions hR (fun n row hrow i e he => ?_)
  rcases getElem?_snoc hrow with hrow | ⟨rfl, rfl⟩
  · rw [List.getElem?_map] at hrow
    obtain ⟨r, hr, rfl⟩ := Option.map_eq_some_iff.mp hrow
    rw [List.getElem?_map] at he
    obtain ⟨s, hs, rfl⟩ := Option.map_eq_some_iff.mp he
    exact hc.committed n r hr i s hs
  · rw [List.length_map]
    by_cases hlt : i < c.inProgress.length
    · rw [List.getElem?_append_left (by rwa [List.length_map]), List.getElem?_map] at he
      obtain ⟨s, hs, rfl⟩ := Option.map_eq_some_iff.mp he
      exact hc.executing i s hs
    · rw [List.getElem?_append_right (by rw [List.length_map]; omega), List.length_map] at he
      have hwait := hc.waiting _ e he
      rwa [Nat.add_sub_cancel' (Nat.le_of_not_lt hlt)] at hwait

end Placing

end Chain

end TorSim
