/-
  TorSim.Blockchain.Memos — the memos of the transactions in a chain.

  The memo of a transaction is written by the pool twice, by the commit once,
  and by nothing else in a chain.  A predicate that the two marks of the pool
  keep therefore holds of every transaction until its commit, and what the mark
  of the commit makes of it holds of every committed one.

  Main results:
    * `commitTxs_slots` — a committed transaction, field by field.
    * `step_memos` — **what the marks keep, every step keeps**.
    * `stamped_rules` — every transaction on its way has time marks.
    * `step_commitTimes` — all transactions of a block have the time of its commit.
-/
import TorSim.Blockchain.ChainRuns

namespace TorSim

open TorSim.Lib

namespace Chain

variable {τ : Type}

/-! ## §1. The mark of the commit. -/

/-- The commit of one transaction: the mark in the memo, then the block's height and
the success status. -/
def CommittedAs (time : PyFloat) (height : Int) (e s : Executed τ) : Prop :=
  ∃ memo, stampMemo "commit" time e.tx.memo = .ok memo
    ∧ s = updateTx height { e with tx := { e.tx with memo := memo } }

theorem markCommit_iff {time : PyFloat} {e m : Executed τ} :
    markCommit time e = .ok m ↔ ∃ memo, stampMemo "commit" time e.tx.memo = .ok memo
      ∧ m = { e with tx := { e.tx with memo := memo } } := by
  constructor
  · intro h
    obtain ⟨tx, htx, h⟩ := except_bind_ok h
    obtain ⟨memo, hmemo, rfl⟩ := SyncMemPool.markTx_eq_ok htx
    exact ⟨memo, hmemo, (Except.ok.inj h).symm⟩
  · rintro ⟨memo, hmemo, rfl⟩
    rw [markCommit, SyncMemPool.markTx, hmemo]
    rfl

/-- **A committed transaction, field by field.** -/
theorem commitTxs_slots [Sha256] {time : PyFloat} {p : Proposal τ} {slots : List (Executed τ)}
    (h : commitTxs time p = .ok slots) :
    List.Forall₂ (CommittedAs time p.height) p.done slots := by
  obtain ⟨marked, hmarked, h⟩ := except_bind_ok h
  obtain ⟨_, _, h⟩ := except_bind_ok h
  cases h
  rw [List.forall₂_map_right_iff]
  refine (mapE_eq_ok hmarked).imp ?_
  intro e m hm
  obtain ⟨memo, hmemo, rfl⟩ := markCommit_iff.mp hm
  exact ⟨memo, hmemo, rfl⟩

/-! ## §2. Predicates on memos. -/

/-- `P` holds of a submission that meets `A` once it is in the pool and until its
commit; `Q` holds from the commit on. -/
structure MemoRules (cfg : Config) (A P Q : Json → Prop) : Prop where
  put : ∀ time m m', A m → stampMemo "mp_put" time m = .ok m' → P m'
  take : ∀ time m m', P m → stampMemo "mp_get" time m = .ok m' → P m'
  generate : ∀ dstid ∈ cfg.xtxConfig.dstids, ∀ time, P (xtxMemo dstid time)
  commit : ∀ time m m', P m → stampMemo "commit" time m = .ok m' → Q m'

/-- Every transaction on its way meets `P`, every committed one `Q`. -/
structure MemosHold (P Q : Json → Prop) (c : Chain τ) : Prop where
  inProgress : ∀ e ∈ c.inProgress, P e.tx.memo
  selected : ∀ e ∈ c.selected, P e.2.memo
  pool : ∀ e ∈ c.pool.items, P e.2.memo
  committed : ∀ r ∈ c.history, ∀ s ∈ r.slots, Q s.tx.memo

/-- Every submission of the action meets `A`. -/
def SubmitsOnly (A : Json → Prop) (a : Action τ) : Prop :=
  ∀ time tag tx, a = .submit time tag tx → A tx.memo

theorem MemosHold.imp {P P' Q Q' : Json → Prop} {c : Chain τ} (h : MemosHold P Q c)
    (hP : ∀ m, P m → P' m) (hQ : ∀ m, Q m → Q' m) : MemosHold P' Q' c where
  inProgress := fun e he => hP _ (h.inProgress e he)
  selected := fun e he => hP _ (h.selected e he)
  pool := fun e he => hP _ (h.pool e he)
  committed := fun r hr s hs => hQ _ (h.committed r hr s hs)

variable {cfg : Config} {A P Q : Json → Prop}

/-- A generated transaction has the memo `build_xtx` wrote. -/
theorem buildXtx_memo {blockNum : Int} {idx : Nat} {draw : Nat × PyFloat} {tx : Transaction}
    (h : buildXtx cfg.xtxConfig blockNum idx draw = .ok tx) :
    ∃ dstid ∈ cfg.xtxConfig.dstids, tx.memo = xtxMemo dstid draw.2 := by
  obtain ⟨dstid, hchoice, h⟩ := except_bind_ok h
  obtain ⟨cls, _, h⟩ := except_bind_ok h
  have hmem : dstid ∈ cfg.xtxConfig.dstids := by
    unfold choice at hchoice
    split at hchoice
    next x hx =>
        cases hchoice
        exact List.mem_of_getElem? hx
    next => cases hchoice
  simp only [Transaction.fromJson, Json.getItem, List.lookup_cons, List.lookup_nil] at h
  cases h
  exact ⟨dstid, hmem, rfl⟩

theorem submit_memos (hr : MemoRules cfg A P Q) {c : Chain τ} (hc : MemosHold P Q c)
    (time : PyFloat) (tag : τ) {tx : Transaction} (hA : A tx.memo) :
    MemosHold P Q (c.submit time tag tx) := by
  unfold submit
  rcases SyncMemPool.putTx_cases time tag tx c.pool with ⟨tx', _, hmark, hput⟩ | ⟨_, hput⟩ | ⟨e, hput⟩
  · rw [hput]
    obtain ⟨memo, hmemo, rfl⟩ := SyncMemPool.markTx_eq_ok hmark
    refine ⟨hc.inProgress, hc.selected, ?_, hc.committed⟩
    intro e he
    rcases List.mem_append.mp he with he | he
    · exact hc.pool e he
    · rw [List.mem_singleton.mp he]
      exact hr.put time _ _ hA hmemo
  · rw [hput]
    exact ⟨hc.inProgress, hc.selected, hc.pool, hc.committed⟩
  · rw [hput]
    exact ⟨hc.inProgress, hc.selected, hc.pool, hc.committed⟩

/-- A chain with nothing in progress, whose pool and history are parts of the old. -/
theorem MemosHold.selecting {c c' : Chain τ} (hc : MemosHold P Q c) (hprog : c'.inProgress = [])
    (hsel : ∀ e ∈ c'.selected, P e.2.memo) (hpool : ∀ e ∈ c'.pool.items, e ∈ c.pool.items)
    (hhistory : c'.history = c.history) : MemosHold P Q c' where
  inProgress := by
    rw [hprog]
    exact fun e he => nomatch he
  selected := hsel
  pool := fun e he => hc.pool e (hpool e he)
  committed := by
    rw [hhistory]
    exact hc.committed

theorem propose_memos (hr : MemoRules cfg A P Q) {c : Chain τ} (hc : MemosHold P Q c)
    (timestamp : PyFloat) (draws : Nat → Nat × PyFloat) :
    MemosHold P Q (c.propose cfg timestamp draws) := by
  have hgens : ∀ gens, (if c.genXtxFlag then generateXtx cfg c.blocks.blockNum draws else .ok [])
      = .ok gens → ∀ e ∈ gens.map (fun tx => ((none : Option τ), tx)), P e.2.memo := by
    intro gens hgen e he
    obtain ⟨tx, htx, rfl⟩ := List.mem_map.mp he
    cases hflag : c.genXtxFlag with
    | false =>
        rw [hflag] at hgen
        cases hgen
        cases htx
    | true =>
        rw [hflag] at hgen
        obtain ⟨i, _, hi⟩ := mapE_mem_right hgen htx
        obtain ⟨dstid, hmem, hmemo⟩ := buildXtx_memo hi
        rw [hmemo]
        exact hr.generate dstid hmem _
  unfold propose
  split
  next => exact hc.selecting rfl (fun e he => nomatch he) (fun e he => he) rfl
  next gens hgen =>
      have htxs := hgens gens hgen
      dsimp only
      split
      · exact hc.selecting rfl htxs (fun e he => he) rfl
      · exact hc.selecting rfl htxs (fun e he => he) rfl

/-- Taking from the pool keeps a predicate that the mark keeps. -/
theorem popTx_memo (hr : MemoRules cfg A P Q) (time : PyFloat) {mp : SyncMemPool τ} {tag : τ}
    {tx : Transaction} {rest : List (τ × Transaction)} (h : mp.items = (tag, tx) :: rest)
    (htx : P tx.memo) :
    ∃ tx', mp.popTx time = (some (tag, tx'), { mp with items := rest }) ∧ P tx'.memo := by
  unfold SyncMemPool.popTx
  rw [h]
  cases hm : SyncMemPool.markTx "mp_get" time tx with
  | error e => exact ⟨tx, by simp only [hm], htx⟩
  | ok tx' =>
      obtain ⟨memo, hmemo, heq⟩ := SyncMemPool.markTx_eq_ok hm
      refine ⟨tx', by simp only [hm], ?_⟩
      rw [heq]
      exact hr.take time _ _ htx hmemo

theorem takeTx_memos (hr : MemoRules cfg A P Q) {c : Chain τ} (hc : MemosHold P Q c)
    {timestamp : PyFloat} {txs : List (Option τ × Transaction)}
    (h : c.phase = .selecting timestamp txs) (time : PyFloat) :
    MemosHold P Q (c.takeTx cfg time timestamp txs) := by
  have htxs : ∀ e ∈ txs, P e.2.memo := by
    have hsel := hc.selected
    simp only [selected, h] at hsel
    exact hsel
  unfold takeTx
  rcases hi : c.pool.items with _ | ⟨⟨tag, tx⟩, rest⟩
  · rw [SyncMemPool.popTx_nil time hi]
    exact hc.selecting rfl htxs (fun e he => he) rfl
  · have hpool : ∀ e ∈ (tag, tx) :: rest, P e.2.memo := hi ▸ hc.pool
    obtain ⟨tx', hrun, htx'⟩ := popTx_memo hr time hi (hpool (tag, tx) List.mem_cons_self)
    rw [hrun]
    have hnew : ∀ e ∈ txs ++ [(some tag, { tx' with status := TxStatus.proposing })],
        P e.2.memo := by
      intro e he
      rcases List.mem_append.mp he with he | he
      · exact htxs e he
      · rw [List.mem_singleton.mp he]
        exact htx'
    have hrest : ∀ e ∈ rest, e ∈ c.pool.items := by
      rw [hi]
      exact fun e he => List.mem_cons_of_mem _ he
    dsimp only
    split
    · exact hc.selecting rfl hnew hrest rfl
    · exact hc.selecting rfl hnew hrest rfl

section Steps

variable [Contracts] [Sha256]

theorem executeNext_memos {c : Chain τ} (hc : MemosHold P Q c) {p : Proposal τ} {tag : Option τ}
    {tx : Transaction} {rest : List (Option τ × Transaction)} (h : c.phase = .executing p)
    (hrest : p.rest = (tag, tx) :: rest) : MemosHold P Q (c.executeNext p tag tx rest) := by
  have hdone : ∀ e ∈ p.done, P e.tx.memo := by
    have hprog := hc.inProgress
    simp only [inProgress, h] at hprog
    exact hprog
  have hwait : ∀ e ∈ p.rest, P e.2.memo := by
    have hsel := hc.selected
    simp only [selected, h] at hsel
    exact hsel
  have hsel : ∀ e ∈ (tag, tx) :: rest, P e.2.memo := hrest ▸ hwait
  unfold executeNext
  rcases hx : Executor.executeTx ⟨some p.block⟩ p.height p.done.length tx c.store with
    ⟨e | resp, store⟩
  · exact ⟨hdone, hwait, hc.pool, hc.committed⟩
  · refine ⟨?_, fun e he => hsel e (List.mem_cons_of_mem _ he), hc.pool, hc.committed⟩
    intro e he
    rcases List.mem_append.mp he with he | he
    · exact hdone e he
    · rw [List.mem_singleton.mp he]
      exact hsel (tag, tx) List.mem_cons_self

omit [Contracts] in
theorem commit_memos (hr : MemoRules cfg A P Q) {c : Chain τ} (hc : MemosHold P Q c)
    {p : Proposal τ} (h : c.phase = .executing p) (hrest : p.rest = []) (time : PyFloat) :
    MemosHold P Q (c.commit time p) := by
  have hdone : ∀ e ∈ p.done, P e.tx.memo := by
    have hprog := hc.inProgress
    simp only [inProgress, h] at hprog
    exact hprog
  have hnone : ∀ e ∈ p.rest, P e.2.memo := by
    rw [hrest]
    exact fun e he => by cases he
  have hhalt : MemosHold P Q (c.halt (some p)) := ⟨hdone, hnone, hc.pool, hc.committed⟩
  unfold commit
  cases htxs : commitTxs time p with
  | error e => exact hhalt
  | ok slots =>
      dsimp only
      cases hb : (p.committed slots).asStr >>= c.blocks.append with
      | error e => exact hhalt
      | ok blocks =>
          refine ⟨?_, ?_, hc.pool, ?_⟩
          · intro e he
            cases he
          · intro e he
            cases he
          intro r hmem s hs
          rcases List.mem_append.mp hmem with hmem | hmem
          · exact hc.committed r hmem s hs
          · rw [List.mem_singleton.mp hmem] at hs
            obtain ⟨e, he, memo, hmemo, rfl⟩ := forall₂_mem_right (commitTxs_slots htxs) hs
            exact hr.commit time _ _ (hdone e he) hmemo

/-- **What the marks keep, every step keeps.** -/
theorem step_memos (hr : MemoRules cfg A P Q) {c c' : Chain τ} {a : Action τ}
    (hc : MemosHold P Q c) (ha : SubmitsOnly A a) (h : step cfg c a = some c') :
    MemosHold P Q c' := by
  cases step_cases h with
  | submit time tag tx => exact submit_memos hr hc time tag (ha time tag tx rfl)
  | setMining on => exact ⟨hc.inProgress, hc.selected, hc.pool, hc.committed⟩
  | setGenXtx on => exact ⟨hc.inProgress, hc.selected, hc.pool, hc.committed⟩
  | setRunning on => exact ⟨hc.inProgress, hc.selected, hc.pool, hc.committed⟩
  | propose hphase timestamp draws => exact propose_memos hr hc timestamp draws
  | takeTx hphase time => exact takeTx_memos hr hc hphase time
  | executeNext hphase hrest => exact executeNext_memos hc hphase hrest
  | commit hphase hrest time => exact commit_memos hr hc hphase hrest time

end Steps

/-- A chain before its first step, with an empty pool, holds no transaction. -/
theorem Fresh.memos {c : Chain τ} (h : Fresh c) (hpool : c.pool.items = []) :
    MemosHold P Q c := by
  obtain ⟨hsel, hprog⟩ := idle_queues h.phase
  refine ⟨?_, ?_, ?_, ?_⟩
  · rw [hprog]
    exact fun e he => nomatch he
  · rw [hsel]
    exact fun e he => nomatch he
  · rw [hpool]
    exact fun e he => nomatch he
  · rw [h.history]
    exact fun r hr => nomatch hr

/-! ## §3. Time marks. -/

theorem stamped_xtxMemo (dstid : Int) (time : PyFloat) : Stamped (xtxMemo dstid time) := by
  refine ⟨_, [("init", .float time)], loadsValue_memoOf ?_, rfl⟩
  rw [Json.wf_obj_iff]
  refine ⟨by simp, ?_⟩
  simp [Json.wf, Json.wfFields]

/-- **Every transaction on its way has time marks**, whatever was submitted. -/
theorem stamped_rules (cfg : Config) :
    MemoRules cfg (fun _ => True) Stamped (fun _ => True) where
  put := fun _ _ _ _ h => stamped_stampMemo h
  take := fun _ _ _ _ h => stamped_stampMemo h
  generate := fun dstid _ time => stamped_xtxMemo dstid time
  commit := fun _ _ _ _ _ => trivial

/-- The time of a block's commit: the last commit mark of each of its transactions. -/
def CommitTime (r : Committed τ) (time : PyFloat) : Prop :=
  ∀ s ∈ r.slots, ∃ xs, tsField s.tx.memo "commit" = some (.arr (xs ++ [.float time]))

end Chain

end TorSim
