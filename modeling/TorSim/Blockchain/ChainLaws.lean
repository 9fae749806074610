/-
  TorSim.Blockchain.ChainLaws — what one step of a chain does.

  On its way from a submission to a committed block a transaction is marked,
  re-encoded and its status rewritten several times.  What stays is its body,
  and its memo but for the time marks: `kept`.  In terms of `kept`, every step
  of a chain is one of five moves on two queues, the executed and the waiting
  transactions.

  Main results:
    * `step_cases` — inversion of a step.
    * `commitTxs_eq_ok` — what a commit does to each transaction.
    * `storedBlock` — the stored block is the committed one.
    * `step_move` — **every step is one of five moves**.
-/
import TorSim.Blockchain.Chain
import Mathlib.Data.List.Forall2

namespace TorSim

open TorSim.Lib

/-! ## §1. What is kept of a transaction. -/

/-- A transaction without its status, height, output and time marks. -/
structure Kept where
  sender : Json
  to_ : Json
  data : Json
  memo : String → Option Json

def Transaction.kept (tx : Transaction) : Kept where
  sender := tx.sender
  to_ := tx.to_
  data := tx.data
  memo := fun k => if k = "ts" then none else memoField tx.memo k

theorem Transaction.kept_eq {tx tx' : Transaction} (hb : tx'.body = tx.body)
    (hm : ∀ k, k ≠ "ts" → memoField tx'.memo k = memoField tx.memo k) : tx'.kept = tx.kept := by
  obtain ⟨hs, ht, hd⟩ : tx'.sender = tx.sender ∧ tx'.to_ = tx.to_ ∧ tx'.data = tx.data := by
    simpa [Transaction.body] using hb
  have hmemo : (fun k => if k = "ts" then none else memoField tx'.memo k)
      = fun k => if k = "ts" then none else memoField tx.memo k := by
    funext k
    by_cases hk : k = "ts"
    · rw [if_pos hk, if_pos hk]
    · rw [if_neg hk, if_neg hk, hm k hk]
  unfold Transaction.kept
  rw [hs, ht, hd, hmemo]

theorem kept_markTx {key : String} {time : PyFloat} {tx tx' : Transaction}
    (h : SyncMemPool.markTx key time tx = .ok tx') : tx'.kept = tx.kept := by
  obtain ⟨hb, _, hm⟩ := SyncMemPool.markTx_keeps h
  exact Transaction.kept_eq hb hm

namespace Chain

variable {τ : Type}

/-- The executed transactions, as far as they are kept. -/
def done (c : Chain τ) : List (Option τ × Kept) := c.executed.map (fun e => (e.tag, e.tx.kept))

/-- The waiting transactions, as far as they are kept. -/
def waiting (c : Chain τ) : List (Option τ × Kept) := c.pending.map (fun e => (e.1, e.2.kept))

/-! ## §2. What a step is. -/

section Steps

variable [Contracts] [Sha256]

/-- The steps of a chain, each with what enables it. -/
inductive StepCase (cfg : Config) (c : Chain τ) : Action τ → Chain τ → Prop where
  | submit (time : PyFloat) (tag : τ) (tx : Transaction) :
      StepCase cfg c (.submit time tag tx) (c.submit time tag tx)
  | setMining (on : Bool) : StepCase cfg c (.setMining on) { c with mining := on }
  | setGenXtx (on : Bool) : StepCase cfg c (.setGenXtx on) { c with genXtxFlag := on }
  | setRunning (on : Bool) : StepCase cfg c (.setRunning on) { c with running := on }
  | propose (hphase : c.phase = .idle) (timestamp : PyFloat) (draws : Nat → Nat × PyFloat) :
      StepCase cfg c (.propose timestamp draws) (c.propose cfg timestamp draws)
  | takeTx {timestamp : PyFloat} {txs : List (Option τ × Transaction)}
      (hphase : c.phase = .selecting timestamp txs) (time : PyFloat) :
      StepCase cfg c (.takeTx time) (c.takeTx cfg time timestamp txs)
  | executeNext {p : Proposal τ} {tag : Option τ} {tx : Transaction}
      {rest : List (Option τ × Transaction)} (hphase : c.phase = .executing p)
      (hrest : p.rest = (tag, tx) :: rest) :
      StepCase cfg c .executeNext (c.executeNext p tag tx rest)
  | commit {p : Proposal τ} (hphase : c.phase = .executing p) (hrest : p.rest = [])
      (time : PyFloat) : StepCase cfg c (.commit time) (c.commit time p)

/-- **Inversion of a step.** -/
theorem step_cases {cfg : Config} {c c' : Chain τ} {a : Action τ} (h : step cfg c a = some c') :
    StepCase cfg c a c' := by
  cases a with
  | submit time tag tx =>
      cases h
      exact .submit time tag tx
  | setMining on =>
      cases h
      exact .setMining on
  | setGenXtx on =>
      cases h
      exact .setGenXtx on
  | setRunning on =>
      cases h
      exact .setRunning on
  | propose timestamp draws =>
      rw [step] at h
      split at h
      next hphase =>
          split at h
          next =>
              cases h
              exact .propose hphase timestamp draws
          next => cases h
      next => cases h
  | takeTx time =>
      rw [step] at h
      split at h
      next hphase =>
          cases h
          exact .takeTx hphase time
      next => cases h
  | executeNext =>
      rw [step] at h
      split at h
      next p hphase =>
          split at h
          next hrest =>
              cases h
              exact .executeNext hphase hrest
          next => cases h
      next => cases h
  | commit time =>
      rw [step] at h
      split at h
      next p hphase =>
          split at h
          next hrest =>
              cases h
              exact .commit hphase (List.isEmpty_iff.mp hrest) time
          next => cases h
      next => cases h

end Steps

/-! ## §3. The commit. -/

section Commit

variable [Sha256]

/-- What a commit makes of one executed transaction. -/
structure CommitsTo (height : Int) (e s : Executed τ) : Prop where
  tag : s.tag = e.tag
  code : s.code = e.code
  kept : s.tx.kept = e.tx.kept
  height : s.tx.height = height
  status : s.tx.status = .success
  memo : Stamped s.tx.memo

omit [Sha256] in
theorem markCommit_eq_ok {time : PyFloat} {e m : Executed τ} (h : markCommit time e = .ok m)
    (height : Int) : CommitsTo height e (updateTx height m) := by
  obtain ⟨tx, htx, h⟩ := except_bind_ok h
  cases h
  have hkept := kept_markTx htx
  obtain ⟨memo, hmemo, rfl⟩ := SyncMemPool.markTx_eq_ok htx
  exact ⟨rfl, rfl, hkept, rfl, rfl, stamped_stampMemo hmemo⟩

/-- **What a commit does to each transaction**: marked, indexed, updated. -/
theorem commitTxs_eq_ok {time : PyFloat} {p : Proposal τ} {slots : List (Executed τ)}
    (h : commitTxs time p = .ok slots) : List.Forall₂ (CommitsTo p.height) p.done slots := by
  obtain ⟨marked, hmarked, h⟩ := except_bind_ok h
  obtain ⟨_, _, h⟩ := except_bind_ok h
  cases h
  rw [List.forall₂_map_right_iff]
  exact (mapE_eq_ok hmarked).imp (fun _ _ hm => markCommit_eq_ok hm p.height)

omit [Sha256] in
/-- A list of marked transactions has well-formed memos. -/
theorem wf_memo_of_commitsTo {height : Int} {es ss : List (Executed τ)}
    (h : List.Forall₂ (CommitsTo height) es ss) : ∀ tx ∈ ss.map Executed.tx, tx.memo.wf = true := by
  intro tx htx
  obtain ⟨s, hs, rfl⟩ := List.mem_map.mp htx
  obtain ⟨e, _, hto⟩ := forall₂_mem_right h hs
  exact wf_of_stamped hto.memo

/-- **The stored block is the committed one**: encoding and decoding it on the way
into the storage changes nothing, and its height is the next one. -/
theorem storedBlock {time : PyFloat} {p : Proposal τ} {slots : List (Executed τ)}
    {blocks blocks' : BlockStorage} (h : commitTxs time p = .ok slots)
    (hs : ((p.committed slots).asStr >>= blocks.append) = .ok blocks') :
    blocks'.blocks = blocks.blocks ++ [p.committed slots] ∧ p.height = blocks.blockNum + 1
      ∧ ∃ s, (p.committed slots).asStr = .ok s := by
  obtain ⟨s, hstr, happend⟩ := except_bind_ok hs
  obtain ⟨b, hb, hheight, hblocks⟩ := BlockStorage.append_eq_ok happend
  have hwf := wf_memo_of_commitsTo (commitTxs_eq_ok h)
  have hsame : b = p.committed slots :=
    Except.ok.inj (hb.symm.trans (Block.fromStr_asStr hwf hstr))
  subst hsame
  exact ⟨hblocks, hheight, s, hstr⟩

omit [Sha256] in
theorem kept_of_commitsTo {height : Int} {es ss : List (Executed τ)}
    (h : List.Forall₂ (CommitsTo height) es ss) :
    ss.map (fun e => (e.tag, e.tx.kept)) = es.map (fun e => (e.tag, e.tx.kept)) := by
  induction h with
  | nil => rfl
  | cons hes _ ih =>
      rw [List.map_cons, List.map_cons, ih, hes.tag, hes.kept]

end Commit

/-! ## §4. Every step is one of five moves. -/

section Move

variable [Contracts] [Sha256]

/-- The moves of a chain on its two queues. -/
inductive Move (cfg : Config) (c : Chain τ) : Action τ → Chain τ → Prop where
  /-- Nothing moves: a switch, a refused submission, a selection, a commit. -/
  | quiet {a : Action τ} {c' : Chain τ} (hdone : c'.done = c.done)
      (hwait : c'.waiting = c.waiting) (hstore : c'.store = c.store)
      (hacc : c'.accepted = c.accepted) : Move cfg c a c'
  /-- A submission joins the end of the waiting transactions. -/
  | accept {time : PyFloat} {tag : τ} {tx : Transaction} {c' : Chain τ}
      (hdone : c'.done = c.done) (hwait : c'.waiting = c.waiting ++ [(some tag, tx.kept)])
      (hstore : c'.store = c.store) (hacc : c'.accepted = c.accepted ++ [(tag, tx)]) :
      Move cfg c (.submit time tag tx) c'
  /-- The generated transactions go in front of the waiting ones. -/
  | generate {timestamp : PyFloat} {draws : Nat → Nat × PyFloat} {gens : List Transaction}
      {c' : Chain τ} (hgen : generateXtx cfg c.blocks.blockNum draws = .ok gens)
      (hdone : c'.done = c.done)
      (hwait : c'.waiting = gens.map (fun tx => (none, tx.kept)) ++ c.waiting)
      (hstore : c'.store = c.store) (hacc : c'.accepted = c.accepted) :
      Move cfg c (.propose timestamp draws) c'
  /-- The first waiting transaction is executed. -/
  | execute {p : Proposal τ} {tag : Option τ} {tx : Transaction} {resp : Response} {c' : Chain τ}
      (hexec : Executor.executeTx ⟨some p.block⟩ p.height p.done.length tx c.store
        = (.ok resp, c'.store))
      (hphase : c.phase = .executing p)
      (hdone : c'.done = c.done ++ [(tag, tx.kept)])
      (hwait : c.waiting = (tag, tx.kept) :: c'.waiting)
      (hacc : c'.accepted = c.accepted) : Move cfg c .executeNext c'
  /-- The execution of the first waiting transaction ends the loop. -/
  | crash {p : Proposal τ} {tag : Option τ} {tx : Transaction}
      {rest : List (Option τ × Kept)} {e : Exn} {c' : Chain τ}
      (hexec : Executor.executeTx ⟨some p.block⟩ p.height p.done.length tx c.store
        = (.error e, c'.store))
      (hphase : c.phase = .executing p)
      (hfirst : c.waiting = (tag, tx.kept) :: rest)
      (hdone : c'.done = c.done) (hwait : c'.waiting = c.waiting)
      (hacc : c'.accepted = c.accepted) (hstop : c'.isStopped = true) : Move cfg c .executeNext c'

theorem submit_move (cfg : Config) (c : Chain τ) (time : PyFloat) (tag : τ)
    (tx : Transaction) : Move cfg c (.submit time tag tx) (c.submit time tag tx) := by
  unfold submit
  rcases SyncMemPool.putTx_cases time tag tx c.pool with
    ⟨tx', _, hmark, hput⟩ | ⟨_, hput⟩ | ⟨e, hput⟩
  · rw [hput]
    refine .accept rfl ?_ rfl rfl
    have hkept : tx'.kept = tx.kept := kept_markTx hmark
    unfold waiting pending selected
    simp only [List.map_append, List.map_cons, List.map_nil, List.append_assoc]
    show _ ++ (_ ++ [(some tag, tx'.kept)]) = _
    rw [hkept]
  · rw [hput]
    exact .quiet rfl rfl rfl rfl
  · rw [hput]
    exact .quiet rfl rfl rfl rfl

omit [Contracts] [Sha256] in
/-- With an idle loop only the pool is waiting, and nothing is in progress. -/
theorem idle_queues {c : Chain τ} (h : c.phase = .idle) :
    c.selected = [] ∧ c.inProgress = [] := by
  simp only [selected, inProgress, h]
  exact ⟨trivial, trivial⟩

theorem propose_move (cfg : Config) {c : Chain τ} (h : c.phase = .idle) (timestamp : PyFloat)
    (draws : Nat → Nat × PyFloat) :
    Move cfg c (.propose timestamp draws) (c.propose cfg timestamp draws) := by
  obtain ⟨hsel, hprog⟩ := idle_queues h
  have hdone : ∀ c' : Chain τ, c'.history = c.history → c'.inProgress = [] → c'.done = c.done := by
    intro c' hh hp
    unfold done executed
    rw [hh, hp, hprog]
  have hwait : ∀ (c' : Chain τ) (txs : List (Option τ × Transaction)), c'.pool = c.pool →
      c'.selected = txs → c'.waiting = txs.map (fun e => (e.1, e.2.kept)) ++ c.waiting := by
    intro c' txs hpool hsel'
    unfold waiting pending
    rw [hpool, hsel', hsel, List.map_append]
    rfl
  unfold propose
  cases hflag : c.genXtxFlag with
  | false =>
      simp only [Bool.false_eq_true, if_false, List.map_nil]
      split
      · exact .quiet (hdone _ rfl rfl) (hwait _ [] rfl rfl) rfl rfl
      · exact .quiet (hdone _ rfl rfl) (hwait _ [] rfl rfl) rfl rfl
  | true =>
      simp only [if_true]
      cases hgen : generateXtx cfg c.blocks.blockNum draws with
      | error e => exact .quiet (hdone _ rfl rfl) (hwait _ [] rfl rfl) rfl rfl
      | ok gens =>
          have hmap : (gens.map (fun tx => ((none : Option τ), tx))).map
              (fun e => (e.1, e.2.kept)) = gens.map (fun tx => (none, tx.kept)) := by
            rw [List.map_map]
            rfl
          dsimp only
          split
          · exact .generate hgen (hdone _ rfl rfl) (by rw [← hmap]; exact hwait _ _ rfl rfl) rfl rfl
          · exact .generate hgen (hdone _ rfl rfl) (by rw [← hmap]; exact hwait _ _ rfl rfl) rfl rfl

theorem takeTx_move (cfg : Config) {c : Chain τ} {timestamp : PyFloat}
    {txs : List (Option τ × Transaction)} (h : c.phase = .selecting timestamp txs)
    (time : PyFloat) : Move cfg c (.takeTx time) (c.takeTx cfg time timestamp txs) := by
  have hsel : c.selected = txs := by simp only [selected, h]
  have hprog : c.inProgress = [] := by simp only [inProgress, h]
  have hdone : ∀ c' : Chain τ, c'.history = c.history → c'.inProgress = [] → c'.done = c.done := by
    intro c' hh hp
    unfold done executed
    rw [hh, hp, hprog]
  unfold takeTx
  rcases hi : c.pool.items with _ | ⟨⟨tag, tx⟩, rest⟩
  · rw [SyncMemPool.popTx_nil time hi]
    refine .quiet (hdone _ rfl rfl) ?_ rfl rfl
    unfold waiting pending
    rw [hsel]
    rfl
  · obtain ⟨tx', hpop, hbody, hmemo⟩ := SyncMemPool.popTx_cons time hi
    rw [hpop]
    have hkept : tx'.kept = tx.kept := Transaction.kept_eq hbody hmemo
    have hwait : ∀ c' : Chain τ, c'.pool.items = rest →
        c'.selected = txs ++ [(some tag, { tx' with status := .proposing })] →
        c'.waiting = c.waiting := by
      intro c' hpool hsel'
      unfold waiting pending
      rw [hpool, hsel', hsel, hi]
      simp only [List.map_append, List.map_cons, List.map_nil, List.append_assoc]
      show _ ++ ([(some tag, tx'.kept)] ++ _) = _
      rw [hkept]
      rfl
    dsimp only
    split
    · exact .quiet (hdone _ rfl rfl) (hwait _ rfl rfl) rfl rfl
    · exact .quiet (hdone _ rfl rfl) (hwait _ rfl rfl) rfl rfl

/-- An execution that returns adds the transaction to the executed ones. -/
theorem executeNext_ok {c : Chain τ} {p : Proposal τ} (tag : Option τ) {tx : Transaction}
    (rest : List (Option τ × Transaction)) {resp : Response} {store : BaseStore}
    (h : c.phase = .executing p)
    (hx : Executor.executeTx ⟨some p.block⟩ p.height p.done.length tx c.store = (.ok resp, store)) :
    (c.executeNext p tag tx rest).done = c.done ++ [(tag, tx.kept)]
      ∧ (c.executeNext p tag tx rest).store = store := by
  have hprog : c.inProgress = p.done := by simp only [inProgress, h]
  unfold executeNext
  rw [hx]
  refine ⟨?_, rfl⟩
  unfold done executed
  rw [hprog]
  show List.map _ (_ ++ (p.done ++ [_])) = _
  rw [← List.append_assoc, List.map_append]
  rfl

/-- An execution that raises leaves the executed transactions as they were. -/
theorem executeNext_error {c : Chain τ} {p : Proposal τ} (tag : Option τ) {tx : Transaction}
    (rest : List (Option τ × Transaction)) {e : Exn} {store : BaseStore}
    (h : c.phase = .executing p)
    (hx : Executor.executeTx ⟨some p.block⟩ p.height p.done.length tx c.store
      = (.error e, store)) :
    (c.executeNext p tag tx rest).done = c.done ∧ (c.executeNext p tag tx rest).store = store := by
  have hprog : c.inProgress = p.done := by simp only [inProgress, h]
  unfold executeNext
  rw [hx]
  refine ⟨?_, rfl⟩
  unfold done executed
  rw [hprog]
  rfl

omit [Contracts] [Sha256] in
/-- The transaction about to be executed is the first waiting one. -/
theorem waiting_head {c : Chain τ} {p : Proposal τ} {tag : Option τ} {tx : Transaction}
    {rest : List (Option τ × Transaction)} (h : c.phase = .executing p)
    (hrest : p.rest = (tag, tx) :: rest) :
    c.waiting = (tag, tx.kept)
      :: (rest ++ c.pool.items.map (fun e => (some e.1, e.2))).map (fun e => (e.1, e.2.kept)) := by
  have hsel : c.selected = p.rest := by simp only [selected, h]
  unfold waiting pending
  rw [hsel, hrest]
  rfl

theorem executeNext_move (cfg : Config) {c : Chain τ} {p : Proposal τ} {tag : Option τ}
    {tx : Transaction} {rest : List (Option τ × Transaction)} (h : c.phase = .executing p)
    (hrest : p.rest = (tag, tx) :: rest) :
    Move cfg c .executeNext (c.executeNext p tag tx rest) := by
  have hfirst := waiting_head h hrest
  have hsel : c.selected = p.rest := by simp only [selected, h]
  rcases hx : Executor.executeTx ⟨some p.block⟩ p.height p.done.length tx c.store with
    ⟨e | resp, store⟩
  · have hdone := (executeNext_error tag rest h hx).1
    unfold executeNext at hdone ⊢
    rw [hx] at hdone ⊢
    refine .crash hx h hfirst hdone ?_ rfl rfl
    unfold waiting pending
    rw [hsel]
    rfl
  · have hdone := (executeNext_ok tag rest h hx).1
    unfold executeNext at hdone ⊢
    rw [hx] at hdone ⊢
    refine .execute hx h hdone ?_ rfl
    rw [hfirst]
    rfl

theorem commit_move (cfg : Config) {c : Chain τ} {p : Proposal τ} (h : c.phase = .executing p)
    (hrest : p.rest = []) (time : PyFloat) : Move cfg c (.commit time) (c.commit time p) := by
  have hsel : c.selected = [] := by simp only [selected, h, hrest]
  have hprog : c.inProgress = p.done := by simp only [inProgress, h]
  have hhalt : Move cfg c (.commit time) (c.halt (some p)) := by
    refine .quiet ?_ ?_ rfl rfl
    · unfold done executed
      rw [hprog]
      rfl
    · unfold waiting pending
      rw [hsel, show (c.halt (some p)).selected = p.rest from rfl, hrest]
      rfl
  unfold commit
  cases htxs : commitTxs time p with
  | error e => exact hhalt
  | ok slots =>
      dsimp only
      cases hb : (p.committed slots).asStr >>= c.blocks.append with
      | error e => exact hhalt
      | ok blocks =>
          refine .quiet ?_ ?_ rfl rfl
          · unfold done executed
            rw [hprog]
            show List.map _ (List.flatMap Committed.slots (c.history ++ [_]) ++ []) = _
            rw [List.append_nil, List.flatMap_append, List.map_append, List.map_append,
              List.flatMap_singleton]
            exact congrArg _ (kept_of_commitsTo (commitTxs_eq_ok htxs))
          · unfold waiting pending
            rw [hsel]
            rfl

/-- **Every step is one of five moves.** -/
theorem step_move {cfg : Config} {c c' : Chain τ} {a : Action τ} (h : step cfg c a = some c') :
    Move cfg c a c' := by
  cases step_cases h with
  | submit time tag tx => exact submit_move cfg c time tag tx
  | setMining on => exact .quiet rfl rfl rfl rfl
  | setGenXtx on => exact .quiet rfl rfl rfl rfl
  | setRunning on => exact .quiet rfl rfl rfl rfl
  | propose hphase timestamp draws => exact propose_move cfg hphase timestamp draws
  | takeTx hphase time => exact takeTx_move cfg hphase time
  | executeNext hphase hrest => exact executeNext_move cfg hphase hrest
  | commit hphase hrest time => exact commit_move cfg hphase hrest time

end Move

end Chain

end TorSim
