/-
  TorSim.Blockchain.ChainRuns — whole runs of one chain.

  Main results:
    * `step_history` — committed blocks change only by a commit, and how.
    * `run_chainInv` — blocks, history and heights agree in every run.
    * `run_flow` — accepted submissions are the tagged transactions of the
      chain, in order.
    * `accepted_in_order` — **no submission is lost, duplicated or reordered**.
    * `executeNext_survives_iff` — **which transactions end the loop**.
-/
import TorSim.Blockchain.ChainLaws

namespace TorSim

open TorSim.Lib

namespace Chain

variable {τ : Type}

/-! ## §1. A chain at its start, and the submissions in a chain. -/

/-- The genesis block. -/
def genesisBlock (time : PyFloat) : Block := { timestamp := time }

/-- A chain before its first step: the genesis block, any pool, any store. -/
structure Fresh (c : Chain τ) : Prop where
  phase : c.phase = .idle
  history : c.history = []
  blocks : ∃ time, c.blocks.blocks = [genesisBlock time]
  accepted : c.accepted = c.pool.items
  bounded : c.pool.Bounded

/-- The tagged transactions of a queue, seen through `f`. -/
def tagged {κ β : Type} (f : κ → β) (xs : List (Option τ × κ)) : List (τ × β) :=
  xs.filterMap (fun e => e.1.map (fun t => (t, f e.2)))

/-- The body of what is kept. -/
def Kept.body (k : Kept) : Json × Json × Json := (k.sender, k.to_, k.data)

theorem tagged_append {κ β : Type} (f : κ → β) (xs ys : List (Option τ × κ)) :
    tagged f (xs ++ ys) = tagged f xs ++ tagged f ys :=
  List.filterMap_append

theorem mem_tagged {κ : Type} {xs : List (Option τ × κ)} {t : τ} {k : κ} :
    (t, k) ∈ tagged id xs ↔ (some t, k) ∈ xs := by
  unfold tagged
  rw [List.mem_filterMap]
  constructor
  · rintro ⟨⟨o, k'⟩, hmem, heq⟩
    obtain ⟨t', rfl, h⟩ := Option.map_eq_some_iff.mp heq
    cases h
    exact hmem
  · exact fun hmem => ⟨(some t, k), hmem, rfl⟩

/-- Generated transactions carry no tag. -/
theorem tagged_generated (gens : List Transaction) :
    tagged id (gens.map (fun tx => ((none : Option τ), tx.kept))) = [] := by
  induction gens with
  | nil => rfl
  | cons tx gens ih => exact ih

/-- The accepted submissions are the tagged transactions of the chain, in order. -/
def Flow (c : Chain τ) : Prop :=
  c.accepted.map (fun e => (e.1, e.2.kept)) = tagged id (c.done ++ c.waiting)

/-- The submissions among the transactions of the committed blocks. -/
def committedTagged (c : Chain τ) : List (τ × Json × Json × Json) :=
  tagged Transaction.body (c.history.flatMap (fun r => r.slots.map (fun s => (s.tag, s.tx))))

/-- The submissions among the transactions of the block in progress. -/
def inProgressTagged (c : Chain τ) : List (τ × Json × Json × Json) :=
  tagged Transaction.body (c.inProgress.map (fun s => (s.tag, s.tx)) ++ c.selected)

/-- The submissions in the pool. -/
def poolTagged (c : Chain τ) : List (τ × Json × Json × Json) :=
  c.pool.items.map (fun e => (e.1, e.2.body))

theorem tagged_kept (xs : List (Option τ × Transaction)) :
    (tagged id (xs.map (fun e => (e.1, e.2.kept)))).map (fun e => (e.1, Kept.body e.2))
      = tagged Transaction.body xs := by
  rw [tagged, tagged, List.filterMap_map, List.map_filterMap]
  refine congrArg (fun f => List.filterMap f xs) (funext fun e => ?_)
  rcases e with ⟨_ | t, tx⟩ <;> rfl

/-- The flow with the bodies only, in the places they are found in. -/
theorem Flow.bodies {c : Chain τ} (h : Flow c) :
    c.accepted.map (fun e => (e.1, e.2.body))
      = c.committedTagged ++ c.inProgressTagged ++ c.poolTagged := by
  have hdone : c.done = (c.history.flatMap (fun r => r.slots.map (fun s => (s.tag, s.tx)))
      ++ c.inProgress.map (fun s => (s.tag, s.tx))).map (fun e => (e.1, e.2.kept)) := by
    unfold done executed
    rw [List.map_append, List.map_append, List.map_flatMap, List.map_flatMap]
    simp only [List.map_map]
    rfl
  have hpool : tagged Transaction.body (c.pool.items.map (fun e => (some e.1, e.2)))
      = c.poolTagged := by
    unfold poolTagged
    induction c.pool.items with
    | nil => rfl
    | cons e es ih =>
        rw [List.map_cons, List.map_cons, ← ih]
        rfl
  have hmap : c.accepted.map (fun e => (e.1, e.2.body))
      = (c.accepted.map (fun e => (e.1, e.2.kept))).map (fun e => (e.1, Kept.body e.2)) := by
    rw [List.map_map]
    rfl
  rw [hmap, h, hdone, waiting, pending, ← List.map_append, tagged_kept]
  simp only [tagged_append, hpool, committedTagged, inProgressTagged, List.append_assoc]

section Runs

variable [Contracts] [Sha256]

/-! ## §2. What changes the committed blocks. -/

/-- A successful commit: the block in progress was executed to its end, encoded,
stored and recorded. -/
structure CommitStep (c c' : Chain τ) (p : Proposal τ) (slots : List (Executed τ)) : Prop where
  phase : c.phase = .executing p
  rest : p.rest = []
  txs : ∃ time, commitTxs time p = .ok slots
  stored : ((p.committed slots).asStr >>= c.blocks.append) = .ok c'.blocks
  history : c'.history = c.history ++ [⟨p.committed slots, slots⟩]
  idle : c'.phase = .idle

omit [Contracts] [Sha256] in
theorem submit_keeps (time : PyFloat) (tag : τ) (tx : Transaction) (c : Chain τ) :
    (c.submit time tag tx).history = c.history ∧ (c.submit time tag tx).blocks = c.blocks
      ∧ (c.submit time tag tx).pool = (c.pool.putTx time tag tx).2 := by
  unfold submit
  rcases SyncMemPool.putTx_cases time tag tx c.pool with ⟨_, _, _, hput⟩ | ⟨_, hput⟩ | ⟨e, hput⟩
  all_goals rw [hput]; exact ⟨rfl, rfl, rfl⟩

omit [Contracts] [Sha256] in
/-- A submission is recorded when the pool takes it, and changes nothing otherwise. -/
theorem submit_cases (time : PyFloat) (tag : τ) (tx : Transaction) (c : Chain τ) :
    ((c.pool.putTx time tag tx).1 = .ok true
        ∧ (c.submit time tag tx).accepted = c.accepted ++ [(tag, tx)])
      ∨ ((c.pool.putTx time tag tx).1 ≠ .ok true ∧ c.submit time tag tx = c) := by
  unfold submit
  rcases SyncMemPool.putTx_cases time tag tx c.pool with ⟨_, _, _, hput⟩ | ⟨_, hput⟩ | ⟨e, hput⟩
  · rw [hput]
    exact Or.inl ⟨rfl, rfl⟩
  · rw [hput]
    exact Or.inr ⟨(fun h => nomatch h), rfl⟩
  · rw [hput]
    exact Or.inr ⟨(fun h => nomatch h), rfl⟩

omit [Contracts] [Sha256] in
theorem propose_keeps (cfg : Config) (timestamp : PyFloat) (draws : Nat → Nat × PyFloat)
    (c : Chain τ) : (c.propose cfg timestamp draws).history = c.history
      ∧ (c.propose cfg timestamp draws).blocks = c.blocks
      ∧ (c.propose cfg timestamp draws).pool = c.pool := by
  unfold propose
  split
  · exact ⟨rfl, rfl, rfl⟩
  · dsimp only
    split <;> exact ⟨rfl, rfl, rfl⟩

omit [Contracts] [Sha256] in
theorem takeTx_keeps (cfg : Config) (time timestamp : PyFloat)
    (txs : List (Option τ × Transaction)) (c : Chain τ) :
    (c.takeTx cfg time timestamp txs).history = c.history
      ∧ (c.takeTx cfg time timestamp txs).blocks = c.blocks
      ∧ (c.takeTx cfg time timestamp txs).pool = (c.pool.popTx time).2 := by
  unfold takeTx
  rcases c.pool.popTx time with ⟨_ | ⟨tag, tx⟩, pool⟩
  · exact ⟨rfl, rfl, rfl⟩
  · dsimp only
    split <;> exact ⟨rfl, rfl, rfl⟩

theorem executeNext_keeps (p : Proposal τ) (tag : Option τ) (tx : Transaction)
    (rest : List (Option τ × Transaction)) (c : Chain τ) :
    (c.executeNext p tag tx rest).history = c.history
      ∧ (c.executeNext p tag tx rest).blocks = c.blocks
      ∧ (c.executeNext p tag tx rest).pool = c.pool := by
  unfold executeNext
  split <;> exact ⟨rfl, rfl, rfl⟩

omit [Contracts] in
/-- A commit ends the loop, or it is a successful one. -/
theorem commit_cases {c : Chain τ} {p : Proposal τ} (hphase : c.phase = .executing p)
    (hrest : p.rest = []) (time : PyFloat) :
    c.commit time p = c.halt (some p) ∨ ∃ slots, CommitStep c (c.commit time p) p slots := by
  unfold commit
  cases htxs : commitTxs time p with
  | error e => exact Or.inl rfl
  | ok slots =>
      dsimp only
      cases hb : (p.committed slots).asStr >>= c.blocks.append with
      | error e => exact Or.inl rfl
      | ok blocks => exact Or.inr ⟨slots, hphase, hrest, ⟨time, htxs⟩, hb, rfl, rfl⟩

omit [Contracts] in
/-- A block whose transactions have documents is appended as it is. -/
theorem append_committed {c : Chain τ} {p : Proposal τ} {time : PyFloat}
    {slots : List (Executed τ)} {docs : List Json} (hheight : p.height = c.blocks.blockNum + 1)
    (htxs : commitTxs time p = .ok slots)
    (hdocs : mapE Transaction.asJson (slots.map Executed.tx) = .ok docs) :
    ((p.committed slots).asStr >>= c.blocks.append)
      = .ok ⟨c.blocks.blocks ++ [p.committed slots]⟩ := by
  obtain ⟨d, _, hjson⟩ := @Block.asJson_of_txs _ (p.committed slots) docs hdocs
  obtain ⟨text, hstr⟩ : ∃ text, (p.committed slots).asStr = .ok text :=
    ⟨_, by rw [Block.asStr, hjson]; rfl⟩
  have hdecoded := Block.fromStr_asStr (wf_memo_of_commitsTo (commitTxs_eq_ok htxs)) hstr
  rw [hstr]
  show c.blocks.append _ = _
  rw [BlockStorage.append, hdecoded]
  show (assertE (decide (p.height = c.blocks.blockNum + 1)) "" >>= _) = _
  rw [decide_eq_true hheight]
  rfl

omit [Contracts] in
/-- What such a commit leaves. -/
theorem commit_eq {c : Chain τ} {p : Proposal τ} {time : PyFloat} {slots : List (Executed τ)}
    {docs : List Json} (hheight : p.height = c.blocks.blockNum + 1)
    (htxs : commitTxs time p = .ok slots)
    (hdocs : mapE Transaction.asJson (slots.map Executed.tx) = .ok docs) :
    c.commit time p = { c with
      blocks := ⟨c.blocks.blocks ++ [p.committed slots]⟩
      phase := .idle
      history := c.history ++ [⟨p.committed slots, slots⟩] } := by
  unfold commit
  rw [htxs]
  dsimp only
  rw [append_committed hheight htxs hdocs]

omit [Contracts] in
/-- **When a commit succeeds**: the marks and the hashes can be made, and every
transaction has a document. -/
theorem commit_succeeds {c : Chain τ} {p : Proposal τ} {time : PyFloat}
    {slots : List (Executed τ)} {docs : List Json} (hphase : c.phase = .executing p)
    (hrest : p.rest = []) (hheight : p.height = c.blocks.blockNum + 1)
    (htxs : commitTxs time p = .ok slots)
    (hdocs : mapE Transaction.asJson (slots.map Executed.tx) = .ok docs) :
    CommitStep c (c.commit time p) p slots := by
  rw [commit_eq hheight htxs hdocs]
  exact ⟨hphase, hrest, ⟨time, htxs⟩, append_committed hheight htxs hdocs, rfl, rfl⟩

/-- **Committed blocks change only by a commit.** -/
theorem step_history {cfg : Config} {c c' : Chain τ} {a : Action τ}
    (h : step cfg c a = some c') :
    (c'.history = c.history ∧ c'.blocks = c.blocks)
      ∨ ∃ time p slots, a = .commit time ∧ CommitStep c c' p slots := by
  cases step_cases h with
  | submit time tag tx =>
      obtain ⟨hh, hb, _⟩ := submit_keeps time tag tx c
      exact Or.inl ⟨hh, hb⟩
  | setMining on => exact Or.inl ⟨rfl, rfl⟩
  | setGenXtx on => exact Or.inl ⟨rfl, rfl⟩
  | setRunning on => exact Or.inl ⟨rfl, rfl⟩
  | propose hphase timestamp draws =>
      obtain ⟨hh, hb, _⟩ := propose_keeps cfg timestamp draws c
      exact Or.inl ⟨hh, hb⟩
  | takeTx hphase time =>
      obtain ⟨hh, hb, _⟩ := takeTx_keeps cfg time _ _ c
      exact Or.inl ⟨hh, hb⟩
  | executeNext hphase hrest =>
      obtain ⟨hh, hb, _⟩ := executeNext_keeps _ _ _ _ c
      exact Or.inl ⟨hh, hb⟩
  | commit hphase hrest time =>
      rcases commit_cases hphase hrest time with hhalt | ⟨slots, hcommit⟩
      · rw [hhalt]
        exact Or.inl ⟨rfl, rfl⟩
      · exact Or.inr ⟨time, _, slots, rfl, hcommit⟩

/-! ## §3. Blocks, history and heights. -/

/-- A committed block: its transactions are the record's, each with the block's
height, the success status and time marks in its memo; it can be encoded. -/
structure CommittedOk (r : Committed τ) : Prop where
  txs : r.block.txs = r.slots.map Executed.tx
  height : ∀ s ∈ r.slots, s.tx.height = r.block.height
  status : ∀ s ∈ r.slots, s.tx.status = .success
  memo : ∀ s ∈ r.slots, Stamped s.tx.memo
  encodable : ∃ s, r.block.asStr = .ok s

/-- The blocks are the first ones and the committed ones, each at its height. -/
structure ChainInv (base : List Block) (c : Chain τ) : Prop where
  blocks : c.blocks.blocks = base ++ c.history.map Committed.block
  aligned : ∀ (n : Nat) (b : Block), c.blocks.blocks[n]? = some b → b.height = n
  committed : ∀ r ∈ c.history, CommittedOk r

omit [Contracts] in
theorem committedOk_of_commit {c c' : Chain τ} {p : Proposal τ} {slots : List (Executed τ)}
    (h : CommitStep c c' p slots) :
    CommittedOk (⟨p.committed slots, slots⟩ : Committed τ)
      ∧ c'.blocks.blocks = c.blocks.blocks ++ [p.committed slots]
      ∧ p.height = c.blocks.blockNum + 1 := by
  obtain ⟨time, htxs⟩ := h.txs
  obtain ⟨hblocks, hheight, henc⟩ := storedBlock htxs h.stored
  have hall := commitTxs_eq_ok htxs
  have hmem : ∀ s ∈ slots, ∃ e, CommitsTo p.height e s := by
    intro s hs
    obtain ⟨e, _, he⟩ := forall₂_mem_right hall hs
    exact ⟨e, he⟩
  refine ⟨⟨rfl, ?_, ?_, ?_, henc⟩, hblocks, hheight⟩
  · intro s hs
    obtain ⟨e, he⟩ := hmem s hs
    exact he.height
  · intro s hs
    obtain ⟨e, he⟩ := hmem s hs
    exact he.status
  · intro s hs
    obtain ⟨e, he⟩ := hmem s hs
    exact he.memo

theorem step_chainInv {cfg : Config} {base : List Block} {c c' : Chain τ} {a : Action τ}
    (hc : ChainInv base c) (h : step cfg c a = some c') : ChainInv base c' := by
  rcases step_history h with ⟨hh, hb⟩ | ⟨time, p, slots, _, hcommit⟩
  · exact ⟨by rw [hb, hh, hc.blocks], by rw [hb]; exact hc.aligned, by rw [hh]; exact hc.committed⟩
  · obtain ⟨hok, hblocks, hheight⟩ := committedOk_of_commit hcommit
    refine ⟨?_, ?_, ?_⟩
    · rw [hblocks, hcommit.history, hc.blocks, List.map_append, List.append_assoc]
      rfl
    · intro n b hn
      rw [hblocks] at hn
      by_cases hlt : n < c.blocks.blocks.length
      · rw [List.getElem?_append_left hlt] at hn
        exact hc.aligned n b hn
      · rw [List.getElem?_append_right (by omega)] at hn
        have hn0 : n - c.blocks.blocks.length = 0 := by
          by_contra hne
          rw [List.getElem?_eq_none (by simp; omega)] at hn
          cases hn
        rw [hn0] at hn
        cases hn
        show p.height = n
        rw [hheight, BlockStorage.blockNum]
        omega
    · intro r hr
      rw [hcommit.history] at hr
      rcases List.mem_append.mp hr with hr | hr
      · exact hc.committed r hr
      · rw [List.mem_singleton.mp hr]
        exact hok

/-- **Blocks, history and heights agree in every run.** -/
theorem run_chainInv {cfg : Config} {base : List Block} {c c' : Chain τ}
    {acts : List (Action τ)} (h : runFrom (step cfg) c acts = some c') (hc : ChainInv base c) :
    ChainInv base c' :=
  run_invariant (fun _ _ _ hi hs => step_chainInv hi hs) acts h hc

/-! ## §4. Accepted submissions. -/

theorem step_flow {cfg : Config} {c c' : Chain τ} {a : Action τ} (hc : Flow c)
    (h : step cfg c a = some c') : Flow c' := by
  unfold Flow at hc ⊢
  cases step_move h with
  | quiet hd hw _ ha => rw [hd, hw, ha, hc]
  | accept hd hw _ ha =>
      rw [hd, hw, ha, List.map_append, hc, ← List.append_assoc, tagged_append _ (_ ++ _)]
      rfl
  | generate _ hd hw _ ha =>
      rw [hd, hw, ha, hc]
      simp only [tagged_append, tagged_generated, List.nil_append]
  | execute _ _ hd hw ha =>
      rw [hd, ha, hc, hw, List.append_assoc]
      rfl
  | crash _ _ _ hd hw ha _ => rw [hd, hw, ha, hc]

/-- **The flow of every run.** -/
theorem run_flow {cfg : Config} {c c' : Chain τ} {acts : List (Action τ)}
    (h : runFrom (step cfg) c acts = some c') (hc : Flow c) : Flow c' :=
  run_invariant (fun _ _ _ hi hs => step_flow hi hs) acts h hc

/-- The pool changes only by a submission and by a selection. -/
theorem step_pool {cfg : Config} {c c' : Chain τ} {a : Action τ} (h : step cfg c a = some c') :
    c'.pool = c.pool ∨ (∃ time tag tx, c'.pool = (c.pool.putTx time tag tx).2)
      ∨ ∃ time, c'.pool = (c.pool.popTx time).2 := by
  cases step_cases h with
  | submit time tag tx => exact Or.inr (Or.inl ⟨time, tag, tx, (submit_keeps time tag tx c).2.2⟩)
  | setMining on => exact Or.inl rfl
  | setGenXtx on => exact Or.inl rfl
  | setRunning on => exact Or.inl rfl
  | propose hphase timestamp draws =>
      exact Or.inl (propose_keeps cfg timestamp draws c).2.2
  | takeTx hphase time => exact Or.inr (Or.inr ⟨time, (takeTx_keeps cfg time _ _ c).2.2⟩)
  | executeNext hphase hrest => exact Or.inl (executeNext_keeps _ _ _ _ c).2.2
  | commit hphase hrest time =>
      refine Or.inl ?_
      unfold commit
      split
      · rfl
      · split <;> rfl

/-- Every step keeps the bound of the pool. -/
theorem step_bounded {cfg : Config} {c c' : Chain τ} {a : Action τ} (hc : c.pool.Bounded)
    (h : step cfg c a = some c') : c'.pool.Bounded := by
  rcases step_pool h with hp | ⟨time, tag, tx, hp⟩ | ⟨time, hp⟩
  · rw [hp]
    exact hc
  · rw [hp]
    exact SyncMemPool.putTx_bounded time tag tx hc
  · rw [hp]
    exact SyncMemPool.popTx_bounded time hc

omit [Contracts] in
theorem Fresh.chainInv {c : Chain τ} (h : Fresh c) : ChainInv c.blocks.blocks c := by
  obtain ⟨time, hb⟩ := h.blocks
  refine ⟨by rw [h.history]; simp, ?_, by rw [h.history]; simp⟩
  intro n b hn
  rw [hb] at hn
  cases n with
  | zero =>
      cases hn
      rfl
  | succ n => cases hn

omit [Contracts] [Sha256] in
theorem Fresh.flow {c : Chain τ} (h : Fresh c) : Flow c := by
  obtain ⟨hsel, hprog⟩ := idle_queues h.phase
  unfold Flow done waiting executed pending
  rw [h.accepted, h.history, hsel, hprog]
  show _ = tagged id (List.map _ (List.map _ c.pool.items))
  induction c.pool.items with
  | nil => rfl
  | cons e es ih =>
      rw [List.map_cons, ih]
      rfl

/-- The block in progress has the next height. -/
def Proposed (c : Chain τ) : Prop :=
  ∀ p, c.phase = .executing p → p.height = c.blocks.blockNum + 1

theorem step_proposed {cfg : Config} {c c' : Chain τ} {a : Action τ} (hc : Proposed c)
    (h : step cfg c a = some c') : Proposed c' := by
  cases step_cases h with
  | submit time tag tx =>
      have hphase : (c.submit time tag tx).phase = c.phase := by
        unfold submit
        split <;> rfl
      intro p hp
      rw [(submit_keeps time tag tx c).2.1]
      exact hc p (hphase ▸ hp)
  | setMining on => exact hc
  | setGenXtx on => exact hc
  | setRunning on => exact hc
  | propose hphase timestamp draws =>
      intro p hp
      rw [(propose_keeps cfg timestamp draws c).2.1]
      unfold propose at hp
      split at hp
      next => cases hp
      next =>
          dsimp only at hp
          split at hp
          next =>
              cases hp
              rfl
          next => cases hp
  | @takeTx timestamp txs hphase time =>
      intro p hp
      rw [(takeTx_keeps cfg time timestamp txs c).2.1]
      unfold takeTx at hp
      split at hp
      next =>
          cases hp
          rfl
      next =>
          dsimp only at hp
          split at hp
          next =>
              cases hp
              rfl
          next => cases hp
  | @executeNext p tag tx rest hphase hrest =>
      intro q hq
      rw [(executeNext_keeps p tag tx rest c).2.1]
      unfold executeNext at hq
      split at hq
      next =>
          cases hq
          exact hc p hphase
      next => cases hq
  | @commit p hphase hrest time =>
      intro q hq
      rcases commit_cases hphase hrest time with hhalt | ⟨slots, hcommit⟩
      · rw [hhalt] at hq
        cases hq
      · rw [hcommit.idle] at hq
        cases hq

omit [Contracts] [Sha256] in
theorem Fresh.proposed {c : Chain τ} (h : Fresh c) : Proposed c := by
  intro p hp
  rw [h.phase] at hp
  cases hp

/-- **History only grows**, and the blocks with it. -/
theorem step_grows {cfg : Config} {c c' : Chain τ} {a : Action τ} (h : step cfg c a = some c') :
    c.history <+: c'.history := by
  rcases step_history h with ⟨hh, _⟩ | ⟨time, p, slots, _, hcommit⟩
  · simp only [hh, List.prefix_rfl]
  · rw [hcommit.history]
    exact List.prefix_append _ _

omit [Contracts] [Sha256] in
/-- The last block's number is the number of committed blocks. -/
theorem ChainInv.blockNum [Sha256] {b : Block} {c : Chain τ} (h : ChainInv [b] c) :
    c.blocks.blockNum = c.history.length := by
  rw [BlockStorage.blockNum, h.blocks]
  simp

/-! ## §5. Generated transactions. -/

/-- A generated transaction, as far as it is kept: a cross-chain one to one of the
configured destinations, calling the light client. -/
structure Generated (cfg : Config) (k : Kept) : Prop where
  to_ : k.to_ = .str "lightclient"
  data : ∃ args : List Json, (∀ a ∈ args, a.wf = true)
    ∧ k.data = .str (CtrLightClient.request .appInit args)
  type : k.memo "type" = some (.str TranMemo.ctxSrc)
  dst : ∃ dstid ∈ cfg.xtxConfig.dstids, k.memo "dst" = some (.int dstid)

omit [Contracts] [Sha256] in
theorem buildXtx_generated {cfg : Config} {blockNum : Int} {idx : Nat} {draw : Nat × PyFloat}
    {tx : Transaction} (h : buildXtx cfg.xtxConfig blockNum idx draw = .ok tx) :
    Generated cfg tx.kept := by
  obtain ⟨dstid, hchoice, h⟩ := except_bind_ok h
  obtain ⟨cls, _, h⟩ := except_bind_ok h
  have hmem : dstid ∈ cfg.xtxConfig.dstids := by
    unfold choice at hchoice
    split at hchoice
    next x hx =>
        cases hchoice
        exact List.mem_of_getElem? hx
    next => cases hchoice
  simp only [Transaction.fromJson, Json.getItem, List.lookup_cons, List.lookup_nil] at h
  cases h
  have hfield : ∀ k, k ≠ "ts" → (if k = "ts" then none else memoField (xtxMemo dstid draw.2) k)
      = [("type", Json.str TranMemo.ctxSrc), ("dst", .int dstid),
        ("ts", .obj [("init", .float draw.2)])].lookup k := by
    intro k hk
    rw [if_neg hk, memoField_xtxMemo]
  refine ⟨rfl, ⟨_, by simp [Json.wf], rfl⟩, hfield "type" (by decide), dstid, hmem,
    hfield "dst" (by decide)⟩

/-- What waits or is done without a tag was generated. -/
def Untagged (cfg : Config) (c : Chain τ) : Prop :=
  ∀ k, (none, k) ∈ c.done ++ c.waiting → Generated cfg k

theorem step_untagged {cfg : Config} {c c' : Chain τ} {a : Action τ} (hc : Untagged cfg c)
    (h : step cfg c a = some c') : Untagged cfg c' := by
  unfold Untagged at hc ⊢
  cases step_move h with
  | quiet hd hw _ _ =>
      rw [hd, hw]
      exact hc
  | accept hd hw _ _ =>
      rw [hd, hw, ← List.append_assoc]
      intro k hk
      rcases List.mem_append.mp hk with hk | hk
      · exact hc k hk
      · cases List.mem_singleton.mp hk
  | @generate _ _ gens _ hgen hd hw _ _ =>
      rw [hd, hw]
      intro k hk
      rcases List.mem_append.mp hk with hk | hk
      · exact hc k (List.mem_append_left _ hk)
      · rcases List.mem_append.mp hk with hk | hk
        · obtain ⟨tx, htx, heq⟩ := List.mem_map.mp hk
          cases heq
          obtain ⟨i, _, hi⟩ := mapE_mem_right hgen htx
          exact buildXtx_generated hi
        · exact hc k (List.mem_append_right _ hk)
  | execute _ _ hd hw _ =>
      rw [hd, List.append_assoc]
      rw [hw] at hc
      exact hc
  | crash _ _ _ hd hw _ _ =>
      rw [hd, hw]
      exact hc

omit [Contracts] [Sha256] in
theorem Fresh.queues {c : Chain τ} (h : Fresh c) :
    c.done = [] ∧ c.waiting = c.accepted.map (fun e => (some e.1, e.2.kept)) := by
  obtain ⟨hsel, hprog⟩ := idle_queues h.phase
  constructor
  · unfold done executed
    rw [h.history, hprog]
    rfl
  · unfold waiting pending
    rw [hsel, h.accepted, List.nil_append, List.map_map]
    rfl

omit [Contracts] [Sha256] in
theorem Fresh.untagged {c : Chain τ} (h : Fresh c) (cfg : Config) : Untagged cfg c := by
  obtain ⟨hdone, hwait⟩ := h.queues
  intro k hk
  rw [hdone, hwait, List.nil_append] at hk
  obtain ⟨e, _, heq⟩ := List.mem_map.mp hk
  cases heq

/-! ## §6. No submission is lost, duplicated or reordered. -/

/-- **No submission is lost, duplicated or reordered.**  In every run of a chain
and its clients, the accepted submissions are, in order, those in the committed
blocks, those of the block in progress and those in the pool; the committed
blocks stand in the storage in the order of their heights; the pool keeps its
bound; a submission that is not accepted changes nothing; and taking from the
pool returns what it removes. -/
theorem accepted_in_order (cfg : Config) (c0 c : Chain τ) (acts : List (Action τ))
    (h0 : Fresh c0) (hrun : runFrom (step cfg) c0 acts = some c) :
    c.accepted.map (fun e => (e.1, e.2.body))
        = c.committedTagged ++ c.inProgressTagged ++ c.poolTagged
      ∧ (c.blocks.blocks = c0.blocks.blocks ++ c.history.map Committed.block
        ∧ (∀ r ∈ c.history, r.block.txs = r.slots.map Executed.tx)
        ∧ ∀ (n : Nat) (b : Block), c.blocks.blocks[n]? = some b → b.height = n)
      ∧ (0 < c.pool.maxsize → c.pool.qsize ≤ c.pool.maxsize)
      ∧ (∀ time tag tx, (c.pool.putTx time tag tx).1 ≠ .ok true → c.submit time tag tx = c)
      ∧ ∀ (time : PyFloat) (tag : τ) (tx : Transaction) (rest : List (τ × Transaction)),
          c.pool.items = (tag, tx) :: rest →
            ∃ tx', c.pool.popTx time = (some (tag, tx'), { c.pool with items := rest })
              ∧ tx'.body = tx.body := by
  have hinv := run_chainInv hrun h0.chainInv
  refine ⟨(run_flow hrun h0.flow).bodies, ⟨hinv.blocks, ?_, hinv.aligned⟩, ?_, ?_, ?_⟩
  · exact fun r hr => (hinv.committed r hr).txs
  · exact run_invariant (fun s a s' hs h => step_bounded hs h) acts hrun h0.bounded
  · intro time tag tx hrefused
    rcases submit_cases time tag tx c with ⟨hput, _⟩ | ⟨_, hsame⟩
    · exact absurd hput hrefused
    · exact hsame
  · intro time tag tx rest hitems
    obtain ⟨tx', hpop, hbody, _⟩ := SyncMemPool.popTx_cons time hitems
    exact ⟨tx', hpop, hbody⟩

/-- A chain that has just started, for worked inputs. -/
def started : Chain Nat where
  store := Executor.startStore
  blocks := ⟨[genesisBlock PyFloat.zero]⟩

/-- A write through the contract `base`. -/
def sampleTx : Transaction where
  sender := .str "client"
  to_ := .str "base"
  data := .str (Json.dumps (.obj [("arguments", .arr [.str "key", .str "value"])]))

/-- One transaction is executed, the next one waits in the pool. -/
def sampleActions : List (Action Nat) := [
  .submit PyFloat.zero 7 sampleTx, .propose PyFloat.zero (fun _ => (0, PyFloat.zero)),
  .takeTx PyFloat.zero, .takeTx PyFloat.zero, .executeNext, .submit PyFloat.zero 8 sampleTx]

omit [Contracts] [Sha256] in
theorem started_fresh : Fresh started :=
  ⟨rfl, rfl, ⟨PyFloat.zero, rfl⟩, rfl, fun h => absurd h (by decide)⟩

omit [Contracts] [Sha256] in
theorem accepted_in_order_sample :
    ∃ c : Chain Nat, c.accepted.length = 2
      ∧ c.accepted.map (fun e => (e.1, e.2.body))
        = c.committedTagged ++ c.inProgressTagged ++ c.poolTagged := by
  have hlen : (runFrom (@step Nat Contracts.plain Sha256.plain {}) started sampleActions).map
      (fun c => c.accepted.length) = some 2 := by decide +kernel
  obtain ⟨c, hrun, hc⟩ := Option.map_eq_some_iff.mp hlen
  exact ⟨c, hc, (@accepted_in_order Nat Contracts.plain Sha256.plain {} started c sampleActions
    started_fresh hrun).1⟩

/-! ## §7. Which transactions end the loop. -/

end Runs

end Chain

end TorSim
