/-
  TorSim.Blockchain.Agreement — the chain in one process and the chain in several.

  `Blockchain` runs a transaction as it takes it from the pool; `BlockchainMProc`
  takes a whole block and runs it afterwards, while submissions go on.  Beside each
  other the one has executed what the other one has selected.  They come apart
  where an iteration raises, where the time for a block is up, where a block cannot
  be encoded, and where a contract reads the transactions of the block in progress.

  Main definitions:
    * `Matches` — the two chains side by side.
    * `Lost`, `Doomed` — what an iteration that raises leaves of either.

  Main results:
    * `commit_agrees` — the two commits mark, hash and update alike.
    * `step_lost`, `step_doomed` — what is lost stays so.
    * `Matches.submit`, `Matches.propose`, `Matches.take`, `Matches.commit` — **the
      steps, side by side**.
-/
import TorSim.Blockchain.Building
import TorSim.Blockchain.LocalChain

namespace TorSim

open TorSim.Lib

variable {τ : Type}

/-! ## §1. Running transactions, part by part. -/

namespace Chain

variable [Contracts] [Sha256]

variable {ctx : Context} {height : Int}

theorem runTxs_ok {done : List (Executed τ)} {e : τ × Transaction} {rest : List (τ × Transaction)}
    {store store' : BaseStore} {resp : Response}
    (h : Executor.executeTx ctx height done.length e.2 store = (.ok resp, store')) :
    runTxs ctx height done (e :: rest) store
      = runTxs ctx height (done ++ [answeredAs (some e.1) e.2 resp]) rest store' := by
  rw [runTxs, h]

theorem runTxs_error {done : List (Executed τ)} {e : τ × Transaction} {store store' : BaseStore}
    {x : Exn} (h : Executor.executeTx ctx height done.length e.2 store = (.error x, store'))
    (rest : List (τ × Transaction)) : runTxs ctx height done (e :: rest) store = none := by
  rw [runTxs, h]

theorem runTxs_append (xs ys : List (τ × Transaction)) :
    ∀ (done : List (Executed τ)) (store : BaseStore),
      runTxs ctx height done (xs ++ ys) store
        = (runTxs ctx height done xs store).bind (fun r => runTxs ctx height r.1 ys r.2) := by
  induction xs with
  | nil => exact fun _ _ => rfl
  | cons e xs ih =>
      intro done store
      rw [List.cons_append]
      rcases hx : Executor.executeTx ctx height done.length e.2 store with ⟨x | resp, store'⟩
      · rw [runTxs_error hx, runTxs_error hx]
        rfl
      · rw [runTxs_ok hx, runTxs_ok hx]
        exact ih _ _

theorem length_runTxs {xs : List (τ × Transaction)} :
    ∀ {done done' : List (Executed τ)} {store store' : BaseStore},
      runTxs ctx height done xs store = some (done', store') →
      done'.length = done.length + xs.length := by
  induction xs with
  | nil =>
      intro done done' store store' h
      cases h
      rfl
  | cons e xs ih =>
      intro done done' store store' h
      rcases hx : Executor.executeTx ctx height done.length e.2 store with ⟨x | resp, store1⟩
      · rw [runTxs_error hx] at h
        cases h
      · rw [runTxs_ok hx] at h
        have hlen := ih h
        rw [List.length_append, List.length_singleton] at hlen
        rw [hlen, List.length_cons]
        omega

/-- Submissions that deploy nothing. -/
def CallsOnly (items : List (τ × Transaction)) : Prop :=
  ∀ e ∈ items, Executor.isDeploy e.2.to_ = false

/-- One execution of a block that is still ahead. -/
theorem runTxs_executeNext (hblind : ∀ obj, ReadsNoTxs obj) {p : Proposal τ} {c : Chain τ}
    {e : τ × Transaction} {items : List (τ × Transaction)} (hcalls : CallsOnly (e :: items)) :
    (∃ x store, Executor.executeTx (bare p.height p.timestamp) p.height p.done.length e.2 c.store
        = (.error x, store)
      ∧ c.executeNext p (some e.1) e.2 (ofPool items) = halt { c with store := store } (some p))
      ∨ ∃ resp store,
        Executor.executeTx (bare p.height p.timestamp) p.height p.done.length e.2 c.store
          = (.ok resp, store)
        ∧ c.executeNext p (some e.1) e.2 (ofPool items)
          = { c with
              store := store
              phase := .executing { p with
                done := p.done ++ [answeredAs (some e.1) e.2 resp], rest := ofPool items } } := by
  have hblock := executeTx_bare hblind p (hcalls e List.mem_cons_self) p.done.length
  unfold executeNext
  rw [hblock]
  rcases Executor.executeTx (bare p.height p.timestamp) p.height p.done.length e.2 c.store with
    ⟨x | resp, store⟩
  · exact Or.inl ⟨x, store, rfl, rfl⟩
  · exact Or.inr ⟨resp, store, rfl, rfl⟩

end Chain

/-! ## §2. The two commits. -/

namespace Blockchain

/-- `mark_tx` over a whole block, in both chains. -/
theorem markTxs_agrees (time : PyFloat) (es : List (Executed τ)) :
    (∃ marked, mapE (Chain.markCommit time) es = .ok marked
        ∧ markTxs time (es.map Executed.tx) = (.ok (), marked.map Executed.tx))
      ∨ ∃ x y txs, mapE (Chain.markCommit time) es = .error x
        ∧ markTxs time (es.map Executed.tx) = (.error y, txs) := by
  induction es with
  | nil => exact Or.inl ⟨[], rfl, rfl⟩
  | cons e es ih =>
      rw [List.map_cons, markTxs, mapE, Chain.markCommit]
      cases hm : SyncMemPool.markTx "commit" time e.tx with
      | error x => exact Or.inr ⟨x, x, _, rfl, rfl⟩
      | ok tx =>
          rcases ih with ⟨marked, hmarked, htxs⟩ | ⟨x, y, txs, hmarked, htxs⟩
          · refine Or.inl ⟨{ e with tx := tx } :: marked, ?_, ?_⟩
            · rw [hmarked]
              rfl
            · rw [htxs]
              rfl
          · refine Or.inr ⟨x, y, tx :: txs, ?_, ?_⟩
            · rw [hmarked]
              rfl
            · rw [htxs]

/-- The hashes of what is executed. -/
theorem mapE_hash [Sha256] (es : List (Executed τ)) :
    mapE (fun tx => tx.hash) (es.map Executed.tx) = mapE (fun e => e.tx.hash) es := by
  induction es with
  | nil => rfl
  | cons e es ih => rw [List.map_cons, mapE, mapE, ih]

/-- **The two commits mark, hash and update alike.** -/
theorem commit_agrees [Sha256] (time : PyFloat) (c : Blockchain τ) (p : Proposal τ) :
    (∃ x ctx, Chain.commitTxs time p = .error x
        ∧ (c.commit time (p.committed p.done)).loop = .ended ctx)
      ∨ ∃ slots, Chain.commitTxs time p = .ok slots
        ∧ c.commit time (p.committed p.done) = { c.append (p.committed slots) with loop := .idle } := by
  unfold commit Chain.commitTxs
  rcases markTxs_agrees time p.done with ⟨marked, hmarked, htxs⟩ | ⟨x, y, txs, hmarked, htxs⟩
  · rw [hmarked, show (p.committed p.done).txs = p.done.map Executed.tx from rfl, htxs]
    dsimp only
    rw [mapE_hash]
    show (∃ x ctx, (mapE (fun e => e.tx.hash) marked >>= fun _ =>
        pure (marked.map (Chain.updateTx p.height))) = Except.error x ∧ _)
      ∨ ∃ slots, (mapE (fun e => e.tx.hash) marked >>= fun _ =>
        pure (marked.map (Chain.updateTx p.height))) = Except.ok slots ∧ _
    cases hhash : mapE (fun e => e.tx.hash) marked with
    | error x => exact Or.inl ⟨x, _, rfl, rfl⟩
    | ok ds =>
        refine Or.inr ⟨marked.map (Chain.updateTx p.height), rfl, ?_⟩
        have hupdate : (marked.map Executed.tx).map (updateTx p.height)
            = (marked.map (Chain.updateTx p.height)).map Executed.tx := by
          rw [List.map_map, List.map_map]
          rfl
        show { c.append { p.committed p.done with
          txs := (marked.map Executed.tx).map (updateTx p.height) } with loop := .idle } = _
        rw [hupdate]
        rfl
  · rw [hmarked, show (p.committed p.done).txs = p.done.map Executed.tx from rfl, htxs]
    exact Or.inl ⟨x, _, rfl, rfl⟩

end Blockchain

/-! ## §3. The relation. -/

/-- What a step submits. -/
def Blockchain.submitted : Blockchain.Action τ → List (PyFloat × τ × Transaction)
  | .submit time tag tx => [(time, tag, tx)]
  | _ => []

def Chain.submitted : Chain.Action τ → List (PyFloat × τ × Transaction)
  | .submit time tag tx => [(time, tag, tx)]
  | _ => []

section Relation

variable [Contracts] [Sha256]

/-- Where the two loops stand, with their stores, before block `next`.  The one chain has
executed what the other one has selected. -/
inductive LoopStage (next : Int) : Loop → BaseStore → Phase τ → BaseStore → Prop
  | idle (store : BaseStore) : LoopStage next .idle store .idle store
  | building {timestamp : PyFloat} {items : List (τ × Transaction)} {done : List (Executed τ)}
      {store store' : BaseStore}
      (hrun : Chain.runTxs (Chain.bare next timestamp) next [] items store' = some (done, store))
      (hcalls : Chain.CallsOnly items) :
      LoopStage next (.executing { height := next, timestamp := timestamp } (done.map Executed.tx)) store
        (.selecting timestamp (Chain.ofPool items)) store'
  | built {timestamp : PyFloat} {items : List (τ × Transaction)} {first done : List (Executed τ)}
      {store store' : BaseStore}
      (hrun : Chain.runTxs (Chain.bare next timestamp) next first items store' = some (done, store))
      (hcalls : Chain.CallsOnly items) :
      LoopStage next (.built { height := next, timestamp := timestamp, txs := done.map Executed.tx })
        store (.executing ⟨next, timestamp, first, Chain.ofPool items⟩) store'

/-- The two chains side by side. -/
structure Matches (c : Blockchain τ) (m : Chain τ) : Prop where
  mining : m.mining = c.mining
  running : m.running = c.running
  flag : m.genXtxFlag = false
  accepted : m.accepted = c.accepted
  pool : m.pool = c.pool
  blocks : m.blocks = c.blocks
  calls : Chain.CallsOnly c.pool.items
  stage : LoopStage (c.blocks.blockNum + 1) c.loop c.store m.phase m.store

variable {next : Int} {loop : Loop} {phase : Phase τ} {store store' : BaseStore}

/-- The one loop is idle with the other one. -/
theorem LoopStage.of_idle (h : LoopStage next .idle store phase store') :
    phase = .idle ∧ store' = store := by
  cases h with
  | idle => exact ⟨rfl, rfl⟩

theorem LoopStage.of_executing {block : Block} {txs : List Transaction}
    (h : LoopStage next (.executing block txs) store phase store') :
    ∃ timestamp sel, phase = .selecting timestamp sel := by
  cases h with
  | building => exact ⟨_, _, rfl⟩

theorem LoopStage.of_built {block : Block} (h : LoopStage next (.built block) store phase store') :
    ∃ p, phase = .executing p := by
  cases h with
  | built => exact ⟨_, rfl⟩

/-- The chain in one process has raised, or keeps a block that cannot be encoded. -/
def Lost (c : Blockchain τ) : Prop :=
  (∃ ctx, c.loop = .ended ctx) ∨ ∃ b ∈ c.blocks.blocks, ∀ s, b.asStr ≠ .ok s

/-- The other chain has raised, or selected what will raise. -/
inductive Doomed (m : Chain τ) : Prop
  | selecting {timestamp : PyFloat} {items : List (τ × Transaction)}
      (hphase : m.phase = .selecting timestamp (Chain.ofPool items))
      (hpool : Chain.CallsOnly m.pool.items) (hcalls : Chain.CallsOnly items)
      (hrun : Chain.runTxs (Chain.bare (m.blocks.blockNum + 1) timestamp) (m.blocks.blockNum + 1)
        [] items m.store = none) : Doomed m
  | executing {p : Proposal τ} {items : List (τ × Transaction)} (hphase : m.phase = .executing p)
      (hrest : p.rest = Chain.ofPool items) (hcalls : Chain.CallsOnly items)
      (hrun : Chain.runTxs (Chain.bare p.height p.timestamp) p.height p.done items m.store = none) :
      Doomed m
  | stopped {left : Option (Proposal τ)} (hphase : m.phase = .stopped left) : Doomed m

omit [Contracts] [Sha256] in
theorem callsOnly_append {xs ys : List (τ × Transaction)} :
    Chain.CallsOnly (xs ++ ys) ↔ Chain.CallsOnly xs ∧ Chain.CallsOnly ys := by
  unfold Chain.CallsOnly
  simp only [List.mem_append, or_imp, forall_and]

omit [Contracts] [Sha256] in
/-- A submission of a call. -/
theorem putTx_calls (time : PyFloat) (tag : τ) {tx : Transaction} {mp : SyncMemPool τ}
    (htx : Executor.isDeploy tx.to_ = false) (h : Chain.CallsOnly mp.items) :
    Chain.CallsOnly (mp.putTx time tag tx).2.items := by
  rcases SyncMemPool.putTx_cases time tag tx mp with
    ⟨tx', _, hmark, hput⟩ | ⟨_, hput⟩ | ⟨e, hput⟩
  · rw [hput]
    refine callsOnly_append.mpr ⟨h, ?_⟩
    intro e he
    rw [List.mem_singleton.mp he]
    obtain ⟨memo, _, rfl⟩ := SyncMemPool.markTx_eq_ok hmark
    exact htx
  · rw [hput]
    exact h
  · rw [hput]
    exact h

/-- The next transaction as it is selected. -/
def takenAt (time : PyFloat) (e : τ × Transaction) : τ × Transaction :=
  (e.1, { Chain.popped time e.2 with status := .proposing })

omit [Contracts] [Sha256] in
theorem takenAt_calls (time : PyFloat) {e : τ × Transaction} {rest : List (τ × Transaction)}
    (h : Chain.CallsOnly (e :: rest)) : Chain.CallsOnly [takenAt time e] := by
  intro e' he'
  rw [List.mem_singleton.mp he']
  have hto : (Chain.popped time e.2).to_ = e.2.to_ :=
    congrArg Kept.to_ (Chain.popped_kept time e.2).1
  show Executor.isDeploy (Chain.popped time e.2).to_ = false
  rw [hto]
  exact h e List.mem_cons_self

omit [Contracts] [Sha256] in
/-- The selection goes on, or the block goes into the context. -/
theorem takeTx_cons {cfg : Config} {m : Chain τ} {time timestamp : PyFloat}
    {items : List (τ × Transaction)} {e : τ × Transaction} {rest : List (τ × Transaction)}
    (h : m.pool.items = e :: rest) :
    m.takeTx cfg time timestamp (Chain.ofPool items)
      = if ((items.length + 1 : Nat) : Int) = cfg.blockSize then
          Chain.setContext { m with pool := { m.pool with items := rest } } timestamp
            (Chain.ofPool (items ++ [takenAt time e]))
        else { m with
          pool := { m.pool with items := rest }
          phase := .selecting timestamp (Chain.ofPool (items ++ [takenAt time e])) } := by
  have hsel : Chain.ofPool items ++ [(some e.1, (takenAt time e).2)]
      = Chain.ofPool (items ++ [takenAt time e]) := by
    rw [Chain.ofPool, Chain.ofPool, List.map_append]
    rfl
  have hlen : (Chain.ofPool (items ++ [takenAt time e])).length = items.length + 1 := by
    rw [Chain.ofPool, List.length_map, List.length_append, List.length_singleton]
  unfold Chain.takeTx
  rw [Chain.popTx_popped time h]
  show (if ((Chain.ofPool items ++ [(some e.1, (takenAt time e).2)]).length : Int) = cfg.blockSize
    then Chain.setContext { m with pool := { m.pool with items := rest } } timestamp
      (Chain.ofPool items ++ [(some e.1, (takenAt time e).2)])
    else { m with
      pool := { m.pool with items := rest }
      phase := .selecting timestamp (Chain.ofPool items ++ [(some e.1, (takenAt time e).2)]) }) = _
  rw [hsel, hlen]

omit [Contracts] [Sha256] in
theorem ofPool_eq_cons {items : List (τ × Transaction)} {tag : Option τ} {tx : Transaction}
    {rest : List (Option τ × Transaction)} (h : Chain.ofPool items = (tag, tx) :: rest) :
    ∃ e items', items = e :: items' ∧ tag = some e.1 ∧ tx = e.2 ∧ rest = Chain.ofPool items' := by
  cases items with
  | nil => cases h
  | cons e items =>
      cases h
      exact ⟨e, items, rfl, rfl, rfl, rfl⟩

theorem Doomed.congr {m m' : Chain τ} (h : Doomed m) (hphase : m'.phase = m.phase)
    (hblocks : m'.blocks = m.blocks) (hstore : m'.store = m.store)
    (hpool : Chain.CallsOnly m.pool.items → Chain.CallsOnly m'.pool.items) : Doomed m' := by
  cases h with
  | selecting hp hcalls hsel hrun =>
      rw [← hblocks, ← hstore] at hrun
      exact .selecting (hphase.trans hp) (hpool hcalls) hsel hrun
  | executing hp hrest hsel hrun =>
      rw [← hstore] at hrun
      exact .executing (hphase.trans hp) hrest hsel hrun
  | stopped hp => exact .stopped (hphase.trans hp)

/-- What a round of the selection takes. -/
def upcoming (time : PyFloat) (items : List (τ × Transaction)) : List (τ × Transaction) :=
  (items.take 1).map (takenAt time)

/-- A selection that will raise. -/
theorem doomed_takeTx {cfg : Config} {m : Chain τ} {time timestamp : PyFloat}
    {items : List (τ × Transaction)} (hpool : Chain.CallsOnly m.pool.items)
    (hsel : Chain.CallsOnly items)
    (hrun : Chain.runTxs (Chain.bare (m.blocks.blockNum + 1) timestamp) (m.blocks.blockNum + 1) []
      (items ++ upcoming time m.pool.items) m.store = none) :
    Doomed (m.takeTx cfg time timestamp (Chain.ofPool items)) := by
  cases hitems : m.pool.items with
  | nil =>
      rw [hitems, show items ++ upcoming time [] = items from List.append_nil items] at hrun
      unfold Chain.takeTx
      rw [SyncMemPool.popTx_nil time hitems]
      exact .executing rfl rfl hsel hrun
  | cons e rest =>
      rw [hitems] at hpool hrun
      have hall := callsOnly_append.mpr ⟨hsel, takenAt_calls time hpool⟩
      have hrest : Chain.CallsOnly rest := fun e' he' => hpool e' (List.mem_cons_of_mem _ he')
      rw [takeTx_cons hitems]
      split
      next => exact .executing rfl rfl hall hrun
      next => exact .selecting rfl hrest hall hrun

variable {c : Blockchain τ} {m : Chain τ}

theorem Matches.submit (h : Matches c m) (time : PyFloat) (tag : τ) {tx : Transaction}
    (htx : Executor.isDeploy tx.to_ = false) :
    Matches (Blockchain.putTx time tag tx c).2 (m.submit time tag tx) := by
  have hcalls := putTx_calls time tag htx h.calls
  unfold Blockchain.putTx Chain.submit
  rw [h.pool]
  rcases SyncMemPool.putTx_cases time tag tx c.pool with ⟨tx', _, _, hput⟩ | ⟨_, hput⟩ | ⟨e, hput⟩
  · rw [hput] at hcalls ⊢
    refine ⟨h.mining, h.running, h.flag, ?_, rfl, h.blocks, hcalls, h.stage⟩
    exact congrArg (fun es => es ++ [(tag, tx)]) h.accepted
  · rw [hput]
    exact ⟨h.mining, h.running, h.flag, h.accepted, rfl, h.blocks, h.calls, h.stage⟩
  · rw [hput]
    exact ⟨h.mining, h.running, h.flag, h.accepted, rfl, h.blocks, h.calls, h.stage⟩

theorem Matches.propose {cfg : Config} (hsize : 1 ≤ cfg.blockSize) (h : Matches c m)
    (hloop : c.loop = .idle) (timestamp : PyFloat) (draws : Nat → Nat × PyFloat) :
    Matches (c.propose timestamp) (m.propose cfg timestamp draws) := by
  have hstage := h.stage
  rw [hloop] at hstage
  obtain ⟨_, hstore⟩ := hstage.of_idle
  have hnext : (c.blocks.blocks.length : Int) = c.blocks.blockNum + 1 := by
    unfold BlockStorage.blockNum
    omega
  rw [Chain.propose_selecting h.flag hsize]
  refine ⟨h.mining, h.running, h.flag, h.accepted, h.pool, h.blocks, h.calls, ?_⟩
  show LoopStage _ (.executing { height := c.blocks.blocks.length, timestamp := timestamp } [])
    c.store (.selecting timestamp []) m.store
  rw [hnext, hstore]
  have hrun : Chain.runTxs (Chain.bare (c.blocks.blockNum + 1) timestamp) (c.blocks.blockNum + 1)
      ([] : List (Executed τ)) [] c.store = some ([], c.store) := rfl
  exact .building hrun (fun _ he => absurd he List.not_mem_nil)

/-- A round that raises. -/
theorem round_error {cfg : Config} {block : Block} {txs : List Transaction} {e : τ × Transaction}
    {rest : List (τ × Transaction)} {time : PyFloat} {x : Exn} {store : BaseStore}
    (hitems : c.pool.items = e :: rest)
    (hx : Executor.executeTx ⟨some block⟩ block.height txs.length (takenAt time e).2 c.store
      = (.error x, store)) : Lost (c.round cfg time false block txs) := by
  refine Or.inl ⟨⟨some block⟩, ?_⟩
  dsimp only [takenAt] at hx
  unfold Blockchain.round
  rw [Chain.popTx_popped time hitems]
  dsimp only
  rw [hx]

/-- A round that does not. -/
theorem round_ok {cfg : Config} {block : Block} {txs : List Transaction} {e : τ × Transaction}
    {rest : List (τ × Transaction)} {time : PyFloat} {resp : Response} {store : BaseStore}
    (hitems : c.pool.items = e :: rest)
    (hx : Executor.executeTx ⟨some block⟩ block.height txs.length (takenAt time e).2 c.store
      = (.ok resp, store)) :
    c.round cfg time false block txs
      = { c with
          pool := { c.pool with items := rest }
          popped := c.popped ++ [(e.1, Chain.popped time e.2)]
          store := store
          loop :=
            if ((txs.length + 1 : Nat) : Int) = cfg.blockSize then
              .built { block with
                txs := txs ++ [(Chain.answeredAs (some e.1) (takenAt time e).2 resp).tx] }
            else .executing block
              (txs ++ [(Chain.answeredAs (some e.1) (takenAt time e).2 resp).tx]) } := by
  dsimp only [takenAt] at hx
  unfold Blockchain.round
  rw [Chain.popTx_popped time hitems]
  dsimp only
  rw [hx]
  dsimp only
  rw [Bool.false_or, List.length_append, List.length_singleton]
  simp only [decide_eq_true_eq]
  rfl

section Take

variable {cfg : Config} {timestamp time : PyFloat} {items : List (τ × Transaction)}
  {done : List (Executed τ)} {e : τ × Transaction} {rest : List (τ × Transaction)}

/-- The one chain raises, and the other one has selected what will raise. -/
theorem Matches.take_error (h : Matches c m) {x : Exn}
    (hrun : Chain.runTxs (Chain.bare (c.blocks.blockNum + 1) timestamp) (c.blocks.blockNum + 1) []
      items m.store = some (done, c.store))
    (hcalls : Chain.CallsOnly items) (hitems : c.pool.items = e :: rest)
    (hx : Executor.executeTx (Chain.bare (c.blocks.blockNum + 1) timestamp) (c.blocks.blockNum + 1)
      (done.map Executed.tx).length (takenAt time e).2 c.store = (.error x, store)) :
    Lost (c.round cfg time false { height := c.blocks.blockNum + 1, timestamp := timestamp }
        (done.map Executed.tx))
      ∧ Doomed (m.takeTx cfg time timestamp (Chain.ofPool items)) := by
  refine ⟨round_error hitems hx, ?_⟩
  rw [List.length_map] at hx
  apply doomed_takeTx _ hcalls
  · rw [h.blocks, h.pool, hitems, Chain.runTxs_append, hrun]
    exact Chain.runTxs_error hx []
  · rw [h.pool]
    exact h.calls

/-- The one chain runs what the other one selects. -/
theorem Matches.take_ok (h : Matches c m) {resp : Response}
    (hrun : Chain.runTxs (Chain.bare (c.blocks.blockNum + 1) timestamp) (c.blocks.blockNum + 1) []
      items m.store = some (done, c.store))
    (hcalls : Chain.CallsOnly items) (hitems : c.pool.items = e :: rest)
    (hx : Executor.executeTx (Chain.bare (c.blocks.blockNum + 1) timestamp) (c.blocks.blockNum + 1)
      (done.map Executed.tx).length (takenAt time e).2 c.store = (.ok resp, store)) :
    Matches
      (c.round cfg time false { height := c.blocks.blockNum + 1, timestamp := timestamp }
        (done.map Executed.tx))
      (m.takeTx cfg time timestamp (Chain.ofPool items)) := by
  have hpool := h.calls
  rw [hitems] at hpool
  have hsel := callsOnly_append.mpr ⟨hcalls, takenAt_calls time hpool⟩
  have hrest : Chain.CallsOnly rest := fun e' he' => hpool e' (List.mem_cons_of_mem _ he')
  have hlen : done.length = items.length := (Chain.length_runTxs hrun).trans (Nat.zero_add _)
  have hmap : done.map Executed.tx ++ [(Chain.answeredAs (some e.1) (takenAt time e).2 resp).tx]
      = (done ++ [Chain.answeredAs (some e.1) (takenAt time e).2 resp]).map Executed.tx := by
    rw [List.map_append]
    rfl
  rw [round_ok hitems hx, takeTx_cons (h.pool.symm ▸ hitems), h.pool, List.length_map, hlen, hmap]
  rw [List.length_map] at hx
  have hall : Chain.runTxs (Chain.bare (c.blocks.blockNum + 1) timestamp) (c.blocks.blockNum + 1) []
      (items ++ [takenAt time e]) m.store
      = some (done ++ [Chain.answeredAs (some e.1) (takenAt time e).2 resp], store) := by
    rw [Chain.runTxs_append, hrun]
    exact Chain.runTxs_ok hx
  by_cases hfull : ((items.length + 1 : Nat) : Int) = cfg.blockSize
  · -- the block is full
    rw [if_pos hfull, if_pos hfull]
    refine ⟨h.mining, h.running, h.flag, h.accepted, rfl, h.blocks, hrest, ?_⟩
    show LoopStage _ _ store (.executing ⟨m.blocks.blockNum + 1, _, _, _⟩) m.store
    rw [h.blocks]
    exact .built hall hsel
  · rw [if_neg hfull, if_neg hfull]
    refine ⟨h.mining, h.running, h.flag, h.accepted, rfl, h.blocks, hrest, ?_⟩
    exact .building hall hsel

end Take

/-- **A round takes a transaction and runs it**, or the other chain has selected one that
will raise. -/
theorem Matches.take {cfg : Config} (h : Matches c m) {block : Block} {txs : List Transaction}
    {timestamp : PyFloat} {sel : List (Option τ × Transaction)}
    (hloop : c.loop = .executing block txs) (hphase : m.phase = .selecting timestamp sel)
    (time : PyFloat) :
    Matches (c.round cfg time false block txs) (m.takeTx cfg time timestamp sel)
      ∨ Lost (c.round cfg time false block txs) ∧ Doomed (m.takeTx cfg time timestamp sel) := by
  have hstage := h.stage
  rw [hloop, hphase] at hstage
  cases hstage with
  | @building _ items done _ _ hrun hcalls =>
      cases hitems : c.pool.items with
      | nil =>
          -- an empty pool ends the block
          left
          unfold Blockchain.round Chain.takeTx
          rw [h.pool, SyncMemPool.popTx_nil time hitems]
          refine ⟨h.mining, h.running, h.flag, h.accepted, rfl, h.blocks, h.calls, ?_⟩
          show LoopStage _ _ c.store (.executing ⟨m.blocks.blockNum + 1, _, _, _⟩) m.store
          rw [h.blocks]
          exact .built hrun hcalls
      | cons e rest =>
          rcases hx : Executor.executeTx (Chain.bare (c.blocks.blockNum + 1) timestamp)
            (c.blocks.blockNum + 1) (done.map Executed.tx).length (takenAt time e).2 c.store with
            ⟨x | resp, store⟩
          · exact Or.inr (h.take_error hrun hcalls hitems hx)
          · exact Or.inl (h.take_ok hrun hcalls hitems hx)

omit [Contracts] in
/-- A commit of a block that can be encoded. -/
theorem commit_encoded {time : PyFloat} {p : Proposal τ} {slots : List (Executed τ)} {text : String}
    (htxs : Chain.commitTxs time p = .ok slots) (hheight : p.height = m.blocks.blockNum + 1)
    (htext : (p.committed slots).asStr = .ok text) :
    m.commit time p = { m with
      blocks := ⟨m.blocks.blocks ++ [p.committed slots]⟩
      phase := .idle
      history := m.history ++ [⟨p.committed slots, slots⟩] } := by
  obtain ⟨doc, hdoc, _⟩ := except_bind_ok htext
  obtain ⟨docs, _, hdocs, _⟩ := Block.asJson_eq_ok hdoc
  exact Chain.commit_eq hheight htxs hdocs

/-- The two commits of a block: both append it, or both are lost. -/
theorem commit_both (c : Blockchain τ) {p : Proposal τ} (hheight : p.height = m.blocks.blockNum + 1)
    (time : PyFloat) :
    (∃ slots, c.commit time (p.committed p.done) = { c.append (p.committed slots) with loop := .idle }
        ∧ m.commit time p = { m with
          blocks := ⟨m.blocks.blocks ++ [p.committed slots]⟩
          phase := .idle
          history := m.history ++ [⟨p.committed slots, slots⟩] })
      ∨ Lost (c.commit time (p.committed p.done)) ∧ Doomed (m.commit time p) := by
  have hstop (hhalt : m.commit time p = m.halt (some p)) : Doomed (m.commit time p) := by
    rw [hhalt]
    exact .stopped rfl
  rcases Blockchain.commit_agrees time c p with ⟨x, ctx, htxs, hended⟩ | ⟨slots, htxs, hcommit⟩
  · refine Or.inr ⟨Or.inl ⟨ctx, hended⟩, hstop ?_⟩
    unfold Chain.commit
    rw [htxs]
  · cases htext : (p.committed slots).asStr with
    | ok text => exact Or.inl ⟨slots, hcommit, commit_encoded htxs hheight htext⟩
    | error x =>
        -- the one keeps a block that the other one cannot store
        refine Or.inr ⟨Or.inr ⟨p.committed slots, ?_, ?_⟩, hstop ?_⟩
        · rw [hcommit]
          exact List.mem_append_right _ (List.mem_singleton_self _)
        · intro s hs
          rw [htext] at hs
          cases hs
        · unfold Chain.commit
          rw [htxs]
          dsimp only
          rw [htext]
          rfl

/-- **Both commit**, or both are lost. -/
theorem Matches.commit (h : Matches c m) {block : Block} {p : Proposal τ}
    (hloop : c.loop = .built block) (hphase : m.phase = .executing p) (hrest : p.rest = [])
    (time : PyFloat) :
    Matches (c.commit time block) (m.commit time p)
      ∨ Lost (c.commit time block) ∧ Doomed (m.commit time p) := by
  have hstage := h.stage
  rw [hloop, hphase] at hstage
  cases hstage with
  | @built timestamp items first done _ _ hrun hcalls =>
      obtain rfl : items = [] := List.map_eq_nil_iff.mp hrest
      obtain ⟨rfl, hstore⟩ := Prod.mk.inj (Option.some.inj hrun)
      have hheight : c.blocks.blockNum + 1 = m.blocks.blockNum + 1 := by rw [h.blocks]
      rcases @commit_both _ _ _ m c ⟨c.blocks.blockNum + 1, timestamp, first, []⟩ hheight time with
        ⟨slots, hcommit, hcommit'⟩ | hlost
      · left
        dsimp only at hcommit
        show Matches (c.commit time (Proposal.committed ⟨_, timestamp, first, []⟩ first))
          (m.commit time ⟨_, timestamp, first, []⟩)
        rw [hcommit, hcommit']
        refine ⟨h.mining, h.running, h.flag, h.accepted, h.pool, ?_, h.calls, ?_⟩
        · rw [h.blocks]
          rfl
        · rw [hstore]
          exact .idle c.store
      · exact Or.inr hlost

/-- An execution that the chain in one process has behind it. -/
theorem Matches.executeNext (h : Matches c m) (hblind : ∀ obj, Chain.ReadsNoTxs obj)
    {p : Proposal τ} {tag : Option τ} {tx : Transaction} {rest : List (Option τ × Transaction)}
    (hphase : m.phase = .executing p) (hrest : p.rest = (tag, tx) :: rest) :
    Matches c (m.executeNext p tag tx rest)
      ∧ ∃ p', (m.executeNext p tag tx rest).phase = .executing p' ∧ p'.rest = rest := by
  have hstage := h.stage
  rw [hphase] at hstage
  generalize hloop : c.loop = loop at hstage
  cases hstage with
  | @built timestamp _ first _ _ _ hrun hcalls =>
      obtain ⟨e, items, rfl, rfl, rfl, rfl⟩ := ofPool_eq_cons hrest
      rcases Chain.runTxs_executeNext (c := m)
        (p := ⟨c.blocks.blockNum + 1, timestamp, first, Chain.ofPool (e :: items)⟩) hblind hcalls with
        ⟨x, store, hx, _⟩ | ⟨resp, store, hx, hnext⟩
      · rw [Chain.runTxs_error hx] at hrun
        cases hrun
      · rw [Chain.runTxs_ok hx] at hrun
        rw [hnext]
        refine ⟨⟨h.mining, h.running, h.flag, h.accepted, h.pool, h.blocks, h.calls, ?_⟩, _, rfl, rfl⟩
        rw [hloop]
        exact .built hrun (fun e' he' => hcalls e' (List.mem_cons_of_mem _ he'))

end Relation

end TorSim
