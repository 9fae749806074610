/-
  TorSim.Blockchain.LocalChain — a chain in the process of its relayers.

  `Blockchain` is the chain without servers around it: its loop and the relayers
  are coroutines of one process, and its pool is an `AsyncMemPool`.  The loop
  builds a block while it executes it, waits, and commits it; an exception ends
  it for good.  It gives way in the wait only.  Here anything may come in between
  any two of its steps, so a statement about every run covers that order too.

  Two fields record what the code does not keep: the accepted submissions and
  the transactions taken from the pool.  No step reads them.

  Main definitions:
    * `round`, `commit` — the steps of the loop.
    * `putTx` — a submission.
    * `step` — one step of the chain or of its clients.

  Main results:
    * `step_cases` — what a step does, case by case.
    * `step_flow` — **what was accepted was taken or waits**, in order.
    * `step_numbered` — the block at a position has the position as its height.
-/
import TorSim.Blockchain.Chain

namespace TorSim

open TorSim.Lib

/-- `AsyncMemPool`: its two operations have the text of the other pool's. -/
abbrev AsyncMemPool (τ : Type) := SyncMemPool τ

/-! ## §1. The state. -/

/-- Where the loop stands, with the block it works on.  While it executes, the block
in the context has no transactions yet. -/
inductive Loop where
  | idle
  | executing (block : Block) (txs : List Transaction)
  | built (block : Block)
  | ended (ctx : Context)

/-- `self.ctx`. -/
def Loop.context : Loop → Context
  | .idle => {}
  | .executing block _ => ⟨some block⟩
  | .built block => ⟨some block⟩
  | .ended ctx => ctx

structure Blockchain (τ : Type) where
  mining : Bool := true
  running : Bool := true
  pool : AsyncMemPool τ := {}
  store : BaseStore := BaseStore.empty
  blocks : BlockStorage := { blocks := [{}] }
  loop : Loop := .idle
  accepted : List (τ × Transaction) := []
  popped : List (τ × Transaction) := []

namespace Blockchain

variable {τ : Type}

/-! ## §2. The steps. -/

/-- `txpool.put_tx(tx)`, at time `time`. -/
def putTx (time : PyFloat) (tag : τ) (tx : Transaction) : Comp (Blockchain τ) Bool := fun c =>
  match c.pool.putTx time tag tx with
  | (.ok true, pool) =>
      (.ok true, { c with pool := pool, accepted := c.accepted ++ [(tag, tx)] })
  | (r, pool) => (r, { c with pool := pool })

/-- `propose_block_and_exec` up to its loop: the next block, still without
transactions. -/
def propose (timestamp : PyFloat) (c : Blockchain τ) : Blockchain τ :=
  { c with
    loop := .executing { height := c.blocks.blocks.length, timestamp := timestamp } [] }

section Rounds

variable [Contracts] [Sha256]

/-- One round of that loop: take a transaction and execute it.  It ends on an empty
pool, when the time is up, and on a block of exactly the configured size. -/
def round (cfg : Config) (time : PyFloat) (timedOut : Bool) (block : Block)
    (txs : List Transaction) (c : Blockchain τ) : Blockchain τ :=
  match c.pool.popTx time with
  | (none, pool) => { c with pool := pool, loop := .built { block with txs := txs } }
  | (some (tag, tx), pool) =>
      let c := { c with pool := pool, popped := c.popped ++ [(tag, tx)] }
      let tx := { tx with status := .proposing }
      match Executor.executeTx ⟨some block⟩ block.height txs.length tx c.store with
      | (.error _, store) => { c with store := store, loop := .ended ⟨some block⟩ }
      | (.ok resp, store) =>
          let tx := { tx with
            status := if resp.code = 1 then .success else .failed
            out := resp.out }
          let txs := txs ++ [tx]
          { c with
            store := store
            loop := if timedOut || decide ((txs.length : Int) = cfg.blockSize)
              then .built { block with txs := txs } else .executing block txs }

omit [Contracts] [Sha256] in
/-- `mark_tx` of `commit`: the transactions before one that raises stay marked. -/
def markTxs (time : PyFloat) : List Transaction → Except Exn Unit × List Transaction
  | [] => (.ok (), [])
  | tx :: txs =>
      match SyncMemPool.markTx "commit" time tx with
      | .error e => (.error e, tx :: txs)
      | .ok tx => ((markTxs time txs).1, tx :: (markTxs time txs).2)

omit [Contracts] [Sha256] in
/-- `update_tx` of `commit`. -/
def updateTx (height : Int) (tx : Transaction) : Transaction :=
  { tx with height := height, status := .success }

omit [Contracts] [Sha256] in
/-- `self.blocks.append(block)`. -/
def append (block : Block) (c : Blockchain τ) : Blockchain τ :=
  { c with blocks := { blocks := c.blocks.blocks ++ [block] } }

omit [Contracts] in
/-- `commit`: the block is appended first, so it stays where a later part raises.
The index itself is not kept: of it only the hashing can be noticed here. -/
def commit (time : PyFloat) (block : Block) (c : Blockchain τ) : Blockchain τ :=
  match markTxs time block.txs with
  | (.error _, txs) =>
      { c.append { block with txs := txs } with loop := .ended ⟨some { block with txs := txs }⟩ }
  | (.ok _, txs) =>
      match mapE (fun tx => tx.hash) txs with
      | .error _ =>
          { c.append { block with txs := txs } with loop := .ended ⟨some { block with txs := txs }⟩ }
      | .ok _ =>
          { c.append { block with txs := txs.map (updateTx block.height) } with loop := .idle }

/-- What can happen next: a submission, a switch, or a step of the loop. -/
inductive Action (τ : Type) where
  | submit (time : PyFloat) (tag : τ) (tx : Transaction)
  | setMining (on : Bool)
  | setRunning (on : Bool)
  | propose (timestamp : PyFloat)
  | round (time : PyFloat) (timedOut : Bool)
  | commit (time : PyFloat)

def step (cfg : Config) (c : Blockchain τ) : Action τ → Option (Blockchain τ)
  | .submit time tag tx => some (putTx time tag tx c).2
  | .setMining on => some { c with mining := on }
  | .setRunning on => some { c with running := on }
  | .propose timestamp =>
      match c.loop with
      | .idle => if c.running && c.mining then some (c.propose timestamp) else none
      | _ => none
  | .round time timedOut =>
      match c.loop with
      | .executing block txs => some (c.round cfg time timedOut block txs)
      | _ => none
  | .commit time =>
      match c.loop with
      | .built block => some (c.commit time block)
      | _ => none

end Rounds

/-! ## §3. What a step does. -/

/-- A submission with the part of it that nothing changes. -/
def label (e : τ × Transaction) : τ × Json × Json × Json := (e.1, e.2.body)

/-- The three ends of a submission, as the chain sees them. -/
inductive PutCase (time : PyFloat) (tag : τ) (tx : Transaction) (c : Blockchain τ) :
    Except Exn Bool → Blockchain τ → Prop where
  | accepted {tx' : Transaction} (hroom : c.pool.isFull = false)
      (hmark : SyncMemPool.markTx "mp_put" time tx = .ok tx') :
      PutCase time tag tx c (.ok true)
        { c with
          pool := { c.pool with items := c.pool.items ++ [(tag, { tx' with status := .pending })] }
          accepted := c.accepted ++ [(tag, tx)] }
  | refused (hfull : c.pool.isFull = true) : PutCase time tag tx c (.ok false) c
  | raised (e : Exn) (hroom : c.pool.isFull = false) : PutCase time tag tx c (.error e) c

theorem putTx_cases (time : PyFloat) (tag : τ) (tx : Transaction) (c : Blockchain τ) :
    PutCase time tag tx c (putTx time tag tx c).1 (putTx time tag tx c).2 := by
  unfold putTx
  rcases SyncMemPool.putTx_cases time tag tx c.pool with
    ⟨tx', hroom, hmark, hput⟩ | ⟨hfull, hput⟩ | ⟨e, hput⟩
  · rw [hput]
    exact .accepted hroom hmark
  · rw [hput]
    exact .refused hfull
  · rw [hput]
    refine .raised e ?_
    -- a full pool refuses before anything can raise
    cases hfull : c.pool.isFull with
    | false => rfl
    | true =>
        unfold SyncMemPool.putTx at hput
        rw [Comp.gets_bind_run, id, hfull] at hput
        cases hput

/-- The three ends told apart by the answer. -/
theorem PutCase.ends {time : PyFloat} {tag : τ} {tx : Transaction} {c c' : Blockchain τ}
    {r : Except Exn Bool} (h : PutCase time tag tx c r c') :
    (r = .ok true ∧ c.pool.isFull = false ∧ c'.accepted = c.accepted ++ [(tag, tx)])
      ∨ (r = .ok false ∧ c.pool.isFull = true ∧ c' = c)
      ∨ ((∃ e, r = .error e) ∧ c.pool.isFull = false ∧ c' = c) := by
  cases h with
  | accepted hroom hmark => exact Or.inl ⟨rfl, hroom, rfl⟩
  | refused hfull => exact Or.inr (Or.inl ⟨rfl, hfull, rfl⟩)
  | raised e hroom => exact Or.inr (Or.inr ⟨⟨e, rfl⟩, hroom, rfl⟩)

section Laws

variable [Contracts] [Sha256]

/-- A round with a transaction in the pool: it is taken and executed. -/
structure RoundTakes (block : Block) (txs : List Transaction) (tag : τ) (tx : Transaction)
    (rest : List (τ × Transaction)) (c c' : Blockchain τ) : Prop where
  pool : c'.pool = { c.pool with items := rest }
  blocks : c'.blocks = c.blocks
  accepted : c'.accepted = c.accepted
  popped : ∃ tx', tx'.body = tx.body ∧ c'.popped = c.popped ++ [(tag, tx')]
    ∧ c'.store = (Executor.executeTx ⟨some block⟩ block.height txs.length
        { tx' with status := .proposing } c.store).2
  loop : c'.loop = .ended ⟨some block⟩
    ∨ (∃ txs', c'.loop = .built { block with txs := txs' }) ∨ ∃ txs', c'.loop = .executing block txs'

theorem round_takes (cfg : Config) (time : PyFloat) (timedOut : Bool) (block : Block)
    (txs : List Transaction) {c : Blockchain τ} {tag : τ} {tx : Transaction}
    {rest : List (τ × Transaction)} (h : c.pool.items = (tag, tx) :: rest) :
    RoundTakes block txs tag tx rest c (c.round cfg time timedOut block txs) := by
  obtain ⟨tx', hpop, hbody, _⟩ := SyncMemPool.popTx_cons time h
  unfold round
  rw [hpop]
  dsimp only
  cases hx : Executor.executeTx ⟨some block⟩ block.height txs.length
      { tx' with status := .proposing } c.store with
  | mk r store =>
      have hstore : store = (Executor.executeTx ⟨some block⟩ block.height txs.length
          { tx' with status := .proposing } c.store).2 := by rw [hx]
      cases r with
      | error e => exact ⟨rfl, rfl, rfl, ⟨tx', hbody, rfl, hstore⟩, Or.inl rfl⟩
      | ok resp =>
          refine ⟨rfl, rfl, rfl, ⟨tx', hbody, rfl, hstore⟩, Or.inr ?_⟩
          dsimp only
          generalize (timedOut || _) = stop
          cases stop with
          | true => exact Or.inl ⟨_, rfl⟩
          | false => exact Or.inr ⟨_, rfl⟩

omit [Contracts] [Sha256] in
/-- A commit touches the blocks and the loop only, and appends its block also where it
raises. -/
structure CommitFrame (block : Block) (c c' : Blockchain τ) : Prop where
  blocks : ∃ txs, c'.blocks.blocks = c.blocks.blocks ++ [{ block with txs := txs }]
  pool : c'.pool = c.pool
  store : c'.store = c.store
  accepted : c'.accepted = c.accepted
  popped : c'.popped = c.popped
  loop : c'.loop = .idle ∨ ∃ ctx, c'.loop = .ended ctx

omit [Contracts] in
theorem commit_frame (time : PyFloat) (block : Block) (c : Blockchain τ) :
    CommitFrame block c (c.commit time block) := by
  unfold commit
  rcases markTxs time block.txs with ⟨e | u, txs⟩
  · exact ⟨⟨txs, rfl⟩, rfl, rfl, rfl, rfl, Or.inr ⟨_, rfl⟩⟩
  · dsimp only
    cases mapE (fun tx => tx.hash) txs with
    | error e => exact ⟨⟨txs, rfl⟩, rfl, rfl, rfl, rfl, Or.inr ⟨_, rfl⟩⟩
    | ok ds => exact ⟨⟨_, rfl⟩, rfl, rfl, rfl, rfl, Or.inl rfl⟩

/-- A step, by what it does. -/
inductive StepCase (c : Blockchain τ) : Action τ → Blockchain τ → Prop where
  | submitted {time : PyFloat} {tag : τ} {tx : Transaction} {r : Except Exn Bool}
      {c' : Blockchain τ} (hput : PutCase time tag tx c r c') :
      StepCase c (.submit time tag tx) c'
  | mining (on : Bool) : StepCase c (.setMining on) { c with mining := on }
  | running (on : Bool) : StepCase c (.setRunning on) { c with running := on }
  | proposed (timestamp : PyFloat) (hloop : c.loop = .idle) :
      StepCase c (.propose timestamp) (c.propose timestamp)
  | emptied {time : PyFloat} {timedOut : Bool} {block : Block} {txs : List Transaction}
      (hloop : c.loop = .executing block txs) (hitems : c.pool.items = []) :
      StepCase c (.round time timedOut) { c with loop := .built { block with txs := txs } }
  | taken {time : PyFloat} {timedOut : Bool} {block : Block} {txs : List Transaction} {tag : τ}
      {tx : Transaction} {rest : List (τ × Transaction)} {c' : Blockchain τ}
      (hloop : c.loop = .executing block txs) (hitems : c.pool.items = (tag, tx) :: rest)
      (ht : RoundTakes block txs tag tx rest c c') : StepCase c (.round time timedOut) c'
  | committed {time : PyFloat} {block : Block} {c' : Blockchain τ} (hloop : c.loop = .built block)
      (hframe : CommitFrame block c c') : StepCase c (.commit time) c'

/-- **What a step does.** -/
theorem step_cases {cfg : Config} {c c' : Blockchain τ} {a : Action τ}
    (h : step cfg c a = some c') : StepCase c a c' := by
  cases a with
  | submit time tag tx =>
      cases h
      exact .submitted (putTx_cases time tag tx c)
  | setMining on =>
      cases h
      exact .mining on
  | setRunning on =>
      cases h
      exact .running on
  | propose timestamp =>
      simp only [step] at h
      split at h
      next hloop =>
          split at h
          · cases h
            exact .proposed timestamp hloop
          · cases h
      next => cases h
  | round time timedOut =>
      simp only [step] at h
      split at h
      next block txs hloop =>
          cases h
          cases hitems : c.pool.items with
          | nil =>
              unfold round
              rw [SyncMemPool.popTx_nil time hitems]
              exact .emptied hloop hitems
          | cons e rest => exact .taken hloop hitems (round_takes cfg time timedOut block txs hitems)
      next => cases h
  | commit time =>
      simp only [step] at h
      split at h
      next block hloop =>
          cases h
          exact .committed hloop (commit_frame time block c)
      next => cases h

/-! ## §4. From the submission to the execution. -/

/-- What was accepted was taken or waits, in order. -/
def Flow (c : Blockchain τ) : Prop :=
  c.accepted.map label = c.popped.map label ++ c.pool.items.map label

omit [Contracts] [Sha256] in
/-- An accepted submission is the last one waiting. -/
theorem PutCase.flow {time : PyFloat} {tag : τ} {tx : Transaction} {c c' : Blockchain τ}
    {r : Except Exn Bool} (h : PutCase time tag tx c r c') (hc : Flow c) : Flow c' := by
  cases h with
  | @accepted tx' hroom hmark =>
      have hbody : tx'.body = tx.body := (SyncMemPool.markTx_keeps hmark).1
      have hlabel : label (tag, { tx' with status := .pending }) = label (tag, tx) := by
        show (tag, tx'.body) = (tag, tx.body)
        rw [hbody]
      unfold Flow at hc ⊢
      show (c.accepted ++ [(tag, tx)]).map label = _ ++ (c.pool.items ++ [_]).map label
      rw [List.map_append, List.map_append, hc, List.append_assoc, List.map_singleton,
        List.map_singleton, hlabel]
  | refused => exact hc
  | raised => exact hc

/-- **What was accepted was taken or waits**, after every step. -/
theorem step_flow {cfg : Config} {c c' : Blockchain τ} {a : Action τ}
    (h : step cfg c a = some c') (hc : Flow c) : Flow c' := by
  cases step_cases h with
  | submitted hput => exact hput.flow hc
  | mining => exact hc
  | running => exact hc
  | proposed => exact hc
  | emptied => exact hc
  | @taken time timedOut block txs tag tx rest _ hloop hitems ht =>
      obtain ⟨tx', hbody, hpop, _⟩ := ht.popped
      have hlabel : label (tag, tx') = label (tag, tx) := by
        show (tag, tx'.body) = (tag, tx.body)
        rw [hbody]
      unfold Flow at hc ⊢
      rw [ht.pool, ht.accepted, hpop, hc, hitems, List.map_append, List.append_assoc]
      show _ ++ (label (tag, tx) :: rest.map label) = _ ++ ([label (tag, tx')] ++ rest.map label)
      rw [hlabel]
      rfl
  | committed hloop hframe =>
      unfold Flow at hc ⊢
      rw [hframe.pool, hframe.accepted, hframe.popped]
      exact hc

/-! ## §5. Heights. -/

/-- The block at a position has the position as its height; so will the next one.  There
is one block at least. -/
structure Numbered (c : Blockchain τ) : Prop where
  stored : c.blocks.Numbered
  genesis : 0 ≤ c.blocks.blockNum
  next : ∀ block, (∃ txs, c.loop = .executing block txs) ∨ c.loop = .built block →
    block.height = c.blocks.blocks.length

omit [Contracts] [Sha256] in
theorem Numbered.congr {c c' : Blockchain τ} (h : Numbered c) (hblocks : c'.blocks = c.blocks)
    (hloop : c'.loop = c.loop) : Numbered c' := by
  refine ⟨?_, ?_, fun block hb => ?_⟩
  · rw [hblocks]
    exact h.stored
  · rw [hblocks]
    exact h.genesis
  · rw [hloop] at hb
    rw [hblocks]
    exact h.next block hb

omit [Contracts] [Sha256] in
theorem PutCase.numbered {time : PyFloat} {tag : τ} {tx : Transaction} {c c' : Blockchain τ}
    {r : Except Exn Bool} (h : PutCase time tag tx c r c') (hc : Numbered c) : Numbered c' := by
  cases h <;> exact hc.congr rfl rfl

/-- **The block at a position has the position as its height**, after every step. -/
theorem step_numbered {cfg : Config} {c c' : Blockchain τ} {a : Action τ}
    (h : step cfg c a = some c') (hc : Numbered c) : Numbered c' := by
  cases step_cases h with
  | submitted hput => exact hput.numbered hc
  | mining => exact hc.congr rfl rfl
  | running => exact hc.congr rfl rfl
  | proposed timestamp =>
      refine ⟨hc.stored, hc.genesis, ?_⟩
      rintro b (⟨_, hb⟩ | hb)
      · cases hb
        rfl
      · cases hb
  | emptied hloop _ =>
      have hnext := hc.next _ (Or.inl ⟨_, hloop⟩)
      refine ⟨hc.stored, hc.genesis, ?_⟩
      rintro b (⟨_, hb⟩ | hb)
      · cases hb
      · cases hb
        exact hnext
  | @taken time timedOut block txs tag tx rest _ hloop hitems ht =>
      have hnext := hc.next block (Or.inl ⟨txs, hloop⟩)
      refine ⟨?_, ?_, fun b hb => ?_⟩
      · rw [ht.blocks]
        exact hc.stored
      · rw [ht.blocks]
        exact hc.genesis
      · -- a round goes on with the same block, or ends the loop
        rw [ht.blocks]
        rcases ht.loop with hended | ⟨txs', hbuilt⟩ | ⟨txs', hgoes⟩
        · rw [hended] at hb
          rcases hb with ⟨_, hb⟩ | hb <;> cases hb
        · rw [hbuilt] at hb
          rcases hb with ⟨_, hb⟩ | hb
          · cases hb
          · cases hb
            exact hnext
        · rw [hgoes] at hb
          rcases hb with ⟨_, hb⟩ | hb
          · cases hb
            exact hnext
          · cases hb
  | @committed time block _ hloop hframe =>
      obtain ⟨txs, hblocks⟩ := hframe.blocks
      have hnext := hc.next block (Or.inr hloop)
      refine ⟨?_, ?_, ?_⟩
      · have hall := hc.stored.append (b := { block with txs := txs }) hnext
        rw [← hblocks] at hall
        exact hall
      · unfold BlockStorage.blockNum
        rw [hblocks, List.length_append, List.length_singleton]
        omega
      · -- behind a commit there is no block to come yet
        rintro b (⟨_, hb⟩ | hb)
        · rcases hframe.loop with hidle | ⟨_, hended⟩
          · rw [hidle] at hb
            cases hb
          · rw [hended] at hb
            cases hb
        · rcases hframe.loop with hidle | ⟨_, hended⟩
          · rw [hidle] at hb
            cases hb
          · rw [hended] at hb
            cases hb

end Laws

end Blockchain

end TorSim
