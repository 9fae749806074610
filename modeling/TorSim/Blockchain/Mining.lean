/-
  TorSim.Blockchain.Mining — the switch of the miner and the thread that reads it.

  The thread of `start` sets the mining flag, then reads it once in every round of
  its loop.  A request to stop lands between any two of its steps: before the flag
  is read the round is skipped, behind it the round still commits its block.  What
  lands before the thread has set the flag is overwritten.

  The thread runs the functions of `Chain` one by one, under a program counter and
  with no guard of its own; so a run of it is a run of the chain, the flags apart.

  Main results:
    * `body_spec` — what one step inside a round does to the flags and the blocks.
    * `run_projects` — the thread's runs are runs of the chain.
    * `unheard` — a request to stop before the thread's first step makes no difference.
    * `stopped_run` — **at most one block behind a request to stop** that is heard.
-/
import TorSim.Blockchain.ChainRuns

namespace TorSim

open TorSim.Lib

/-! ## §1. The thread. -/

/-- Where the thread of `start` stands. -/
inductive Point where
  /-- before `start_mining()` -/
  | begins
  /-- before `start_bc()` -/
  | starts
  /-- before `is_running()` -/
  | head
  /-- before `is_mining()` -/
  | asks
  /-- inside the `try`, as far as the phase of the chain says -/
  | round
  | ended
  deriving Repr, DecidableEq

structure Miner (τ : Type) where
  chain : Chain τ
  point : Point

/-- What the thread may read in one step: clocks and draws. -/
structure Readings where
  time : PyFloat
  draws : Nat → Nat × PyFloat

namespace Miner

variable {τ : Type}

/-- A request, a call of `stop()`, a submission, or one step of the thread. -/
inductive Action (τ : Type) where
  | stopMining
  | startMining
  | setGenXtx (on : Bool)
  | stop
  | submit (time : PyFloat) (tag : τ) (tx : Transaction)
  | thread (readings : Readings)

section Thread

variable [Contracts] [Sha256]

/-- One step inside a round: `propose_block`, `execute`, `consensus` and `commit`. -/
def body (cfg : Config) (r : Readings) (c : Chain τ) : Chain τ :=
  match c.phase with
  | .idle => c.propose cfg r.time r.draws
  | .selecting timestamp txs => c.takeTx cfg r.time timestamp txs
  | .executing p =>
      match p.rest with
      | (tag, tx) :: rest => c.executeNext p tag tx rest
      | [] => c.commit r.time p
  | .stopped _ => c

omit [Contracts] [Sha256] in
/-- Where a round goes on: a commit ends it, an exception ends the loop. -/
def resume (c : Chain τ) : Point :=
  match c.phase with
  | .idle => .head
  | .stopped _ => .ended
  | _ => .round

/-- One step of `start`. -/
def threadStep (cfg : Config) (r : Readings) (m : Miner τ) : Option (Miner τ) :=
  match m.point with
  | .begins => some ⟨{ m.chain with mining := true }, .starts⟩
  | .starts => some ⟨{ m.chain with running := true }, .head⟩
  | .head => some ⟨m.chain, if m.chain.running then .asks else .ended⟩
  | .asks => some ⟨m.chain, if m.chain.mining then .round else .head⟩
  | .round => some ⟨body cfg r m.chain, resume (body cfg r m.chain)⟩
  | .ended => none

def step (cfg : Config) (m : Miner τ) : Action τ → Option (Miner τ)
  | .stopMining => some { m with chain := { m.chain with mining := false } }
  | .startMining => some { m with chain := { m.chain with mining := true } }
  | .setGenXtx on => some { m with chain := { m.chain with genXtxFlag := on } }
  | .stop => some { m with chain := { m.chain with running := false } }
  | .submit time tag tx => some { m with chain := m.chain.submit time tag tx }
  | .thread r => threadStep cfg r m

omit [Contracts] [Sha256] in
/-- The chain before the first step of its thread. -/
def init (c : Chain τ) : Miner τ := ⟨c, .begins⟩

/-! ## §2. What a round changes. -/

/-- **A step inside a round** leaves the flag, and appends at most one block; with it
the round ends. -/
theorem body_spec (cfg : Config) (r : Readings) (c : Chain τ) :
    (body cfg r c).mining = c.mining ∧
      ((body cfg r c).history = c.history ∨
        (∃ b, (body cfg r c).history = c.history ++ [b]) ∧ (body cfg r c).phase = .idle) := by
  unfold body
  cases hphase : c.phase with
  | idle =>
      dsimp only
      unfold Chain.propose
      split
      · exact ⟨rfl, .inl rfl⟩
      · dsimp only
        split
        · exact ⟨rfl, .inl rfl⟩
        · exact ⟨rfl, .inl rfl⟩
  | selecting timestamp txs =>
      dsimp only
      unfold Chain.takeTx
      split
      · exact ⟨rfl, .inl rfl⟩
      · dsimp only
        split
        · exact ⟨rfl, .inl rfl⟩
        · exact ⟨rfl, .inl rfl⟩
  | executing p =>
      dsimp only
      cases hrest : p.rest with
      | cons e rest =>
          dsimp only
          unfold Chain.executeNext
          split
          · exact ⟨rfl, .inl rfl⟩
          · exact ⟨rfl, .inl rfl⟩
      | nil =>
          dsimp only
          unfold Chain.commit
          split
          · exact ⟨rfl, .inl rfl⟩
          · split
            · exact ⟨rfl, .inl rfl⟩
            · exact ⟨rfl, .inr ⟨⟨_, rfl⟩, rfl⟩⟩
  | stopped left => exact ⟨rfl, .inl rfl⟩

omit [Contracts] [Sha256] in
theorem submit_mining (time : PyFloat) (tag : τ) (tx : Transaction) (c : Chain τ) :
    (c.submit time tag tx).mining = c.mining := by
  unfold Chain.submit
  split
  · rfl
  · rfl

/-! ## §3. The chain behind the thread. -/

omit [Contracts] [Sha256] in
/-- The chain with both flags raised, as its own steps ask for. -/
def raised (c : Chain τ) : Chain τ := { c with mining := true, running := true }

omit [Contracts] [Sha256] in
theorem raised_submit (time : PyFloat) (tag : τ) (tx : Transaction) (c : Chain τ) :
    raised (c.submit time tag tx) = (raised c).submit time tag tx := by
  obtain ⟨mining, running, flag, pool, store, blocks, phase, accepted, history⟩ := c
  unfold Chain.submit raised
  dsimp only
  split
  · rfl
  · rfl

omit [Contracts] [Sha256] in
theorem raised_propose (cfg : Config) (timestamp : PyFloat) (draws : Nat → Nat × PyFloat)
    (c : Chain τ) :
    raised (c.propose cfg timestamp draws) = (raised c).propose cfg timestamp draws := by
  obtain ⟨mining, running, flag, pool, store, blocks, phase, accepted, history⟩ := c
  unfold Chain.propose raised
  dsimp only
  generalize (if flag then generateXtx cfg blocks.blockNum draws else .ok []) = generated
  cases generated with
  | error e => rfl
  | ok txs =>
      dsimp only
      split
      · rfl
      · rfl

omit [Contracts] [Sha256] in
theorem raised_takeTx (cfg : Config) (time timestamp : PyFloat)
    (txs : List (Option τ × Transaction)) (c : Chain τ) :
    raised (c.takeTx cfg time timestamp txs) = (raised c).takeTx cfg time timestamp txs := by
  obtain ⟨mining, running, flag, pool, store, blocks, phase, accepted, history⟩ := c
  unfold Chain.takeTx raised
  dsimp only
  split
  · rfl
  · split
    · rfl
    · rfl

theorem raised_executeNext (p : Proposal τ) (tag : Option τ) (tx : Transaction)
    (rest : List (Option τ × Transaction)) (c : Chain τ) :
    raised (c.executeNext p tag tx rest) = (raised c).executeNext p tag tx rest := by
  obtain ⟨mining, running, flag, pool, store, blocks, phase, accepted, history⟩ := c
  unfold Chain.executeNext raised
  dsimp only
  split
  · rfl
  · rfl

omit [Contracts] in
theorem raised_commit (time : PyFloat) (p : Proposal τ) (c : Chain τ) :
    raised (c.commit time p) = (raised c).commit time p := by
  obtain ⟨mining, running, flag, pool, store, blocks, phase, accepted, history⟩ := c
  unfold Chain.commit raised
  dsimp only
  split
  · rfl
  · split
    · rfl
    · rfl

/-- A step inside a round is one the chain has, and there is none behind an exception. -/
theorem body_projects (cfg : Config) (r : Readings) (c : Chain τ) :
    ∃ acts, runFrom (Chain.step cfg) (raised c) acts = some (raised (body cfg r c)) := by
  unfold body
  cases hphase : c.phase with
  | idle =>
      have hidle : (raised c).phase = .idle := hphase
      have hstep : Chain.step cfg (raised c) (.propose r.time r.draws) =
          some ((raised c).propose cfg r.time r.draws) := by
        rw [Chain.step, hidle]
        rfl
      exact ⟨[_], runFrom_one (hstep.trans (congrArg some (raised_propose cfg _ _ c).symm))⟩
  | selecting timestamp txs =>
      have hselect : (raised c).phase = .selecting timestamp txs := hphase
      have hstep : Chain.step cfg (raised c) (.takeTx r.time) =
          some ((raised c).takeTx cfg r.time timestamp txs) := by
        rw [Chain.step, hselect]
      exact ⟨[_], runFrom_one (hstep.trans (congrArg some (raised_takeTx cfg _ _ _ c).symm))⟩
  | executing p =>
      have hexec : (raised c).phase = .executing p := hphase
      dsimp only
      cases hrest : p.rest with
      | cons e rest =>
          have hstep : Chain.step cfg (raised c) .executeNext =
              some ((raised c).executeNext p e.1 e.2 rest) := by
            rw [Chain.step, hexec]
            dsimp only
            rw [hrest]
          exact ⟨[_], runFrom_one
            (hstep.trans (congrArg some (raised_executeNext p e.1 e.2 rest c).symm))⟩
      | nil =>
          have hstep : Chain.step cfg (raised c) (.commit r.time) =
              some ((raised c).commit r.time p) := by
            rw [Chain.step, hexec]
            dsimp only
            rw [hrest]
            rfl
          exact ⟨[_], runFrom_one (hstep.trans (congrArg some (raised_commit _ p c).symm))⟩
  | stopped left => exact ⟨[], rfl⟩

/-- **A step of the thread is one of the chain**, or none at all. -/
theorem step_projects {cfg : Config} {m m' : Miner τ} {a : Action τ}
    (h : step cfg m a = some m') :
    ∃ acts, runFrom (Chain.step cfg) (raised m.chain) acts = some (raised m'.chain) := by
  cases a with
  | stopMining =>
      cases h
      exact ⟨[], rfl⟩
  | startMining =>
      cases h
      exact ⟨[], rfl⟩
  | stop =>
      cases h
      exact ⟨[], rfl⟩
  | setGenXtx on =>
      cases h
      exact ⟨[.setGenXtx on], rfl⟩
  | submit time tag tx =>
      cases h
      exact ⟨[.submit time tag tx], by rw [raised_submit]; rfl⟩
  | thread r =>
      obtain ⟨c, point⟩ := m
      cases point with
      | begins =>
          cases h
          exact ⟨[], rfl⟩
      | starts =>
          cases h
          exact ⟨[], rfl⟩
      | head =>
          cases h
          exact ⟨[], rfl⟩
      | asks =>
          cases h
          exact ⟨[], rfl⟩
      | ended => cases h
      | round =>
          cases h
          exact body_projects cfg r c

/-- **The thread's runs are runs of the chain**: what holds in every state a chain
reaches holds of the chain under the thread. -/
theorem run_projects {cfg : Config} (acts : List (Action τ)) : ∀ {m m' : Miner τ},
    runFrom (step cfg) m acts = some m' →
    ∃ acts', runFrom (Chain.step cfg) (raised m.chain) acts' = some (raised m'.chain) := by
  induction acts with
  | nil =>
      intro m m' h
      cases h
      exact ⟨[], rfl⟩
  | cons a acts ih =>
      intro m m' h
      obtain ⟨m₁, hstep, hrest⟩ := runFrom_cons h
      obtain ⟨first, hfirst⟩ := step_projects hstep
      obtain ⟨rest, hrest⟩ := ih hrest
      exact ⟨first ++ rest, runFrom_append first rest hfirst hrest⟩

/-! ## §4. Behind a request to stop. -/

/-- The thread has begun, the flag is down, and with the block of the round under way
there are at most `n`. -/
structure Stopped (n : Nat) (m : Miner τ) : Prop where
  begun : m.point ≠ .begins
  down : m.chain.mining = false
  blocks : m.chain.history.length + (if m.point = .round then 1 else 0) ≤ n

omit [Contracts] [Sha256] in
/-- Outside a round the blocks are all there are. -/
theorem Stopped.outside {n : Nat} {c : Chain τ} {point : Point} (hbegun : point ≠ .begins)
    (hround : point ≠ .round) (hdown : c.mining = false) (hblocks : c.history.length ≤ n) :
    Stopped n ⟨c, point⟩ := by
  refine ⟨hbegun, hdown, ?_⟩
  show c.history.length + (if point = .round then 1 else 0) ≤ n
  rwa [if_neg hround]

/-- **Only a request to start raises the flag again**: a round begins with the flag
raised, and the one under way has its block counted. -/
theorem step_stopped {cfg : Config} {n : Nat} {m m' : Miner τ} {a : Action τ}
    (hm : Stopped n m) (ha : a ≠ .startMining) (h : step cfg m a = some m') : Stopped n m' := by
  obtain ⟨hbegun, hdown, hblocks⟩ := hm
  cases a with
  | startMining => exact absurd rfl ha
  | stopMining =>
      cases h
      exact ⟨hbegun, rfl, hblocks⟩
  | setGenXtx on =>
      cases h
      exact ⟨hbegun, hdown, hblocks⟩
  | stop =>
      cases h
      exact ⟨hbegun, hdown, hblocks⟩
  | submit time tag tx =>
      cases h
      refine ⟨hbegun, (submit_mining time tag tx m.chain).trans hdown, ?_⟩
      show (m.chain.submit time tag tx).history.length + _ ≤ n
      rwa [(Chain.submit_keeps time tag tx m.chain).1]
  | thread r =>
      obtain ⟨c, point⟩ := m
      have hle : c.history.length ≤ n := Nat.le_trans (Nat.le_add_right _ _) hblocks
      cases point with
      | begins => exact absurd rfl hbegun
      | starts =>
          cases h
          exact .outside Point.noConfusion Point.noConfusion hdown hle
      | head =>
          cases h
          cases hrun : c.running with
          | false => exact .outside Point.noConfusion Point.noConfusion hdown hle
          | true => exact .outside Point.noConfusion Point.noConfusion hdown hle
      | asks =>
          -- the flag is read here, and it is down
          cases h
          have hskip : (if c.mining then Point.round else Point.head) = .head :=
            if_neg (by rw [show c.mining = false from hdown]; exact Bool.false_ne_true)
          rw [hskip]
          exact .outside Point.noConfusion Point.noConfusion hdown hle
      | round =>
          cases h
          obtain ⟨hmining, hhistory⟩ := body_spec cfg r c
          have hnext : resume (body cfg r c) ≠ .begins := by
            unfold resume
            split <;> exact Point.noConfusion
          refine ⟨hnext, hmining.trans hdown, ?_⟩
          have hroom : c.history.length + 1 ≤ n := hblocks
          rcases hhistory with hsame | ⟨⟨b, hone⟩, hidle⟩
          · show (body cfg r c).history.length + _ ≤ n
            rw [hsame]
            split <;> omega
          · -- the block under way is committed, and the round over
            show (body cfg r c).history.length + (if resume (body cfg r c) = .round then 1 else 0) ≤ n
            rw [hone, resume, hidle, List.length_append]
            exact hroom
      | ended => cases h

/-- A request to stop, and what follows it without a request to start. -/
theorem blocks_behind_stop {cfg : Config} {m₁ m₂ : Miner τ} {mid : List (Action τ)}
    (hbegun : m₁.point ≠ .begins) (hnone : .startMining ∉ mid)
    (hmid : runFrom (step cfg) m₁ (.stopMining :: mid) = some m₂) :
    m₂.chain.history.length ≤ m₁.chain.history.length + 1 := by
  obtain ⟨m, hstop, hmid⟩ := runFrom_cons hmid
  cases hstop
  have hstart : Stopped (m₁.chain.history.length + 1)
      { m₁ with chain := { m₁.chain with mining := false } } := by
    refine ⟨hbegun, rfl, ?_⟩
    show m₁.chain.history.length + (if m₁.point = .round then 1 else 0) ≤ _
    split <;> omega
  have hall : Along (step cfg) (fun _ a => a ≠ .startMining)
      { m₁ with chain := { m₁.chain with mining := false } } mid :=
    along_of_forall (fun a ha _ => ne_of_mem_of_not_mem ha hnone) _
  have hend := run_invariant_along (fun s a s' hs ha h => step_stopped hs ha h) mid hall hmid hstart
  exact Nat.le_trans (Nat.le_add_right _ _) hend.blocks

omit [Contracts] [Sha256] in
/-- A request to stop is heard when the thread has raised its own flag before it. -/
def Heard (m : Miner τ) (a : Action τ) : Prop := a = .stopMining → m.point ≠ .begins

/-- Before that it is overwritten: the thread goes on as if it had not been made. -/
theorem unheard {cfg : Config} {m : Miner τ} (h : m.point = .begins) (r : Readings) :
    (step cfg m .stopMining).bind (fun m => step cfg m (.thread r)) = step cfg m (.thread r) := by
  obtain ⟨c, point⟩ := m
  cases h
  rfl

/-- **At most one block behind a request to stop**: wherever in a run the request lands,
as long as requests to stop are heard, and whatever follows up to a request to start. -/
theorem stopped_run {cfg : Config} {c : Chain τ} {m₁ m₂ : Miner τ} {pre mid : List (Action τ)}
    (hpre : runFrom (step cfg) (init c) pre = some m₁)
    (hmid : runFrom (step cfg) m₁ (.stopMining :: mid) = some m₂)
    (hheard : Along (step cfg) Heard (init c) (pre ++ .stopMining :: mid))
    (hnone : .startMining ∉ mid) :
    m₂.chain.history.length ≤ m₁.chain.history.length + 1 := by
  have hbegun : m₁.point ≠ .begins :=
    (((along_append pre (.stopMining :: mid)).mp hheard).2 m₁ hpre).1 rfl
  exact blocks_behind_stop hbegun hnone hmid

end Thread

/-- Steps of the thread alone. -/
def threadSteps (n : Nat) : List (Action Nat) :=
  List.replicate n (.thread ⟨PyFloat.zero, fun _ => (0, PyFloat.zero)⟩)

theorem startMining_not_mem (n : Nat) : .startMining ∉ threadSteps n :=
  fun h => by cases List.eq_of_mem_replicate h

/-- A run of a fresh chain and what follows it: where the thread stands at its end, and
the numbers of blocks. -/
def outcome (pre acts : List (Action Nat)) : Option (Point × Nat × Point × Nat) := do
  let m₁ ← runFrom (@step Nat Contracts.plain Sha256.plain {}) (init Chain.started) pre
  let m₂ ← runFrom (@step Nat Contracts.plain Sha256.plain {}) m₁ acts
  return (m₁.point, m₁.chain.history.length, m₂.point, m₂.chain.history.length)

theorem outcome_eq_some {pre acts : List (Action Nat)} {r : Point × Nat × Point × Nat}
    (h : outcome pre acts = some r) : ∃ m₁ m₂ : Miner Nat,
      runFrom (@step Nat Contracts.plain Sha256.plain {}) (init Chain.started) pre = some m₁ ∧
      runFrom (@step Nat Contracts.plain Sha256.plain {}) m₁ acts = some m₂ ∧
      r = (m₁.point, m₁.chain.history.length, m₂.point, m₂.chain.history.length) := by
  unfold outcome at h
  obtain ⟨m₁, h₁, h⟩ := Option.bind_eq_some_iff.mp h
  obtain ⟨m₂, h₂, h⟩ := Option.bind_eq_some_iff.mp h
  cases h
  exact ⟨m₁, m₂, h₁, h₂, rfl⟩

/-- A request inside a round: its block comes, and none for as long as the thread runs
on. -/
theorem stopped_run_sample :
    ∃ m₁ m₂ : Miner Nat, m₁.point = .round ∧ m₁.chain.history.length = 0 ∧
      m₂.chain.history.length = 1 ∧
      m₂.chain.history.length ≤ m₁.chain.history.length + 1 := by
  have hrun : outcome (threadSteps 5) (.stopMining :: threadSteps 8) = some (.round, 0, .head, 1) := by
    decide +kernel
  obtain ⟨m₁, m₂, hpre, hmid, heq⟩ := outcome_eq_some hrun
  obtain ⟨hpoint, hrest⟩ := Prod.mk.inj heq
  obtain ⟨hfirst, hrest⟩ := Prod.mk.inj hrest
  refine ⟨m₁, m₂, hpoint.symm, hfirst.symm, (Prod.mk.inj hrest).2.symm, ?_⟩
  have hheard : Along (@step Nat Contracts.plain Sha256.plain {}) Heard (init Chain.started)
      (threadSteps 5 ++ .stopMining :: threadSteps 8) := by
    refine (along_append _ _).mpr ⟨along_of_forall (fun a ha _ heq => ?_) _, fun m hm => ?_⟩
    · cases (List.eq_of_mem_replicate ha).symm.trans heq
    · cases hpre.symm.trans hm
      refine ⟨fun _ => by rw [← hpoint]; decide, fun m _ => along_of_forall (fun a ha _ heq => ?_) _⟩
      cases (List.eq_of_mem_replicate ha).symm.trans heq
  exact @stopped_run Nat Contracts.plain Sha256.plain {} Chain.started m₁ m₂ (threadSteps 5)
    (threadSteps 8) hpre hmid hheard (startMining_not_mem 8)

/-- A request before the thread's first step is overwritten by it: two blocks, and no
request to start. -/
theorem stopped_run_overwritten :
    ∃ m₁ m₂ : Miner Nat,
      runFrom (@step Nat Contracts.plain Sha256.plain {}) (init Chain.started) [] = some m₁ ∧
      runFrom (@step Nat Contracts.plain Sha256.plain {}) m₁ (.stopMining :: threadSteps 12)
        = some m₂ ∧
      .startMining ∉ threadSteps 12 ∧
      ¬ m₂.chain.history.length ≤ m₁.chain.history.length + 1 := by
  have hrun : outcome [] (.stopMining :: threadSteps 12) = some (.begins, 0, .head, 2) := by
    decide +kernel
  obtain ⟨m₁, m₂, hpre, hmid, heq⟩ := outcome_eq_some hrun
  obtain ⟨_, hrest⟩ := Prod.mk.inj heq
  obtain ⟨hfirst, hrest⟩ := Prod.mk.inj hrest
  obtain ⟨_, hlast⟩ := Prod.mk.inj hrest
  refine ⟨m₁, m₂, hpre, hmid, startMining_not_mem 12, ?_⟩
  rw [← hfirst, ← hlast]
  decide

end Miner

end TorSim
