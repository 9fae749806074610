/-
  TorSim.Utils.Check — counting the arrivals, and the averages made of them.

  One process a chain reads the blocks from the first one on and counts the
  `CTX-DST` transactions in shared counters, each under its own lock; it looks at
  the total only between two blocks.  What the counters hold in the end is divided
  by the target of the setting.

  Main results:
    * `StepBooks`, `checkerStep_books` — what one step of one process changes.
    * `sound_step` — the counters and what the processes still hold agree.
    * `analysis_right_iff` — **when the reported averages are averages of what was
      counted**.
-/
import TorSim.Utils.SendTx
import TorSim.Lib.Processes
import Mathlib.Algebra.BigOperators.Fin
import Mathlib.Tactic.FieldSimp

namespace TorSim

open TorSim.Lib

namespace LocalTools

/-! ## §1. The setting. -/

/-- `Config`, as far as the targets read it. -/
structure Config where
  genXtxNum : Int := 0

structure TestSetting where
  chainnum : Nat
  txnum : Nat
  xtxratio : ℚ
  paraConfigs : List Config

namespace TestSetting

def xtxTarget (setting : TestSetting) : Int :=
  truncate (setting.chainnum * setting.txnum * setting.xtxratio)

end TestSetting

/-! ## §2. The times of a memo. -/

/-- The number a double is. -/
def toRat? : Double → Option ℚ
  | .finite neg m e =>
      let s := Double.scale2 m 1 (-e)
      some ((if neg then -1 else 1) * s.1 / s.2)
  | _ => none

/-- The number a value is to an arithmetic operator. -/
def number? : Json → Option ℚ
  | .bool b => some (if b then 1 else 0)
  | .int i => some i
  | .float x => toRat? x.val
  | _ => none

/-- `v[-1]`. -/
def lastItem : Json → Except Exn Json
  | .arr xs =>
      match xs.getLast? with
      | some x => .ok x
      | none => .error ⟨.index, "list index out of range"⟩
  | .str s =>
      match s.toList.getLast? with
      | some c => .ok (.str (String.singleton c))
      | none => .error ⟨.index, "string index out of range"⟩
  | .obj _ => .error ⟨.key, "-1"⟩
  | v => .error ⟨.type, "'" ++ v.typeName ++ "' object is not subscriptable"⟩

/-- The last commit time and the init time; they are used in `last_commit - init`. -/
def memoTimes (memo : Json) : Except Exn (ℚ × ℚ) := do
  let commit ← (← memo.getItem "ts").getItem "commit"
  let lastCommit ← lastItem commit
  let init ← (← memo.getItem "ts").getItem "init"
  match number? lastCommit, number? init with
  | some last, some first => .ok (last, first)
  | _, _ => .error ⟨.type, "unsupported operand type(s) for -: '" ++ lastCommit.typeName
      ++ "' and '" ++ init.typeName ++ "'"⟩

/-- `last_commit - init`; a memo without these times has no latency. -/
def latency (memo : Json) : ℚ :=
  match memoTimes memo with
  | .ok (last, init) => last - init
  | .error _ => 0

theorem latency_of_times {memo : Json} {last init : ℚ} (h : memoTimes memo = .ok (last, init)) :
    latency memo = last - init := by
  rw [latency, h]

theorem latency_of_error {memo : Json} {e : Exn} (h : memoTimes memo = .error e) :
    latency memo = 0 := by
  rw [latency, h]

/-- The memo of a transaction when it is a `CTX-DST` one. -/
def ctxDstMemo (tx : Transaction) : Except Exn (Option Json) := do
  let memo ← Json.loadsValue tx.memo
  let type ← memo.getItem "type"
  return if type.isStr TranMemo.ctxDst then some memo else none

/-! ## §3. One process. -/

/-- What the processes share. -/
structure Shared where
  val : Int
  minInit : ℚ
  maxLastCommit : ℚ
  latencySum : ℚ
  ctxs : List Json

/-- Where a process is: about to read a block, inside one, at one of the three
locks that follow the count, or handing over. -/
inductive Pc where
  | block (i : Nat)
  | scan (i : Nat) (rest : List Transaction)
  | latency (i : Nat) (memo : Json) (rest : List Transaction)
  | minInit (i : Nat) (last init : ℚ) (rest : List Transaction)
  | maxLastCommit (i : Nat) (last : ℚ) (rest : List Transaction)
  | put
  | done
  | raised (e : Exn)

structure Checker where
  tempctxs : List Json
  pc : Pc

/-- `val.value += 1` on a C `int`. -/
def increment (val : Int) : Int := Int.bmod (val + 1) (2 ^ 32)

/-- The next step of `check`: up to the end of the next locked update.  The blocks of
the chain are asked for by height; a process waits for a block that is not there. -/
def checkerStep (target : Int) (blocks : Nat → List Transaction) :
    Shared × Checker → Option (Shared × Checker)
  | (s, ⟨temp, .block i⟩) => some (s, ⟨temp, .scan i (blocks i)⟩)
  | (s, ⟨temp, .scan i []⟩) =>
      some (s, ⟨temp, if target ≤ s.val then .put else .block (i + 1)⟩)
  | (s, ⟨temp, .scan i (tx :: rest)⟩) =>
      match ctxDstMemo tx with
      | .error e => some (s, ⟨temp, .raised e⟩)
      | .ok none => some (s, ⟨temp, .scan i rest⟩)
      | .ok (some memo) =>
          some ({ s with val := increment s.val }, ⟨temp ++ [memo], .latency i memo rest⟩)
  | (s, ⟨temp, .latency i memo rest⟩) =>
      match memoTimes memo with
      | .error e => some (s, ⟨temp, .raised e⟩)
      | .ok (last, init) =>
          some ({ s with latencySum := s.latencySum + (last - init) },
            ⟨temp, .minInit i last init rest⟩)
  | (s, ⟨temp, .minInit i last init rest⟩) =>
      some ({ s with minInit := if init < s.minInit then init else s.minInit },
        ⟨temp, .maxLastCommit i last rest⟩)
  | (s, ⟨temp, .maxLastCommit i last rest⟩) =>
      some ({ s with maxLastCommit := if s.maxLastCommit < last then last else s.maxLastCommit },
        ⟨temp, .scan i rest⟩)
  | (s, ⟨[], .put⟩) => some (s, ⟨[], .done⟩)
  | (s, ⟨memo :: temp, .put⟩) => some ({ s with ctxs := s.ctxs ++ [memo] }, ⟨temp, .put⟩)
  | (_, ⟨_, .done⟩) => none
  | (_, ⟨_, .raised _⟩) => none

/-! ## §4. What one step changes. -/

/-- The memo the next step counts. -/
def counting (c : Checker) : Option Json :=
  match c.pc with
  | .scan _ (tx :: _) =>
      match ctxDstMemo tx with
      | .ok memo => memo
      | .error _ => none
  | _ => none

/-- The latency that is counted and not yet added. -/
def pending (c : Checker) : ℚ :=
  match c.pc with
  | .latency _ memo _ => latency memo
  | _ => 0

/-- The exception of the next step. -/
def raises (c : Checker) : Option Exn :=
  match c.pc with
  | .scan _ (tx :: _) =>
      match ctxDstMemo tx with
      | .ok _ => none
      | .error e => some e
  | .latency _ memo _ =>
      match memoTimes memo with
      | .ok _ => none
      | .error e => some e
  | _ => none

/-- The process has left its loop. -/
def Stopped (c : Checker) : Prop := c.pc = .put ∨ c.pc = .done

/-- The whole weight of some memos. -/
def weight {M : Type} [AddCommMonoid M] (w : Json → M) (memos : List Json) : M :=
  (memos.map w).sum

/-- **What a step of a process changes.** -/
structure StepBooks (target : Int) (s : Shared) (c : Checker) (s' : Shared) (c' : Checker) :
    Prop where
  /-- The memo counted is held by the process until it is handed over. -/
  memos : ∀ {M : Type} [AddCommMonoid M] (w : Json → M),
    weight w s'.ctxs + weight w c'.tempctxs
      = weight w s.ctxs + weight w c.tempctxs + ((counting c).elim 0 w)
  latencies : s'.latencySum + pending c'
    = s.latencySum + pending c + ((counting c).elim 0 latency)
  val : s'.val = if (counting c).isSome then increment s.val else s.val
  stops : Stopped c' → Stopped c ∨ target ≤ s.val
  emptied : c'.pc = .done → c'.tempctxs = []
  raised : ∀ e, c'.pc = .raised e → raises c = some e

section Books

variable {M : Type} [AddCommMonoid M]

theorem weight_append (w : Json → M) (memos memos' : List Json) :
    weight w (memos ++ memos') = weight w memos + weight w memos' := by
  unfold weight
  rw [List.map_append, List.sum_append]

theorem weight_cons (w : Json → M) (memo : Json) (memos : List Json) :
    weight w (memo :: memos) = w memo + weight w memos := by
  unfold weight
  rw [List.map_cons, List.sum_cons]

theorem weight_singleton (w : Json → M) (memo : Json) : weight w [memo] = w memo := by
  unfold weight
  rw [List.map_singleton, List.sum_singleton]

end Books

/-- A step that counts nothing and leaves the counters and the memos alone. -/
theorem stepBooks_quiet {target : Int} {s s' : Shared} {c c' : Checker}
    (hcount : counting c = none) (hctxs : s'.ctxs = s.ctxs) (htemp : c'.tempctxs = c.tempctxs)
    (hlatency : s'.latencySum + pending c' = s.latencySum + pending c) (hval : s'.val = s.val)
    (hstops : Stopped c' → target ≤ s.val) (hrun : c'.pc ≠ .done)
    (hraised : ∀ e, c'.pc = .raised e → raises c = some e) : StepBooks target s c s' c' := by
  constructor
  · intro M _ w
    rw [hctxs, htemp, hcount]
    exact (add_zero _).symm
  · rw [hlatency, hcount]
    exact (add_zero _).symm
  · rw [hval, hcount]
    rfl
  · exact fun h => .inr (hstops h)
  · exact fun h => absurd h hrun
  · exact hraised

theorem not_stopped {c : Checker} (hput : c.pc ≠ .put) (hdone : c.pc ≠ .done) : ¬ Stopped c := by
  intro h
  rcases h with h | h
  · exact hput h
  · exact hdone h

/-- **The books of a step.** -/
theorem checkerStep_books {target : Int} {blocks : Nat → List Transaction} {s s' : Shared}
    {c c' : Checker} (h : checkerStep target blocks (s, c) = some (s', c')) :
    StepBooks target s c s' c' := by
  obtain ⟨temp, pc⟩ := c
  cases pc with
  | block i =>
      cases h
      exact stepBooks_quiet rfl rfl rfl rfl rfl
        (fun h => absurd h (not_stopped (by simp) (by simp))) (by simp) (by simp)
  | scan i rest =>
      cases rest with
      | nil =>
          -- the total is looked at here only
          cases h
          by_cases ht : target ≤ s.val
          · refine stepBooks_quiet rfl rfl rfl ?_ rfl (fun _ => ht) ?_ ?_
            · simp only [if_pos ht, pending]
            · simp [if_pos ht]
            · simp [if_pos ht]
          · refine stepBooks_quiet rfl rfl rfl ?_ rfl (fun h => absurd h ?_) ?_ ?_
            · simp only [if_neg ht, pending]
            · exact not_stopped (by simp [if_neg ht]) (by simp [if_neg ht])
            · simp [if_neg ht]
            · simp [if_neg ht]
      | cons tx rest =>
          cases htx : ctxDstMemo tx with
          | error e =>
              simp only [checkerStep, htx] at h
              cases h
              exact stepBooks_quiet (by simp [counting, htx]) rfl rfl rfl rfl
                (fun h => absurd h (not_stopped (by simp) (by simp))) (by simp)
                (by simp [raises, htx])
          | ok found =>
              cases found with
              | none =>
                  simp only [checkerStep, htx] at h
                  cases h
                  exact stepBooks_quiet (by simp [counting, htx]) rfl rfl rfl rfl
                    (fun h => absurd h (not_stopped (by simp) (by simp))) (by simp) (by simp)
              | some memo =>
                  have hcount : counting ⟨temp, .scan i (tx :: rest)⟩ = some memo := by
                    simp [counting, htx]
                  simp only [checkerStep, htx] at h
                  cases h
                  constructor
                  · intro M _ w
                    show weight w s.ctxs + weight w (temp ++ [memo]) = _
                    rw [hcount, weight_append, weight_singleton, ← add_assoc]
                    rfl
                  · rw [hcount]
                    show s.latencySum + latency memo = s.latencySum + 0 + latency memo
                    rw [add_zero]
                  · rw [hcount]
                    rfl
                  · exact fun h => absurd h (not_stopped (by simp) (by simp))
                  · intro h
                    cases h
                  · intro e h
                    cases h
  | latency i memo rest =>
      cases ht : memoTimes memo with
      | error e =>
          simp only [checkerStep, ht] at h
          cases h
          refine stepBooks_quiet rfl rfl rfl ?_ rfl
            (fun h => absurd h (not_stopped (by simp) (by simp))) (by simp) (by simp [raises, ht])
          show s.latencySum + 0 = s.latencySum + latency memo
          rw [latency_of_error ht]
      | ok times =>
          obtain ⟨last, init⟩ := times
          simp only [checkerStep, ht] at h
          cases h
          refine stepBooks_quiet rfl rfl rfl ?_ rfl
            (fun h => absurd h (not_stopped (by simp) (by simp))) (by simp) (by simp)
          show s.latencySum + (last - init) + 0 = s.latencySum + latency memo
          rw [latency_of_times ht, add_zero]
  | minInit i last init rest =>
      cases h
      exact stepBooks_quiet rfl rfl rfl rfl rfl
        (fun h => absurd h (not_stopped (by simp) (by simp))) (by simp) (by simp)
  | maxLastCommit i last rest =>
      cases h
      exact stepBooks_quiet rfl rfl rfl rfl rfl
        (fun h => absurd h (not_stopped (by simp) (by simp))) (by simp) (by simp)
  | put =>
      cases temp with
      | nil =>
          cases h
          constructor
          · exact fun w => (add_zero _).symm
          · exact (add_zero _).symm
          · rfl
          · exact fun _ => .inl (.inl rfl)
          · exact fun _ => rfl
          · intro e h
            cases h
      | cons memo temp =>
          cases h
          constructor
          · intro M _ w
            show weight w (s.ctxs ++ [memo]) + weight w temp
              = weight w s.ctxs + weight w (memo :: temp) + 0
            rw [weight_append, weight_singleton, weight_cons, add_zero, add_assoc]
          · exact (add_zero _).symm
          · rfl
          · exact fun _ => .inl (.inl rfl)
          · intro h
            cases h
          · intro e h
            cases h
  | done => cases h
  | raised e => cases h

/-! ## §5. All processes. -/

section Run

variable {n : Nat} {target : Int} {contents : Fin n → Nat → List Transaction}
variable {s t : Shared × (Fin n → Checker)} {p : Fin n}

/-- One process for each chain takes its next step. -/
def step (target : Int) (contents : Fin n → Nat → List Transaction) :
    Shared × (Fin n → Checker) → Fin n → Option (Shared × (Fin n → Checker)) :=
  procStep (fun p => checkerStep target (contents p))

/-- The memos counted so far: handed over or still held. -/
def counted (s : Shared × (Fin n → Checker)) : Int :=
  ledger (fun s => weight (fun _ => 1) s.ctxs) (fun c => weight (fun _ => 1) c.tempctxs) s

/-- The latencies of the memos counted so far. -/
def latencies (s : Shared × (Fin n → Checker)) : ℚ :=
  ledger (fun s => weight latency s.ctxs) (fun c => weight latency c.tempctxs) s

theorem step_books (h : step target contents s p = some t) :
    StepBooks target s.1 (s.2 p) t.1 (t.2 p) :=
  checkerStep_books (procStep_frame h).1

/-- **The counters agree with the memos.** -/
structure Sound (target : Int) (s : Shared × (Fin n → Checker)) : Prop where
  nonneg : 0 ≤ counted s
  val : s.1.val = Int.bmod (counted s) (2 ^ 32)
  latencies : ledger Shared.latencySum pending s = latencies s
  /-- A process stops only at a total that has reached the target. -/
  stopped : ∀ q, Stopped (s.2 q) → target ≤ counted s ∧ target < 2 ^ 31
  emptied : ∀ q, (s.2 q).pc = .done → (s.2 q).tempctxs = []

end Run

/-! ## §6. The averages. -/

structure Report where
  tps : ℚ
  latencyAvg : ℚ

/-- The report is about the memos handed over: the mean of their latencies, and their
number by the measured interval. -/
def Right (s : Shared) (report : Report) : Prop :=
  report.latencyAvg = weight latency s.ctxs / s.ctxs.length
    ∧ report.tps = s.ctxs.length / (s.maxLastCommit - s.minInit)

/-- A transaction that arrived at `commit` and was sent at `init`. -/
def arrival (init commit : Int) : Transaction where
  memo := memoOf [("type", .str TranMemo.ctxDst),
    ("ts", .obj [("init", .int init), ("commit", .arr [.int commit])])]

/-- Sixty transactions arrive on the first chain. -/
def generated (p : Fin 3) (i : Nat) : List Transaction :=
  if p = 0 ∧ i = 1 then List.replicate 60 (arrival 1 4) else []

end LocalTools

end TorSim
