/-
  TorSim.Relayer.Statuses — what the status of a committed transaction says.

  `execute` writes SUCCESS or FAILED by the code of the execution; at the commit
  `update_tx` writes SUCCESS over it, for every transaction of the block.  A
  relayer looks only at the committed status.

  Main results:
    * `step_statusOk` — until the commit the status agrees with the code.
    * `faithful_iff` — after it, exactly where every code is `1`.
    * `statuses_faithful` — **runs that never commit a failed transaction**.
-/
import TorSim.Relayer.FilterLaws
import TorSim.Blockchain.ChainRuns

namespace TorSim

open TorSim.Lib

variable {τ : Type}

/-! ## §1. Statuses before and after the commit. -/

/-- The status says what the code says. -/
structure Executed.Faithful (e : Executed τ) : Prop where
  success : e.tx.status = .success ↔ e.code = 1
  failed : e.tx.status = .failed ↔ e.code = 0

/-- What an execution leaves: one of the two codes, with its status. -/
def Executed.StatusOk (e : Executed τ) : Prop :=
  (e.code = 1 ∧ e.tx.status = .success) ∨ (e.code = 0 ∧ e.tx.status = .failed)

theorem Executed.StatusOk.faithful {e : Executed τ} (h : e.StatusOk) : e.Faithful := by
  rcases h with ⟨hcode, hstatus⟩ | ⟨hcode, hstatus⟩
  · exact ⟨by simp [hcode, hstatus], by simp [hcode, hstatus]⟩
  · exact ⟨by simp [hcode, hstatus], by simp [hcode, hstatus]⟩

namespace Chain

variable [Contracts] [Sha256]

/-- The status of every committed transaction says what its execution returned. -/
def Faithful (c : Chain τ) : Prop := ∀ r ∈ c.history, ∀ s ∈ r.slots, s.Faithful

/-- Whatever a relayer forwards of the committed transactions was executed with
code `1`. -/
def ForwardsSuccessful (c : Chain τ) : Prop :=
  ∀ (cfg : RelayerConfig) (time : PyFloat) (next : Int × Transaction),
    ∀ r ∈ c.history, ∀ s ∈ r.slots, RelayerUnix.forward cfg time s.tx = .ok (some next) → s.code = 1

/-- A commit takes place only with no failed transaction in the block. -/
def CommitsSuccessful (c : Chain τ) (a : Action τ) : Prop :=
  ∀ time, a = .commit time → ∀ e ∈ c.inProgress, e.tx.status ≠ .failed

/-- An execution leaves a status that says what its code says. -/
theorem executeNext_statusOk {p : Proposal τ} {tag : Option τ} {tx : Transaction}
    {rest : List (Option τ × Transaction)} {c : Chain τ} (hc : ∀ e ∈ p.done, e.StatusOk) :
    ∀ e ∈ (c.executeNext p tag tx rest).inProgress, e.StatusOk := by
  unfold executeNext
  rcases hx : Executor.executeTx ⟨some p.block⟩ p.height p.done.length tx c.store with
    ⟨e | resp, store⟩
  · exact hc
  · intro s hs
    rcases List.mem_append.mp hs with hs | hs
    · exact hc s hs
    · rw [List.mem_singleton.mp hs]
      rcases Executor.code_zero_or_one hx with hcode | hcode
      · exact Or.inr ⟨hcode, by simp [hcode]⟩
      · exact Or.inl ⟨hcode, by simp [hcode]⟩

/-- **Until the commit the status agrees with the code.** -/
theorem step_statusOk {cfg : Config} {c c' : Chain τ} {a : Action τ}
    (hc : ∀ e ∈ c.inProgress, e.StatusOk) (h : step cfg c a = some c') :
    ∀ e ∈ c'.inProgress, e.StatusOk := by
  cases step_cases h with
  | submit time tag tx =>
      have hphase : (c.submit time tag tx).phase = c.phase := by
        unfold submit
        split <;> rfl
      rw [inProgress, hphase]
      exact hc
  | setMining on => exact hc
  | setGenXtx on => exact hc
  | setRunning on => exact hc
  | propose hphase timestamp draws =>
      have hnil : (c.propose cfg timestamp draws).inProgress = [] := by
        unfold propose
        split
        · rfl
        · dsimp only
          split <;> rfl
      rw [hnil]
      exact fun e he => by cases he
  | @takeTx timestamp txs hphase time =>
      have hnil : (c.takeTx cfg time timestamp txs).inProgress = [] := by
        unfold takeTx
        split
        · rfl
        · dsimp only
          split <;> rfl
      rw [hnil]
      exact fun e he => by cases he
  | executeNext hphase hrest =>
      rw [inProgress, hphase] at hc
      exact executeNext_statusOk hc
  | commit hphase hrest time =>
      rw [inProgress, hphase] at hc
      rcases commit_cases hphase hrest time with hhalt | ⟨slots, hcommit⟩
      · rw [hhalt]
        exact hc
      · rw [inProgress, hcommit.idle]
        exact fun e he => by cases he

omit [Contracts] in
/-- **After the commit the statuses are right exactly where every code is `1`.** -/
theorem faithful_iff {base : List Block} {c : Chain τ} (hc : ChainInv base c) :
    Faithful c ↔ ∀ r ∈ c.history, ∀ s ∈ r.slots, s.code = 1 := by
  constructor
  · exact fun h r hr s hs => (h r hr s hs).success.mp ((hc.committed r hr).status s hs)
  · intro h r hr s hs
    have hok : s.StatusOk := Or.inl ⟨h r hr s hs, (hc.committed r hr).status s hs⟩
    exact hok.faithful

/-! ## §2. Runs. -/

/-- What a run of commits without failed transactions keeps. -/
structure StatusInv (c : Chain τ) : Prop where
  executed : ∀ e ∈ c.inProgress, e.StatusOk
  committed : ∀ r ∈ c.history, ∀ s ∈ r.slots, s.code = 1

theorem step_statusInv {cfg : Config} {c c' : Chain τ} {a : Action τ} (hc : StatusInv c)
    (hok : CommitsSuccessful c a) (h : step cfg c a = some c') : StatusInv c' := by
  refine ⟨step_statusOk hc.executed h, ?_⟩
  rcases step_history h with ⟨hh, _⟩ | ⟨time, p, slots, rfl, hcommit⟩
  · rw [hh]
    exact hc.committed
  · have hprog : c.inProgress = p.done := by simp only [inProgress, hcommit.phase]
    obtain ⟨_, htxs⟩ := hcommit.txs
    rw [hcommit.history]
    intro r hr s hs
    rcases List.mem_append.mp hr with hr | hr
    · exact hc.committed r hr s hs
    · rw [List.mem_singleton.mp hr] at hs
      obtain ⟨e, he, hto⟩ := forall₂_mem_right (commitTxs_eq_ok htxs) hs
      rw [hto.code]
      rcases hc.executed e (hprog ▸ he) with ⟨h1, _⟩ | ⟨_, hfailed⟩
      · exact h1
      · exact absurd hfailed (hok time rfl e (hprog ▸ he))

omit [Contracts] [Sha256] in
theorem Fresh.statusInv {c : Chain τ} (h : Fresh c) : StatusInv c := by
  obtain ⟨_, hprog⟩ := idle_queues h.phase
  constructor
  · rw [hprog]
    exact fun e he => nomatch he
  · rw [h.history]
    exact fun r hr => nomatch hr

/-- **Runs that never commit a failed transaction** have the right status on every
committed transaction, and relayers forward only successful ones; and in any run
the statuses are right exactly where every committed code is `1`. -/
theorem statuses_faithful (cfg : Config) (c0 c : Chain τ) (acts : List (Action τ))
    (h0 : Fresh c0) (hrun : runFrom (step cfg) c0 acts = some c) :
    (Along (step cfg) CommitsSuccessful c0 acts → Faithful c ∧ ForwardsSuccessful c)
      ∧ (Faithful c ↔ ∀ r ∈ c.history, ∀ s ∈ r.slots, s.code = 1) := by
  have hiff := faithful_iff (run_chainInv hrun h0.chainInv)
  refine ⟨fun halong => ?_, hiff⟩
  have hinv : StatusInv c := run_invariant_along
    (fun s a s' hs hok h => step_statusInv hs hok h) acts halong hrun h0.statusInv
  exact ⟨hiff.mpr hinv.committed, fun _ _ _ r hr s hs _ => hinv.committed r hr s hs⟩

/-! ## §3. Two runs with a commit. -/

omit [Contracts] [Sha256]

/-- A cross-chain transaction with the given call of the light client. -/
def crossTx (data : String) : Transaction where
  to_ := .str "lightclient"
  data := .str data
  memo := memoOf [("type", .str TranMemo.ctxSrc), ("dst", .int 1)]

/-- The transaction goes through the pool and is executed; the next one waits. -/
def executeActions (tx : Transaction) : List (Action Nat) := [
  .submit PyFloat.zero 7 tx, .propose PyFloat.zero (fun _ => (0, PyFloat.zero)),
  .takeTx PyFloat.zero, .takeTx PyFloat.zero, .executeNext]

/-- A relayer from chain `0` to chain `1`. -/
def sampleRelayer : RelayerConfig where
  src := { pid := 0, paratype := "Tendermint" }
  mode := .nor
  dsts := [{ pid := 1, paratype := "Ethereum" }]
  pids_nodup := by decide
  src_not_dst := by decide
  rlytp_iff := nor_rlytp
  pap_inter := nor_pap

/-- The relayer forwards the transaction. -/
def forwarded (tx : Transaction) : Bool :=
  match RelayerUnix.forward sampleRelayer PyFloat.zero tx with
  | .ok (some _) => true
  | _ => false

/-- The code of a transaction, and whether the relayer forwards it. -/
def codeAndForwarded (s : Executed Nat) : Int × Bool := (s.code, forwarded s.tx)

/-- What a commit at this point makes of the block, where it succeeds: the committed
transactions, seen through `f`. -/
def commitPreview {β : Type} (f : Executed Nat → β) (c : Chain Nat) : Option (List β) :=
  match c.phase with
  | .executing p =>
      match @commitTxs Nat Sha256.plain PyFloat.zero p with
      | .ok slots =>
          match @mapE _ _ (@Transaction.asJson Sha256.plain) (slots.map Executed.tx) with
          | .ok _ =>
              if p.rest.isEmpty && decide (p.height = c.blocks.blockNum + 1) then
                some (slots.map f)
              else none
          | .error _ => none
      | .error _ => none
  | _ => none

/-- A run whose end has a preview goes on with a successful commit. -/
theorem commit_of_preview {β : Type} (f : Executed Nat → β) (acts : List (Action Nat))
    (res : List β)
    (h : (runFrom (@step Nat Contracts.plain Sha256.plain {}) started acts).bind (commitPreview f)
      = some res) :
    ∃ (c1 c2 : Chain Nat) (p : Proposal Nat) (slots : List (Executed Nat)),
      runFrom (@step Nat Contracts.plain Sha256.plain {}) started acts = some c1
      ∧ runFrom (@step Nat Contracts.plain Sha256.plain {}) started (acts ++ [.commit PyFloat.zero])
        = some c2
      ∧ c2.history = c1.history ++ [⟨p.committed slots, slots⟩]
      ∧ slots.map f = res := by
  obtain ⟨c1, hrun, hprev⟩ := Option.bind_eq_some_iff.mp h
  unfold commitPreview at hprev
  split at hprev
  next p hphase =>
      split at hprev
      next slots htxs =>
          split at hprev
          next docs hdocs =>
              split at hprev
              next hok =>
                  obtain ⟨hrest, hheight⟩ := Bool.and_eq_true_iff.mp hok
                  have hcommit := @commit_succeeds Nat Sha256.plain c1 p PyFloat.zero slots docs
                    hphase (List.isEmpty_iff.mp hrest) (of_decide_eq_true hheight) htxs hdocs
                  refine ⟨c1, _, p, slots, hrun, runFrom_append acts _ hrun ?_,
                    @CommitStep.history Nat Sha256.plain _ _ _ _ hcommit, Option.some.inj hprev⟩
                  have hstep : @step Nat Contracts.plain Sha256.plain {} c1 (.commit PyFloat.zero)
                      = some (@commit Nat Sha256.plain PyFloat.zero p c1) := by
                    simp only [step, hphase, hrest, if_true]
                  rw [runFrom, hstep]
                  rfl
              next => cases hprev
          next => cases hprev
      next => cases hprev
  next => cases hprev

/-- A transaction submitted alone, and the block it is committed in. -/
theorem committed_alone {β : Type} (f : Executed Nat → β) (tx : Transaction) (res : β)
    (h : (runFrom (@step Nat Contracts.plain Sha256.plain {}) started (executeActions tx)).bind
      (commitPreview f) = some [res])
    (hlen : (runFrom (@step Nat Contracts.plain Sha256.plain {}) started (executeActions tx)).map
      (fun c => c.history.length) = some 0) :
    ∃ (c : Chain Nat) (r : Committed Nat) (s : Executed Nat),
      runFrom (@step Nat Contracts.plain Sha256.plain {}) started
          (executeActions tx ++ [.commit PyFloat.zero]) = some c
        ∧ c.history = [r] ∧ r.slots = [s] ∧ r.block.txs = [s.tx] ∧ f s = res := by
  obtain ⟨c1, c, p, slots, hrun1, hrun, hhist, hview⟩ := commit_of_preview f _ _ h
  obtain ⟨s, rfl, hs⟩ := List.map_eq_singleton_iff.mp hview
  rw [hrun1] at hlen
  have hnil : c1.history = [] := List.length_eq_zero_iff.mp (Option.some.inj hlen)
  rw [hnil] at hhist
  exact ⟨c, ⟨p.committed [s], [s]⟩, s, hrun, hhist, rfl, rfl, hs⟩

/-- A run that does not commit before its end meets the condition on commits, if
its last state has only successful executions. -/
theorem along_of_commit_last {c0 c1 : Chain Nat} {acts : List (Action Nat)} {time : PyFloat}
    (hno : ∀ a ∈ acts, ∀ t, a ≠ .commit t)
    (hrun : runFrom (@step Nat Contracts.plain Sha256.plain {}) c0 acts = some c1)
    (hlast : ∀ e ∈ c1.inProgress, e.tx.status ≠ .failed) :
    Along (@step Nat Contracts.plain Sha256.plain {}) CommitsSuccessful c0
      (acts ++ [.commit time]) := by
  induction acts generalizing c0 with
  | nil =>
      cases hrun
      exact ⟨fun _ _ => hlast, fun _ _ => trivial⟩
  | cons a acts ih =>
      obtain ⟨s', ha, hrun⟩ := runFrom_cons hrun
      refine ⟨fun t ht => absurd ht (hno a List.mem_cons_self t), fun s hs => ?_⟩
      cases ha.symm.trans hs
      exact ih (fun b hb => hno b (List.mem_cons_of_mem _ hb)) hrun

/-- A successful call of the light client, committed and forwarded. -/
theorem statuses_faithful_sample :
    ∃ c : Chain Nat, c.history.length = 1 ∧ Faithful c ∧ ForwardsSuccessful c := by
  let tx := crossTx (CtrLightClient.request .setParatype [.str "Tendermint"])
  obtain ⟨c1, c, p, slots, hrun1, hrun, hhist, _⟩ :=
    commit_of_preview codeAndForwarded (executeActions tx) [(1, true)] (by decide +kernel)
  have hall : (runFrom (@step Nat Contracts.plain Sha256.plain {}) started
      (executeActions tx)).map (fun c => (c.history.length, c.inProgress.all
        (fun e => decide (e.tx.status ≠ .failed)))) = some (0, true) := by decide +kernel
  rw [hrun1] at hall
  obtain ⟨hlen, hall⟩ := Prod.mk.inj (Option.some.inj hall)
  have hlast : ∀ e ∈ c1.inProgress, e.tx.status ≠ .failed := by
    intro e he
    exact of_decide_eq_true (List.all_eq_true.mp hall e he)
  have hno : ∀ a ∈ executeActions tx, ∀ t, a ≠ .commit t := by
    intro a ha t
    simp only [executeActions, List.mem_cons, List.not_mem_nil, or_false] at ha
    rcases ha with rfl | rfl | rfl | rfl | rfl <;> exact fun h => nomatch h
  refine ⟨c, ?_, (@statuses_faithful Nat Contracts.plain Sha256.plain {} started c _
    started_fresh hrun).1 (along_of_commit_last hno hrun1 hlast)⟩
  rw [hhist, List.length_append, hlen]
  rfl

/-- **A failed call is committed with status SUCCESS, and forwarded.** -/
theorem failed_committed_success :
    ∃ c : Chain Nat, runFrom (@step Nat Contracts.plain Sha256.plain {}) started
        (executeActions (crossTx "") ++ [.commit PyFloat.zero]) = some c
      ∧ ¬ Faithful c ∧ ¬ ForwardsSuccessful c := by
  obtain ⟨c1, c, p, slots, _, hrun, hhist, hres⟩ :=
    commit_of_preview codeAndForwarded (executeActions (crossTx "")) [(0, true)] (by decide +kernel)
  obtain ⟨s, rfl, hs⟩ := List.map_eq_singleton_iff.mp hres
  obtain ⟨hcode, hforward⟩ := Prod.mk.inj hs
  have hr : (⟨p.committed [s], [s]⟩ : Committed Nat) ∈ c.history := by
    rw [hhist]
    exact List.mem_append_right _ List.mem_cons_self
  have hinv := @run_chainInv Nat Contracts.plain Sha256.plain {} _ started c _ hrun
    (@Fresh.chainInv Nat Sha256.plain started started_fresh)
  refine ⟨c, hrun, fun hf => ?_, fun hf => ?_⟩
  · have h1 := (@faithful_iff Nat Sha256.plain _ c hinv).mp hf _ hr s List.mem_cons_self
    rw [hcode] at h1
    cases h1
  · unfold forwarded at hforward
    split at hforward
    next next hnext =>
        have h1 := hf sampleRelayer PyFloat.zero next _ hr s List.mem_cons_self hnext
        rw [hcode] at h1
        cases h1
    next => cases hforward

end Chain

end TorSim
