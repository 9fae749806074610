/-
  TorSim.Network.Shortcuts — runs that can be evaluated.

  A commit prints its block and parses what it printed, and a round of `listen_block`
  fetches the block that way.  On a batch that can be committed nothing of that shows,
  so a step may leave it out; the other steps stay as they are.

  Main results:
    * `Chain.quickCommit_sound` — a commit without the printing.
    * `RelayerUnix.quickListen_sound` — a round on the committed block itself.
    * `Net.quickRun_sound` — **the runs of the quicker steps are runs**.
-/
import TorSim.Blockchain.Commit
import TorSim.Relayer.ListenLaws
import TorSim.Network.NetLaws

namespace TorSim

open TorSim.Lib

variable {τ κ : Type} [Sha256]

/-! ## §1. The commit. -/

/-- `commit` where every transaction is ready. -/
def Chain.quickCommit (time : PyFloat) (c : Chain τ) : Option (Chain τ) :=
  match c.phase with
  | .executing p =>
      if p.rest.isEmpty && p.done.all
          (fun e => decide (Stamped e.tx.memo ∧ Node.CommitReady p.height e.tx)) then
        match Chain.commitTxs time p with
        | .ok slots => some { c with
            blocks := ⟨c.blocks.blocks ++ [p.committed slots]⟩
            phase := .idle
            history := c.history ++ [⟨p.committed slots, slots⟩] }
        | .error _ => none
      else none
  | _ => none

theorem Chain.quickCommit_sound [Contracts] {cfg : Config} {c c' : Chain τ} {time : PyFloat}
    (hproposed : Chain.Proposed c) (h : c.quickCommit time = some c') :
    Chain.step cfg c (.commit time) = some c' := by
  unfold quickCommit at h
  split at h
  next p hphase =>
      split at h
      next hready =>
          obtain ⟨hrest, hall⟩ := (Bool.and_eq_true _ _).mp hready
          have hdone : ∀ e ∈ p.done, Stamped e.tx.memo ∧ Node.CommitReady p.height e.tx :=
            fun e he => of_decide_eq_true (List.all_eq_true.mp hall e he)
          have hheight := hproposed p hphase
          have hpos : 0 ≤ p.height := by
            rw [hheight, BlockStorage.blockNum]
            omega
          obtain ⟨slots, docs, htxs, hdocs⟩ := Node.commitTxs_of_ready
            (fun e he => (hdone e he).1) hpos (fun e he => (hdone e he).2) time
          rw [htxs] at h
          simp only [Chain.step, hphase, if_pos hrest, Chain.commit_eq hheight htxs hdocs]
          exact h
      next => cases h
  next => cases h

/-! ## §2. The listener. -/

/-- A round of `listen_block` on a committed block that passes. -/
def RelayerUnix.quickListen (cfg : RelayerConfig) (time : Nat → PyFloat) (tag : Nat → κ)
    (nextbn : Int) (rl : Relayer κ) (c : Chain τ) : Option (Relayer κ) :=
  if nextbn ≤ 0 then none
  else match c.history[nextbn.toNat - 1]? with
    | some r => match r.block.header with
      | .ok header => match filterBlock cfg time tag r.block header rl.dsts with
        | (.ok _, dsts) => some { rl with listen := .listening (nextbn + 1), dsts := dsts }
        | (.error _, _) => none
      | .error _ => none
    | none => none

theorem RelayerUnix.quickListen_sound {cfg : RelayerConfig} {time : Nat → PyFloat} {tag : Nat → κ}
    {nextbn : Int} {rl rl' : Relayer κ} {c : Chain τ} {b : Block} (hinv : Chain.ChainInv [b] c)
    (h : quickListen cfg time tag nextbn rl c = some rl') :
    listen cfg .delivered time tag nextbn rl c = (rl', c) := by
  unfold quickListen at h
  split at h
  next => cases h
  next hpos =>
      split at h
      next r hr =>
          obtain ⟨header, hheader, hfetch⟩ := fetch_committed hinv hr
          have hnext : ((nextbn.toNat - 1 + 1 : Nat) : Int) = nextbn := by omega
          rw [hnext] at hfetch
          rw [hheader] at h
          dsimp only at h
          unfold listen
          rw [hfetch]
          dsimp only
          generalize filterBlock cfg time tag r.block header rl.dsts = res at h ⊢
          rcases res with ⟨e | m, dsts⟩
          · cases h
          · cases h
            rfl
      next => cases h

/-! ## §3. The network. -/

namespace Net

variable {ι : Type} [DecidableEq ι] [Contracts]

/-- A step, by a shortcut where there is one. -/
def quickStep (dep : Deployment ι) (n : Net ι) : Action ι → Option (Net ι)
  | .chain pid (.commit time) => ((n.chains pid).quickCommit time).map (fun c => n.setChain pid c)
  | .listen r .delivered time =>
      match (n.relayers r).listen with
      | .listening k =>
          let src := (dep.relayer r).src.pid
          (RelayerUnix.quickListen (dep.relayer r) time (slotRoot src (n.chains src) k) k
            (n.relayers r) (n.chains src)).map (fun rl => n.setRelayer r rl)
      | _ => none
  | a => step dep n a

variable {dep : Deployment ι} {n n' : Net ι} {a : Action ι}

theorem quickStep_sound (hn : NetOk dep n) (h : quickStep dep n a = some n') :
    step dep n a = some n' := by
  unfold quickStep at h
  split at h
  next pid time =>
      obtain ⟨c, hc, rfl⟩ := Option.map_eq_some_iff.mp h
      show (Chain.step _ _ _).map _ = _
      rw [Chain.quickCommit_sound (hn.chains pid).proposed hc]
      rfl
  next r time =>
      split at h
      next k hlisten =>
          obtain ⟨rl, hrl, rfl⟩ := Option.map_eq_some_iff.mp h
          obtain ⟨_, hinv⟩ := (hn.chains (dep.relayer r).src.pid).inv
          simp only [step, hlisten, RelayerUnix.quickListen_sound hinv hrl]
          unfold setChain
          rw [setRelayer_chains, RelayerUnix.setChain_same]
          rfl
      next => cases h
  next => exact h

/-- **The runs of the quicker steps are runs.** -/
theorem quickRun_sound {n0 : Net ι} {acts : List (Action ι)} (h0 : Started n0)
    (h : runFrom (quickStep dep) n0 acts = some n) : runFrom (step dep) n0 acts = some n :=
  run_of_quick (fun _ _ _ hn hq => quickStep_sound hn hq) (fun _ _ _ hn hs => step_netOk hn hs) acts
    (h0.netOk dep) h

end Net

end TorSim
