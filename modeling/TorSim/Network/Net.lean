/-
  TorSim.Network.Net — chains and relayers running side by side.

  Any chain, any client and any task of any relayer may take the next step.  A
  step of a relayer touches one chain at most: the one it listens to, asks or
  sends to.

  Submissions carry their origin, cross-chain transactions also the place where
  they first were committed.  No code reads either.

  Main definitions:
    * `Deployment`, `Net` — the parties and their states.
    * `step` — one step of one party.

  Main results:
    * `step_cases` — inversion of a step.
    * `step_chain` — **what a step does to one chain**: a step of its own, a query,
      or a submission by a relayer.
-/
import TorSim.Relayer.TaskLaws
import TorSim.Blockchain.ChainRuns

namespace TorSim

open TorSim.Lib

/-! ## §1. Origins. -/

/-- Where a cross-chain transaction was first committed. -/
structure Root where
  chain : Int
  height : Int
  idx : Nat
  deriving Repr, DecidableEq

/-- Who submitted a transaction: a client, or a relayer with the height of the
header, of the relay chain's header, or of the cross-chain transaction it is about. -/
inductive Origin (ι : Type) where
  | client
  | header (r : ι) (height : Int)
  | layer1 (r : ι) (height : Int)
  | xtx (r : ι) (height : Int) (root : Root)
  deriving DecidableEq

variable {ι : Type}

/-- A transaction relayed once before keeps its root. -/
def rootOf (pid height : Int) (idx : Nat) (tag : Option (Origin ι)) : Root :=
  match tag with
  | some (.xtx _ _ root) => root
  | _ => ⟨pid, height, idx⟩

/-- The root of the transaction at `idx` of the block at `height`. -/
def slotRoot (pid : Int) (c : Chain (Origin ι)) (height : Int) (idx : Nat) : Root :=
  rootOf pid height idx
    ((c.history[height.toNat - 1]?).bind (fun r => (r.slots[idx]?).bind Executed.tag))

/-- The height a header tells. -/
def headerHeight (header : Json) : Int :=
  match header.getItem "height" with
  | .ok (.int h) => h
  | _ => 0

/-! ## §2. Parties and states. -/

/-- The configurations of all chains and relayers; relayers ask light clients only. -/
structure Deployment (ι : Type) where
  chainCfg : Int → Config
  relayer : ι → RelayerConfig
  lightclient : ∀ r d, d ∈ (relayer r).dsts ∨ (relayer r).inter = some d → d.to_ = "lightclient"

structure Net (ι : Type) where
  chains : Int → Chain (Origin ι)
  relayers : ι → Relayer Root

namespace Net

variable [DecidableEq ι]

def setChain (pid : Int) (c : Chain (Origin ι)) (n : Net ι) : Net ι :=
  { n with chains := RelayerUnix.setChain pid c n.chains }

def setRelayer (r : ι) (rl : Relayer Root) (n : Net ι) : Net ι :=
  { n with relayers := Function.update n.relayers r rl }

/-- The tools of relayer `r` for destination `pid`. -/
def dst (n : Net ι) (r : ι) (pid : Int) : DstTool Root := (n.relayers r).dsts pid

def setDst (r : ι) (pid : Int) (d : DstTool Root) (n : Net ι) : Net ι :=
  n.setRelayer r
    { n.relayers r with dsts := Function.update (n.relayers r).dsts pid d }

/-! ## §3. One step. -/

inductive Action (ι : Type) where
  | chain (pid : Int) (a : Chain.Action (Origin ι))
  | start (r : ι) (link : Link)
  | listen (r : ι) (link : Link) (time : Nat → PyFloat)
  | stopListen (r : ι)
  | stopHeader (r : ι) (pid : Int)
  | stopXtx (r : ι) (pid : Int)
  | dealHeader (r : ι) (pid : Int) (link : Link) (time put : PyFloat)
  | takeXtx (r : ι) (pid : Int) (link : Link) (time : PyFloat)
  | advance (r : ι) (pid : Int) (link : Link) (time put : PyFloat)

/-- The chain's own steps, and submissions by clients. -/
def fromClient : Chain.Action (Origin ι) → Bool
  | .submit _ tag _ => decide (tag = .client)
  | _ => true

def xtxTags (r : ι) : RelayerUnix.XtxTags Root (Origin ι) where
  layer1 height := .layer1 r height
  xtx height root := .xtx r height root

variable [Contracts] [Sha256]

def step (dep : Deployment ι) (n : Net ι) : Action ι → Option (Net ι)
  | .chain pid a =>
      if fromClient a then
        (Chain.step (dep.chainCfg pid) (n.chains pid) a).map (fun c => n.setChain pid c)
      else none
  | .start r link =>
      match (n.relayers r).listen with
      | .created =>
          let src := (dep.relayer r).src.pid
          let s := RelayerUnix.start link (n.relayers r) (n.chains src)
          some ((n.setRelayer r s.1).setChain src s.2)
      | _ => none
  | .listen r link time =>
      match (n.relayers r).listen with
      | .listening k =>
          let src := (dep.relayer r).src.pid
          let s := RelayerUnix.listen (dep.relayer r) link time (slotRoot src (n.chains src) k) k
            (n.relayers r) (n.chains src)
          some ((n.setRelayer r s.1).setChain src s.2)
      | _ => none
  | .stopListen r => some (n.setRelayer r { n.relayers r with listen := .stopped })
  | .stopHeader r pid =>
      some (n.setDst r pid
        { n.dst r pid with queueHeader := (n.dst r pid).queueHeader ++ [none] })
  | .stopXtx r pid =>
      some (n.setDst r pid { n.dst r pid with queueXtx := (n.dst r pid).queueXtx ++ [none] })
  | .dealHeader r pid link time put =>
      match (dep.relayer r).dst pid with
      | some dst =>
          (RelayerUnix.dealHeader (dep.relayer r) dst link time put
            (fun header => .header r (headerHeight header)) (n.dst r pid) (n.chains pid)).map
            (fun s => (n.setDst r pid s.1).setChain pid s.2)
      | none => none
  | .takeXtx r pid link time =>
      match (dep.relayer r).dst pid with
      | some dst =>
          let src := (dep.relayer r).src.pid
          (RelayerUnix.takeXtx (dep.relayer r) dst link time (n.dst r pid) (n.chains src)).map
            (fun s => (n.setDst r pid s.1).setChain src s.2)
      | none => none
  | .advance r pid link time put =>
      match (dep.relayer r).dst pid with
      | some dst =>
          (RelayerUnix.advance (dep.relayer r) dst link time put (xtxTags r) (n.dst r pid)
            n.chains).map (fun s => { n.setDst r pid s.1 with chains := s.2 })
      | none => none

/-! ## §4. Inversion. -/

section Views

omit [Contracts] [Sha256]

omit [DecidableEq ι] in
@[simp] theorem setChain_chains (pid : Int) (c : Chain (Origin ι)) (n : Net ι) :
    (n.setChain pid c).chains = RelayerUnix.setChain pid c n.chains := rfl

omit [DecidableEq ι] in
@[simp] theorem setChain_relayers (pid : Int) (c : Chain (Origin ι)) (n : Net ι) :
    (n.setChain pid c).relayers = n.relayers := rfl

omit [DecidableEq ι] in
@[simp] theorem setChain_dst (pid : Int) (c : Chain (Origin ι)) (n : Net ι) :
    (n.setChain pid c).dst = n.dst := rfl

@[simp] theorem setRelayer_chains (r : ι) (rl : Relayer Root) (n : Net ι) :
    (n.setRelayer r rl).chains = n.chains := rfl

@[simp] theorem setRelayer_self (r : ι) (rl : Relayer Root) (n : Net ι) :
    (n.setRelayer r rl).relayers r = rl := by
  simp [setRelayer]

theorem setRelayer_ne {r r' : ι} (h : r' ≠ r) (rl : Relayer Root) (n : Net ι) :
    (n.setRelayer r rl).relayers r' = n.relayers r' := by
  simp [setRelayer, h]

@[simp] theorem setDst_chains (r : ι) (pid : Int) (d : DstTool Root) (n : Net ι) :
    (n.setDst r pid d).chains = n.chains := rfl

@[simp] theorem setDst_self (r : ι) (pid : Int) (d : DstTool Root) (n : Net ι) :
    (n.setDst r pid d).dst r pid = d := by
  simp [setDst, dst]

/-- The tools of any other destination stay as they are. -/
theorem setDst_other {r r' : ι} {pid pid' : Int} (h : r' ≠ r ∨ pid' ≠ pid) (d : DstTool Root)
    (n : Net ι) : (n.setDst r pid d).dst r' pid' = n.dst r' pid' := by
  by_cases hr : r' = r
  · subst hr
    have hpid : pid' ≠ pid := h.resolve_left (fun hne => hne rfl)
    simp [setDst, dst, hpid]
  · simp [setDst, dst, setRelayer_ne hr]

/-- Where a relayer listens is no matter of its destinations. -/
@[simp] theorem setDst_listen (r : ι) (pid : Int) (d : DstTool Root) (n : Net ι) (r' : ι) :
    ((n.setDst r pid d).relayers r').listen = (n.relayers r').listen
      ∧ ((n.setDst r pid d).relayers r').startbn = (n.relayers r').startbn := by
  by_cases hr : r' = r
  · subst hr
    simp [setDst]
  · simp [setDst, setRelayer_ne hr]

end Views

/-- The steps, each with what enables it and what it does. -/
inductive StepCase (dep : Deployment ι) (n : Net ι) : Action ι → Net ι → Prop where
  | chain {pid : Int} {a : Chain.Action (Origin ι)} {c : Chain (Origin ι)}
      (hclient : fromClient a = true)
      (hstep : Chain.step (dep.chainCfg pid) (n.chains pid) a = some c) :
      StepCase dep n (.chain pid a) (n.setChain pid c)
  | start {r : ι} {link : Link} {rl : Relayer Root} (hcreated : (n.relayers r).listen = .created)
      (hstart : rl = { n.relayers r with listen := .stopped }
        ∨ rl = { n.relayers r with
          listen := .listening (n.chains (dep.relayer r).src.pid).blocks.blockNum
          startbn := (n.chains (dep.relayer r).src.pid).blocks.blockNum }) :
      StepCase dep n (.start r link) (n.setRelayer r rl)
  | listen {r : ι} {link : Link} {time : Nat → PyFloat} {k : Int} {rl : Relayer Root}
      (hlisten : (n.relayers r).listen = .listening k)
      (hround : RelayerUnix.ListenCase (dep.relayer r) time
        (slotRoot (dep.relayer r).src.pid (n.chains (dep.relayer r).src.pid) k) k (n.relayers r)
        (n.chains (dep.relayer r).src.pid) rl) :
      StepCase dep n (.listen r link time) (n.setRelayer r rl)
  | stopListen (r : ι) :
      StepCase dep n (.stopListen r) (n.setRelayer r { n.relayers r with listen := .stopped })
  | stopHeader (r : ι) (pid : Int) :
      StepCase dep n (.stopHeader r pid) (n.setDst r pid
        { n.dst r pid with queueHeader := (n.dst r pid).queueHeader ++ [none] })
  | stopXtx (r : ι) (pid : Int) :
      StepCase dep n (.stopXtx r pid) (n.setDst r pid
        { n.dst r pid with queueXtx := (n.dst r pid).queueXtx ++ [none] })
  | dealHeader {r : ι} {pid : Int} {link : Link} {time put : PyFloat} {dst : Connector}
      {d : DstTool Root} {c : Chain (Origin ι)} (hdst : (dep.relayer r).dst pid = some dst)
      (halive : (n.dst r pid).headerAlive = true)
      (hround : RelayerUnix.HeaderCase (dep.relayer r) dst time put
        (fun header => .header r (headerHeight header)) (n.dst r pid) (n.chains pid) d c) :
      StepCase dep n (.dealHeader r pid link time put) ((n.setDst r pid d).setChain pid c)
  | takeXtx {r : ι} {pid : Int} {link : Link} {time : PyFloat} {dst : Connector}
      {d : DstTool Root} (hdst : (dep.relayer r).dst pid = some dst)
      (halive : (n.dst r pid).xtxTask.alive = true) (hnone : (n.dst r pid).xtxTask.dealing = none)
      (hround : RelayerUnix.TakeCase (dep.relayer r) dst (n.dst r pid) d) :
      StepCase dep n (.takeXtx r pid link time) (n.setDst r pid d)
  | advance {r : ι} {pid : Int} {link : Link} {time put : PyFloat} {dst : Connector}
      {hand : Dealing Root} {t : XtxTask Root} {cs : Int → Chain (Origin ι)}
      (hdst : (dep.relayer r).dst pid = some dst) (halive : (n.dst r pid).xtxTask.alive = true)
      (hdeal : (n.dst r pid).xtxTask.dealing = some hand)
      (hround : RelayerUnix.AdvanceCase (dep.relayer r) dst time put (xtxTags r)
        (n.dst r pid).xtxTask hand n.chains t cs) :
      StepCase dep n (.advance r pid link time put)
        { n.setDst r pid { n.dst r pid with xtxTask := t } with chains := cs }

omit [DecidableEq ι] [Contracts] [Sha256] in
/-- The connector found for a destination belongs to it. -/
theorem dst_eq_some {cfg : RelayerConfig} {pid : Int} {dst : Connector}
    (h : cfg.dst pid = some dst) : dst ∈ cfg.dsts ∧ dst.pid = pid := by
  unfold RelayerConfig.dst at h
  exact ⟨List.mem_of_find?_eq_some h, by simpa using List.find?_some h⟩

omit [DecidableEq ι] [Contracts] [Sha256] in
theorem asksLightClients (dep : Deployment ι) {r : ι} {pid : Int} {dst : Connector}
    (h : (dep.relayer r).dst pid = some dst) :
    RelayerUnix.AsksLightClients (dep.relayer r) dst :=
  ⟨fun inter hinter => dep.lightclient r inter (Or.inr hinter),
    dep.lightclient r dst (Or.inl (dst_eq_some h).1)⟩

/-- **Inversion of a step.** -/
theorem step_cases {dep : Deployment ι} {n n' : Net ι} {a : Action ι}
    (h : step dep n a = some n') : StepCase dep n a n' := by
  have hsame : ∀ (m : Net ι) (pid : Int), m.chains = n.chains →
      m.setChain pid (n.chains pid) = m := by
    intro m pid hm
    unfold setChain
    rw [← hm, RelayerUnix.setChain_same]
  cases a with
  | chain pid a =>
      rw [step] at h
      split at h
      next hclient =>
          obtain ⟨c, hc, rfl⟩ := Option.map_eq_some_iff.mp h
          exact .chain hclient hc
      next => cases h
  | start r link =>
      rw [step] at h
      split at h
      next hcreated =>
          rcases hs : RelayerUnix.start link (n.relayers r) (n.chains (dep.relayer r).src.pid)
            with ⟨rl, c⟩
          obtain ⟨rfl, hstart⟩ := RelayerUnix.start_cases hs
          simp only [hs, hsame _ _ (setRelayer_chains r rl n), Option.some.injEq] at h
          subst h
          exact .start hcreated hstart
      next => cases h
  | listen r link time =>
      rw [step] at h
      split at h
      next k hlisten =>
          rcases hs : RelayerUnix.listen (dep.relayer r) link time
            (slotRoot (dep.relayer r).src.pid (n.chains (dep.relayer r).src.pid) k) k
            (n.relayers r) (n.chains (dep.relayer r).src.pid) with ⟨rl, c⟩
          obtain ⟨rfl, hround⟩ := RelayerUnix.listen_cases hs
          simp only [hs, hsame _ _ (setRelayer_chains r rl n), Option.some.injEq] at h
          subst h
          exact .listen hlisten hround
      next => cases h
  | stopListen r =>
      cases h
      exact .stopListen r
  | stopHeader r pid =>
      cases h
      exact .stopHeader r pid
  | stopXtx r pid =>
      cases h
      exact .stopXtx r pid
  | dealHeader r pid link time put =>
      rw [step] at h
      split at h
      next dst hdst =>
          obtain ⟨⟨d, c⟩, hs, rfl⟩ := Option.map_eq_some_iff.mp h
          obtain ⟨halive, hround⟩ := RelayerUnix.dealHeader_cases hs
          exact .dealHeader hdst halive hround
      next => cases h
  | takeXtx r pid link time =>
      rw [step] at h
      split at h
      next dst hdst =>
          obtain ⟨⟨d, c⟩, hs, rfl⟩ := Option.map_eq_some_iff.mp h
          obtain ⟨rfl, halive, hnone, hround⟩ := RelayerUnix.takeXtx_cases hs
          rw [hsame _ _ (setDst_chains r pid d n)]
          exact .takeXtx hdst halive hnone hround
      next => cases h
  | advance r pid link time put =>
      rw [step] at h
      split at h
      next dst hdst =>
          obtain ⟨⟨d, cs⟩, hs, rfl⟩ := Option.map_eq_some_iff.mp h
          obtain ⟨halive, hand, t, hdeal, rfl, hround⟩ :=
            RelayerUnix.advance_cases (asksLightClients dep hdst) hs
          exact .advance hdst halive hdeal hround
      next => cases h

/-! ## §5. What a step does to one chain. -/

/-- The submissions of relayers, by the step that makes them. -/
inductive Sends (dep : Deployment ι) (n : Net ι) (pid : Int) :
    Action ι → Origin ι → Transaction → Prop where
  | header {r : ι} {dst : Connector} {link : Link} {time put : PyFloat} {header : Json}
      {rest : List (Option Json)} {tx : Transaction} (hdst : (dep.relayer r).dst pid = some dst)
      (hqueue : (n.dst r pid).queueHeader = some header :: rest)
      (htx : RelayerUnix.headerTx (dep.relayer r) dst time header = .ok tx) :
      Sends dep n pid (.dealHeader r pid link time put) (.header r (headerHeight header)) tx
  | layer1 {r : ι} {dst inter : Connector} {link : Link} {time put : PyFloat}
      {hand : Dealing Root} {k : Int} (hdst : (dep.relayer r).dst pid = some dst)
      (hdeal : (n.dst r pid).xtxTask.dealing = some hand) (hwait : hand.wait = .layer1 k)
      (hinter : (dep.relayer r).inter = some inter) :
      Sends dep n pid (.advance r pid link time put) (.layer1 r k)
        (RelayerUnix.layer1Tx inter dst time k hand.state)
  | xtx {r : ι} {dst : Connector} {link : Link} {time put : PyFloat} {hand : Dealing Root}
      {tx : Transaction} (hdst : (dep.relayer r).dst pid = some dst)
      (hdeal : (n.dst r pid).xtxTask.dealing = some hand) (hwait : hand.wait = .ready)
      (hmark : RelayerUnix.markTx "send" time hand.tx = .ok tx) :
      Sends dep n pid (.advance r pid link time put) (.xtx r hand.xtx.height hand.tag) tx

/-- What a step can do to one chain. -/
inductive ChainEffect (dep : Deployment ι) (n : Net ι) (a : Action ι) (pid : Int) :
    Chain (Origin ι) → Prop where
  | own {b : Chain.Action (Origin ι)} {c : Chain (Origin ι)} (haction : a = .chain pid b)
      (hclient : fromClient b = true)
      (hstep : Chain.step (dep.chainCfg pid) (n.chains pid) b = some c) :
      ChainEffect dep n a pid c
  | queried {c : Chain (Origin ι)} (hquery : Connector.Queried (n.chains pid) c) :
      ChainEffect dep n a pid c
  | relayed {put : PyFloat} {tag : Origin ι} {tx : Transaction} (hsend : Sends dep n pid a tag tx) :
      ChainEffect dep n a pid ((n.chains pid).submit put tag (Connector.arrived tx))

theorem ChainEffect.same (dep : Deployment ι) (n : Net ι) (a : Action ι) (pid : Int) :
    ChainEffect dep n a pid (n.chains pid) := .queried (Connector.Queried.refl _)

theorem ChainEffect.set {dep : Deployment ι} {n : Net ι} {a : Action ι} {pid : Int}
    {c : Chain (Origin ι)} (h : ChainEffect dep n a pid c) (p : Int) :
    ChainEffect dep n a p (RelayerUnix.setChain pid c n.chains p) := by
  by_cases hp : p = pid
  · subst hp
    rw [RelayerUnix.setChain_self]
    exact h
  · rw [RelayerUnix.setChain_ne hp]
    exact .same dep n a p

/-- **What a step does to one chain.** -/
theorem step_chain {dep : Deployment ι} {n n' : Net ι} {a : Action ι}
    (h : step dep n a = some n') (p : Int) : ChainEffect dep n a p (n'.chains p) := by
  cases step_cases h with
  | chain hclient hstep => exact ChainEffect.set (.own rfl hclient hstep) p
  | start => exact .same dep n _ p
  | listen => exact .same dep n _ p
  | stopListen => exact .same dep n _ p
  | stopHeader => exact .same dep n _ p
  | stopXtx => exact .same dep n _ p
  | takeXtx => exact .same dep n _ p
  | @dealHeader r pid link time put dst d c hdst halive hround =>
      rw [setChain_chains, setDst_chains]
      cases hround with
      | stop => exact ChainEffect.set (.same dep n _ pid) p
      | sent hqueue htx hput => exact ChainEffect.set (.relayed (.header hdst hqueue htx)) p
      | failed hqueue hchain =>
          rcases hchain with rfl | ⟨tx, htx, rfl⟩
          · exact ChainEffect.set (.same dep n _ pid) p
          · exact ChainEffect.set (.relayed (.header hdst hqueue htx)) p
  | @advance r pid link time put dst hand t cs hdst halive hdeal hround =>
      obtain ⟨hmem, hpid⟩ := dst_eq_some hdst
      have hlight := dep.lightclient r
      show ChainEffect dep n _ p (cs p)
      cases hround with
      | interQuery hwait hinter hlt hquery =>
          exact ChainEffect.set (.queried (Connector.queryMaxXbn_queried
            (hlight _ (Or.inr hinter)) hquery)) p
      | csQuery hwait hinter hquery =>
          exact ChainEffect.set (.queried (Connector.queryHeaderCsHeight_queried
            (hlight _ (Or.inr hinter)) hquery)) p
      | dstQuery hwait hlt hquery =>
          exact ChainEffect.set (.queried (Connector.queryMaxXbn_queried
            (hlight _ (Or.inl hmem)) hquery)) p
      | layer1Sent hwait hinter hput =>
          rw [hpid]
          exact ChainEffect.set (.relayed (.layer1 hdst hdeal hwait hinter)) p
      | deadLayer1 hwait hinter =>
          rw [hpid]
          exact ChainEffect.set (.relayed (.layer1 hdst hdeal hwait hinter)) p
      | sent hwait hmark hput =>
          rw [hpid]
          exact ChainEffect.set (.relayed (.xtx hdst hdeal hwait hmark)) p
      | deadSent hwait hmark =>
          rw [hpid]
          exact ChainEffect.set (.relayed (.xtx hdst hdeal hwait hmark)) p
      | deadQuery hquery => exact ChainEffect.set (.queried hquery) p
      | interDone => exact .same dep n _ p
      | csCached => exact .same dep n _ p
      | dstDone => exact .same dep n _ p
      | layer1Skip => exact .same dep n _ p
      | dead => exact .same dep n _ p

end Net

end TorSim
