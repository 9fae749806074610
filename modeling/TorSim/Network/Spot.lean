/-
  TorSim.Network.Spot — a step as seen from one relayer and one destination.

  Every fact about forwarding is about one relayer, one of its destinations and
  the chain there.  `Spot` is this part of the network, and `SpotStep` says what
  any step of any party does to it.

  Main results:
    * `step_spot` — **what a step does to a spot**.
    * `chain_rule` — what a chain's own steps and queries keep, every step keeps.
-/
import TorSim.Network.Net

namespace TorSim

open TorSim.Lib

variable {ι : Type} [DecidableEq ι]

/-- Where the relayer listens, its tools for the destination, and the chain there. -/
structure Spot (ι : Type) where
  listen : Listen
  startbn : Int
  tools : DstTool Root
  chain : Chain (Origin ι)

namespace Net

def spot (n : Net ι) (r : ι) (pid : Int) : Spot ι where
  listen := (n.relayers r).listen
  startbn := (n.relayers r).startbn
  tools := n.dst r pid
  chain := n.chains pid

/-- The step is one of relayer `r`'s listening task, or of its tasks for `pid`. -/
def Action.Of (r : ι) (pid : Int) : Action ι → Prop
  | .chain _ _ => False
  | .start r' _ => r' = r
  | .listen r' _ _ => r' = r
  | .stopListen r' => r' = r
  | .stopHeader r' p => r' = r ∧ p = pid
  | .stopXtx r' p => r' = r ∧ p = pid
  | .dealHeader r' p _ _ _ => r' = r ∧ p = pid
  | .takeXtx r' p _ _ => r' = r ∧ p = pid
  | .advance r' p _ _ _ => r' = r ∧ p = pid

variable [Contracts] [Sha256]

/-- What a round of filtering leaves of the loop. -/
def listenAfter (k : Int) : Except Exn Nat → Listen
  | .ok _ => .listening (k + 1)
  | .error e => RelayerUnix.afterError k e

/-- What a step does to a spot: one constructor for everybody else, and one for
each task of the relayer. -/
inductive SpotStep (dep : Deployment ι) (n : Net ι) (a : Action ι) (r : ι) (pid : Int) :
    Spot ι → Prop where
  | elsewhere {c : Chain (Origin ι)} (hnot : ¬ a.Of r pid) (heff : ChainEffect dep n a pid c) :
      SpotStep dep n a r pid { n.spot r pid with chain := c }
  | started {l : Listen} {s : Int} (hcreated : (n.relayers r).listen = .created)
      (hstart : (l = .stopped ∧ s = (n.relayers r).startbn)
        ∨ (l = .listening (n.chains (dep.relayer r).src.pid).blocks.blockNum
          ∧ s = (n.chains (dep.relayer r).src.pid).blocks.blockNum)) :
      SpotStep dep n a r pid { n.spot r pid with listen := l, startbn := s }
  | retry {k : Int} (e : Exn) (hlisten : (n.relayers r).listen = .listening k) :
      SpotStep dep n a r pid { n.spot r pid with listen := RelayerUnix.afterError k e }
  | block {k : Int} {time : Nat → PyFloat} {block : Block} {header : Json} {res : Except Exn Nat}
      {ds : Int → DstTool Root} (hlisten : (n.relayers r).listen = .listening k)
      (hfetch : RelayerUnix.Fetched (n.chains (dep.relayer r).src.pid) k block header)
      (hfilter : RelayerUnix.filterBlock (dep.relayer r) time
        (slotRoot (dep.relayer r).src.pid (n.chains (dep.relayer r).src.pid) k) block header
        (n.relayers r).dsts = (res, ds)) :
      SpotStep dep n a r pid { n.spot r pid with listen := listenAfter k res, tools := ds pid }
  | stopListen : SpotStep dep n a r pid { n.spot r pid with listen := .stopped }
  | stopHeader : SpotStep dep n a r pid { n.spot r pid with
      tools := { n.dst r pid with queueHeader := (n.dst r pid).queueHeader ++ [none] } }
  | stopXtx : SpotStep dep n a r pid { n.spot r pid with
      tools := { n.dst r pid with queueXtx := (n.dst r pid).queueXtx ++ [none] } }
  | dealHeader {link : Link} {time put : PyFloat} {dst : Connector} {d : DstTool Root}
      {c : Chain (Origin ι)} (haction : a = .dealHeader r pid link time put)
      (hdst : (dep.relayer r).dst pid = some dst)
      (halive : (n.dst r pid).headerAlive = true)
      (hround : RelayerUnix.HeaderCase (dep.relayer r) dst time put
        (fun header => .header r (headerHeight header)) (n.dst r pid) (n.chains pid) d c) :
      SpotStep dep n a r pid { n.spot r pid with tools := d, chain := c }
  | takeXtx {dst : Connector} {d : DstTool Root} (hdst : (dep.relayer r).dst pid = some dst)
      (halive : (n.dst r pid).xtxTask.alive = true) (hnone : (n.dst r pid).xtxTask.dealing = none)
      (hround : RelayerUnix.TakeCase (dep.relayer r) dst (n.dst r pid) d) :
      SpotStep dep n a r pid { n.spot r pid with tools := d }
  | advance {link : Link} {time put : PyFloat} {dst : Connector} {hand : Dealing Root}
      {t : XtxTask Root} {cs : Int → Chain (Origin ι)}
      (haction : a = .advance r pid link time put)
      (hdst : (dep.relayer r).dst pid = some dst) (halive : (n.dst r pid).xtxTask.alive = true)
      (hdeal : (n.dst r pid).xtxTask.dealing = some hand)
      (hround : RelayerUnix.AdvanceCase (dep.relayer r) dst time put (xtxTags r)
        (n.dst r pid).xtxTask hand n.chains t cs) :
      SpotStep dep n a r pid { n.spot r pid with
        tools := { n.dst r pid with xtxTask := t }
        chain := cs pid }

/-- **What a step does to a spot.** -/
theorem step_spot {dep : Deployment ι} {n n' : Net ι} {a : Action ι}
    (h : step dep n a = some n') (r : ι) (pid : Int) :
    SpotStep dep n a r pid (n'.spot r pid) := by
  have heff := step_chain h pid
  -- a step of somebody else leaves the relayer and its tools alone
  have helse : ¬ a.Of r pid → (n'.relayers r).listen = (n.relayers r).listen →
      (n'.relayers r).startbn = (n.relayers r).startbn → n'.dst r pid = n.dst r pid →
      SpotStep dep n a r pid (n'.spot r pid) := by
    intro hnot hl hs hd
    have hspot : n'.spot r pid = { n.spot r pid with chain := n'.chains pid } := by
      unfold spot
      rw [hl, hs, hd]
    rw [hspot]
    exact .elsewhere hnot heff
  have hown : ∀ (r' : ι) (p : Int) (d : DstTool Root),
      (n.setDst r' p d).spot r' p = { n.spot r' p with tools := d } := by
    intro r' p d
    simp [spot]
  have htask : ∀ (r' : ι) (p : Int) (d : DstTool Root), ¬ (r' = r ∧ p = pid) →
      (n.setDst r' p d).dst r pid = n.dst r pid := by
    intro r' p d hnot
    refine setDst_other ?_ d n
    by_contra hne
    obtain ⟨h1, h2⟩ := not_or.mp hne
    exact hnot ⟨(not_not.mp h1).symm, (not_not.mp h2).symm⟩
  cases step_cases h with
  | chain hclient hstep => exact helse (fun hof => hof) rfl rfl rfl
  | @start r' link rl hcreated hstart =>
      by_cases hr : r' = r
      · subst hr
        have hspot : (n.setRelayer r' rl).spot r' pid = { n.spot r' pid with
            listen := rl.listen, startbn := rl.startbn } := by
          rcases hstart with rfl | rfl <;> simp [spot, dst]
        rw [hspot]
        refine .started hcreated ?_
        rcases hstart with rfl | rfl
        · exact Or.inl ⟨rfl, rfl⟩
        · exact Or.inr ⟨rfl, rfl⟩
      · have hsame := setRelayer_ne (Ne.symm hr) rl n
        exact helse hr (by rw [hsame]) (by rw [hsame]) (by rw [dst, hsame, dst])
  | @listen r' link time k rl hlisten hround =>
      by_cases hr : r' = r
      · subst hr
        cases hround with
        | retry e =>
            have hspot : (n.setRelayer r' { n.relayers r' with
                listen := RelayerUnix.afterError k e }).spot r' pid
              = { n.spot r' pid with listen := RelayerUnix.afterError k e } := by
              simp [spot, dst]
            rw [hspot]
            exact .retry e hlisten
        | @fetched block header m ds hfetch hfilter =>
            have hspot : (n.setRelayer r' { n.relayers r' with
                listen := .listening (k + 1), dsts := ds }).spot r' pid
              = { n.spot r' pid with listen := listenAfter k (.ok m), tools := ds pid } := by
              simp [spot, dst, listenAfter]
            rw [hspot]
            exact .block hlisten hfetch hfilter
        | @raised block header e ds hfetch hfilter =>
            have hspot : (n.setRelayer r' { n.relayers r' with
                listen := RelayerUnix.afterError k e, dsts := ds }).spot r' pid
              = { n.spot r' pid with listen := listenAfter k (.error e), tools := ds pid } := by
              simp [spot, dst, listenAfter]
            rw [hspot]
            exact .block hlisten hfetch hfilter
      · have hsame := setRelayer_ne (Ne.symm hr) rl n
        exact helse hr (by rw [hsame]) (by rw [hsame]) (by rw [dst, hsame, dst])
  | stopListen r' =>
      by_cases hr : r' = r
      · subst hr
        have hspot : (n.setRelayer r' { n.relayers r' with listen := .stopped }).spot r' pid
            = { n.spot r' pid with listen := .stopped } := by
          simp [spot, dst]
        rw [hspot]
        exact .stopListen
      · have hsame := setRelayer_ne (Ne.symm hr) { n.relayers r' with listen := .stopped } n
        exact helse hr (by rw [hsame]) (by rw [hsame]) (by rw [dst, hsame, dst])
  | stopHeader r' p =>
      by_cases hof : r' = r ∧ p = pid
      · obtain ⟨rfl, rfl⟩ := hof
        rw [hown]
        exact .stopHeader
      · exact helse hof (setDst_listen _ _ _ _ _).1 (setDst_listen _ _ _ _ _).2 (htask _ _ _ hof)
  | stopXtx r' p =>
      by_cases hof : r' = r ∧ p = pid
      · obtain ⟨rfl, rfl⟩ := hof
        rw [hown]
        exact .stopXtx
      · exact helse hof (setDst_listen _ _ _ _ _).1 (setDst_listen _ _ _ _ _).2 (htask _ _ _ hof)
  | @dealHeader r' p link time put dst d c hdst halive hround =>
      by_cases hof : r' = r ∧ p = pid
      · obtain ⟨rfl, rfl⟩ := hof
        have hspot : ((n.setDst r' p d).setChain p c).spot r' p
            = { n.spot r' p with tools := d, chain := c } := by
          simp [spot]
        rw [hspot]
        exact .dealHeader rfl hdst halive hround
      · exact helse hof (setDst_listen _ _ _ _ _).1 (setDst_listen _ _ _ _ _).2 (htask _ _ _ hof)
  | @takeXtx r' p link time dst d hdst halive hnone hround =>
      by_cases hof : r' = r ∧ p = pid
      · obtain ⟨rfl, rfl⟩ := hof
        rw [hown]
        exact .takeXtx hdst halive hnone hround
      · exact helse hof (setDst_listen _ _ _ _ _).1 (setDst_listen _ _ _ _ _).2 (htask _ _ _ hof)
  | @advance r' p link time put dst hand t cs hdst halive hdeal hround =>
      by_cases hof : r' = r ∧ p = pid
      · obtain ⟨rfl, rfl⟩ := hof
        have hspot : ({ n.setDst r' p { n.dst r' p with xtxTask := t } with
              chains := cs } : Net ι).spot r' p
            = { n.spot r' p with
              tools := { n.dst r' p with xtxTask := t }, chain := cs p } := by
          have htools := setDst_self r' p { n.dst r' p with xtxTask := t } n
          obtain ⟨hl, hs⟩ := setDst_listen r' p { n.dst r' p with xtxTask := t } n r'
          unfold spot
          dsimp only
          rw [hl, hs]
          unfold Net.dst at htools ⊢
          rw [htools]
        rw [hspot]
        exact .advance rfl hdst halive hdeal hround
      · exact helse hof (setDst_listen _ _ _ _ _).1 (setDst_listen _ _ _ _ _).2 (htask _ _ _ hof)

/-- **What a chain's own steps and queries keep, every step keeps.** -/
theorem chain_rule {dep : Deployment ι} {n : Net ι} {a : Action ι} {p : Int}
    {c' : Chain (Origin ι)} {P : Chain (Origin ι) → Prop}
    (hstep : ∀ b c, Chain.step (dep.chainCfg p) (n.chains p) b = some c → P c)
    (hquery : ∀ c, Connector.Queried (n.chains p) c → P c) (h : ChainEffect dep n a p c') :
    P c' := by
  cases h with
  | own _ _ hs => exact hstep _ _ hs
  | queried hq => exact hquery _ hq
  | @relayed put tag tx _ => exact hstep (.submit put tag (Connector.arrived tx)) _ rfl

end Net

end TorSim
