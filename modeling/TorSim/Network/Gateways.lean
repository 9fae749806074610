/-
  TorSim.Network.Gateways — the two headers of a cross-chain transaction in ToR mode.

  Three kinds of gateways: from every parachain to the relay chain and from there to
  every parachain they pass headers on, from parachain to parachain transactions.  A
  transaction between parachains is verified under two headers at its destination: that
  of the relay chain's block with the source header in it, and the source header itself.

  Main results:
    * `HostsMap.no_header` — no gateway takes a parachain's header to a parachain.
    * `header_check_iff` — **which verifications find their header**.
-/
import Mathlib.Data.List.Nodup
import TorSim.Network.Layers
import TorSim.Network.Shortcuts

namespace TorSim

open TorSim.Lib

/-! ## §1. The deployment. -/

/-- The chains of `hostsmap`, each with its type. -/
structure HostsMap where
  para : List Int
  paratype : Int → String
  nodup : para.Nodup
  relay_apart : interPid ∉ para

/-- The gateways of a parachain, and the gateway of the relay chain. -/
inductive Gateway (para : List Int) where
  /-- from a parachain to the relay chain -/
  | par (p : {p // p ∈ para})
  | inter
  /-- from a parachain to the other parachains -/
  | pap (p : {p // p ∈ para})
  deriving DecidableEq

namespace HostsMap

/-- A connector of gateway `owner` to chain `p`. -/
def connector (hosts : HostsMap) (owner p : Int) (role : String) (isinter : Bool) : Connector where
  pid := p
  paratype := hosts.paratype p
  sender := "proc/" ++ toString owner ++ "/" ++ toString p ++ "/" ++ role
  isinter := isinter

/-- The connectors towards the other `ends`, each of its own chain. -/
theorem connectors_nodup (hosts : HostsMap) (ownerchainid : Int) (ends : List (Int × Bool))
    (hnodup : (ends.map Prod.fst).Nodup) :
    (((ends.filter (fun e => e.1 ≠ ownerchainid)).map
      (fun e => hosts.connector ownerchainid e.1 "dst" e.2)).map Connector.pid).Nodup := by
  rw [List.map_map]
  exact hnodup.sublist (List.filter_sublist.map _)

theorem connectors_apart (hosts : HostsMap) (ownerchainid : Int) (ends : List (Int × Bool))
    (isinter : Bool) : ∀ d ∈ (ends.filter (fun e => e.1 ≠ ownerchainid)).map
      (fun e => hosts.connector ownerchainid e.1 "dst" e.2),
      d.pid ≠ (hosts.connector ownerchainid ownerchainid "src" isinter).pid := by
  intro d hd
  obtain ⟨e, he, rfl⟩ := List.mem_map.mp hd
  exact of_decide_eq_true (List.mem_filter.mp he).2

/-- The relay chain as the only end. -/
theorem interEnd_nodup : ([(interPid, true)].map Prod.fst).Nodup := List.nodup_singleton _

/-- `create_relayers`: the relayer of a gateway towards the other `ends`. -/
def createRelayers (hosts : HostsMap) (ownerchainid : Int) (isinter : Bool)
    (ends : List (Int × Bool)) (hnodup : (ends.map Prod.fst).Nodup) : RelayerConfig :=
  let others := ends.filter (fun e => e.1 ≠ ownerchainid)
  let ispap := !isinter && others.all (fun e => !e.2)
  { src := hosts.connector ownerchainid ownerchainid "src" isinter
    mode := .tor
    rlytp := some (if ispap then .pap else .par)
    inter := if ispap then some (hosts.connector interPid interPid "dst" true) else none
    dsts := others.map (fun e => hosts.connector ownerchainid e.1 "dst" e.2)
    pids_nodup := hosts.connectors_nodup ownerchainid ends hnodup
    src_not_dst := hosts.connectors_apart ownerchainid ends isinter
    rlytp_iff := ⟨fun _ => rfl, fun _ => rfl⟩
    pap_inter := by
      intro h
      split at h
      next hpap => rw [if_pos hpap]; rfl
      next => cases h }

def paraEnds (hosts : HostsMap) : List (Int × Bool) := hosts.para.map (fun p => (p, false))

theorem paraEnds_nodup (hosts : HostsMap) : (hosts.paraEnds.map Prod.fst).Nodup := by
  rw [paraEnds, List.map_map]
  exact (List.map_id hosts.para).symm ▸ hosts.nodup

/-- `build_and_start_relayers` of `locals_unix/tor.py`. -/
def relayer (hosts : HostsMap) : Gateway hosts.para → RelayerConfig
  | .par p => hosts.createRelayers p false [(interPid, true)] interEnd_nodup
  | .inter => hosts.createRelayers interPid true hosts.paraEnds hosts.paraEnds_nodup
  | .pap p => hosts.createRelayers p false hosts.paraEnds hosts.paraEnds_nodup

/-- The gateways, over chains of any configuration. -/
def deployment (hosts : HostsMap) (chainCfg : Int → Config) : Deployment (Gateway hosts.para) where
  chainCfg := chainCfg
  relayer := hosts.relayer
  lightclient := by
    have hall : ∀ owner isinter ends hnodup,
        ∀ d, d ∈ (hosts.createRelayers owner isinter ends hnodup).dsts
          ∨ (hosts.createRelayers owner isinter ends hnodup).inter = some d →
          d.to_ = "lightclient" := by
      intro owner isinter ends hnodup d hd
      rcases hd with hd | hd
      · obtain ⟨e, _, rfl⟩ := List.mem_map.mp hd
        rfl
      · dsimp only [createRelayers] at hd
        split at hd
        next => cases hd; rfl
        next => cases hd
    intro r
    cases r with
    | par p => exact hall p false [(interPid, true)] interEnd_nodup
    | inter => exact hall interPid true _ hosts.paraEnds_nodup
    | pap p => exact hall p false _ hosts.paraEnds_nodup

variable (hosts : HostsMap)

theorem relayer_mode (r : Gateway hosts.para) : (hosts.relayer r).mode = .tor := by
  cases r with
  | par => rfl
  | inter => rfl
  | pap => rfl

/-- The other parachains. -/
theorem others_all (p : Int) :
    (hosts.paraEnds.filter (fun e => e.1 ≠ p)).all (fun e => !e.2) = true := by
  rw [List.all_eq_true]
  intro e he
  obtain ⟨q, _, rfl⟩ := List.mem_map.mp (List.mem_filter.mp he).1
  rfl

theorem pap_rlytp (p : {p // p ∈ hosts.para}) : (hosts.relayer (.pap p)).rlytp = some .pap := by
  dsimp only [relayer, createRelayers]
  rw [others_all]
  rfl

theorem pap_inter (p : {p // p ∈ hosts.para}) :
    (hosts.relayer (.pap p)).inter = some (hosts.connector interPid interPid "dst" true) := by
  dsimp only [relayer, createRelayers]
  rw [others_all]
  rfl

/-- A gateway that asks a relay chain asks the only one. -/
theorem relayer_inter {r : Gateway hosts.para} {inter : Connector}
    (h : (hosts.relayer r).inter = some inter) : inter.pid = interPid := by
  have hall : ∀ owner isinter ends hnodup,
      (hosts.createRelayers owner isinter ends hnodup).inter = some inter → inter.pid = interPid := by
    intro owner isinter ends hnodup hinter
    dsimp only [createRelayers] at hinter
    split at hinter
    next =>
        cases hinter
        rfl
    next => cases hinter
  cases r with
  | par p => exact hall p false [(interPid, true)] interEnd_nodup h
  | inter => exact hall interPid true _ hosts.paraEnds_nodup h
  | pap p => exact hall p false _ hosts.paraEnds_nodup h

/-- The gateways between parachains count the relay chain's headers. -/
theorem pap_counts (p : {p // p ∈ hosts.para}) :
    RelayerUnix.countedPid (hosts.relayer (.pap p)) = interPid := by
  unfold RelayerUnix.countedPid
  rw [relayer_mode, pap_inter]
  rfl

/-- **The gateways between parachains forward no header.** -/
theorem pap_targets (p : {p // p ∈ hosts.para}) :
    RelayerUnix.headerTargets (hosts.relayer (.pap p)) = [] := by
  unfold RelayerUnix.headerTargets RelayerUnix.headerDsts RelayerConfig.isPar
  rw [relayer_mode, pap_rlytp]
  rfl

theorem ne_inter (p : {p // p ∈ hosts.para}) : p.1 ≠ interPid :=
  fun h => hosts.relay_apart (h ▸ p.2)

theorem par_rlytp (p : {p // p ∈ hosts.para}) : (hosts.relayer (.par p)).rlytp = some .par := by
  have hends : [((interPid, true) : Int × Bool)].filter (fun e => e.1 ≠ p.1) = [(interPid, true)] :=
    List.filter_cons_of_pos (decide_eq_true (hosts.ne_inter p).symm)
  dsimp only [relayer, createRelayers]
  rw [hends]
  rfl

/-- The headers of a parachain go to the relay chain. -/
theorem par_targets (p : {p // p ∈ hosts.para}) {q : Int}
    (h : q ∈ RelayerUnix.headerTargets (hosts.relayer (.par p))) : q = interPid := by
  unfold RelayerUnix.headerTargets RelayerUnix.headerDsts RelayerConfig.isPar at h
  rw [relayer_mode, par_rlytp] at h
  exact List.mem_singleton.mp (List.mem_filter.mp h).1

/-- Only its own gateways listen to a chain. -/
theorem src_eq_inter {r : Gateway hosts.para} (h : (hosts.relayer r).src.pid = interPid) :
    r = .inter := by
  cases r with
  | par p => exact absurd h (hosts.ne_inter p)
  | inter => rfl
  | pap p => exact absurd h (hosts.ne_inter p)

/-- **No gateway forwards a parachain's header to a parachain.** -/
theorem no_header {r : Gateway hosts.para} {p q : Int} (hp : p ∈ hosts.para)
    (hq : q ∈ hosts.para) (hsrc : (hosts.relayer r).src.pid = p) :
    q ∉ RelayerUnix.headerTargets (hosts.relayer r) := by
  intro htarget
  cases r with
  | par p' => exact hosts.relay_apart (hosts.par_targets p' htarget ▸ hq)
  | inter =>
      have hsame : interPid = p := hsrc
      exact hosts.relay_apart (hsame ▸ hp)
  | pap p' =>
      rw [pap_targets] at htarget
      cases htarget

/-- Only the gateway of the relay chain forwards its headers. -/
theorem inter_onlyWriter (chainCfg : Int → Config) (q : Int) :
    Net.OnlyWriter (hosts.deployment chainCfg) .inter q := by
  intro r hne hsrc
  exact absurd (hosts.src_eq_inter hsrc) hne

end HostsMap

/-! ## §2. The header check. -/

namespace Net

open CtrLightClient

variable [Contracts] [Sha256] {hosts : HostsMap} {chainCfg : Int → Config}

/-- What the relay chain's gateway forwards is what the gateway of a parachain counts. -/
theorem run_gateways {n0 n : Net (Gateway hosts.para)} {acts : List (Action (Gateway hosts.para))}
    {p : {p // p ∈ hosts.para}} {q : Int} (h0 : Started n0)
    (hinst : ∀ c, c = interPid ∨ c = q → Executor.Installed (n0.chains c).store)
    (hnone : ∀ c, c = interPid ∨ c = q → ∀ s k : Int, 0 ≤ k →
      (n0.chains c).store.get (headerKey (.int s) (.int k)) = none)
    (halone : Along (step (hosts.deployment chainCfg))
      (ClientsApart (hosts.deployment chainCfg) (.pap p) .inter q) n0 acts)
    (hrun : runFrom (step (hosts.deployment chainCfg)) n0 acts = some n) :
    LayersInv (hosts.deployment chainCfg) (.pap p) .inter q n := by
  have hasked : ∀ c, (c = q ∨ ∃ inter, (hosts.relayer (.pap p)).inter = some inter ∧ c = inter.pid) →
      c = interPid ∨ c = q := by
    rintro c (rfl | ⟨inter, hinter, rfl⟩)
    · exact Or.inr rfl
    · rw [hosts.pap_inter] at hinter
      cases hinter
      exact Or.inl rfl
  refine run_layersInv (hosts.pap_counts p) (hosts.inter_onlyWriter chainCfg q) halone hrun ?_
  exact h0.layersInv (fun c hc => hinst c (hasked c hc)) (fun c hc => hnone c (hasked c hc))

/-- What the gateway of parachain `p` has sent to parachain `q`, as it is executed there. -/
def ChecksHeaders (hosts : HostsMap) (chainCfg : Int → Config) (p : {p // p ∈ hosts.para}) (q : Int)
    (n : Net (Gateway hosts.para)) : Prop :=
  ∀ pr tag tx rest, (n.chains q).phase = .executing pr → pr.rest = (some tag, tx) :: rest →
    ∀ s h, MadeUnder (hosts.deployment chainCfg) (.pap p) tag s h →
      ∃ t state resp, tx.data = .str (CtrLightClient.request .validateState
          [.int s, .str t, .int h, .str state])
        ∧ (Executor.executeTx ⟨some pr.block⟩ pr.height pr.done.length tx (n.chains q).store).1
            = .ok resp
        ∧ (resp ≠ Response.new 0 (.str (noHeader (.int s) (.int h)))
          ↔ tag = .layer1 (.pap p) h ∧ (n.relayers .inter).startbn ≤ h)

/-- **Which verifications find their header.**  The light clients start without
headers, and clients write none.  Parachain `q` then has no header of parachain `p`,
and of the relay chain those from the first block on that its gateway took.  So what
the gateway of `p` has sent does not fail for want of its header exactly when it is of
the first layer and made under such a block. -/
theorem header_check_iff {n0 n : Net (Gateway hosts.para)}
    {acts : List (Action (Gateway hosts.para))} {p : {p // p ∈ hosts.para}} {q : Int}
    (hq : q ∈ hosts.para) (h0 : Started n0)
    (hinst : ∀ c, c = interPid ∨ c = q → Executor.Installed (n0.chains c).store)
    (hnone : ∀ c, c = interPid ∨ c = q → ∀ s k : Int, 0 ≤ k →
      (n0.chains c).store.get (headerKey (.int s) (.int k)) = none)
    (halone : Along (step (hosts.deployment chainCfg))
      (ClientsApart (hosts.deployment chainCfg) (.pap p) .inter q) n0 acts)
    (hrun : runFrom (step (hosts.deployment chainCfg)) n0 acts = some n) :
    (∀ h, 1 ≤ h → ¬ HasHeader p h (n.chains q))
      ∧ (∃ m : Int, queryHeaderMaxn (n.chains q).store (.int interPid) = .ok (.str (toString m))
        ∧ ∀ h, 1 ≤ h → (HasHeader interPid h (n.chains q)
          ↔ (n.relayers .inter).startbn ≤ h ∧ h ≤ m))
      ∧ ChecksHeaders hosts chainCfg p q n := by
  have hi := run_gateways h0 hinst hnone halone hrun
  have hno : ∀ r', (hosts.relayer r').src.pid = p → q ∉ RelayerUnix.headerTargets (hosts.relayer r') :=
    fun r' hsrc => hosts.no_header p.2 hq hsrc
  have hrelay := headers_between hi.counted hi.climbing
  have hsrc : ((hosts.deployment chainCfg).relayer .inter).src.pid = interPid := rfl
  rw [hsrc] at hrelay
  refine ⟨fun h hpos => ?_, hrelay, ?_⟩
  · exact not_hasHeader hi.source (no_synced hi.net hno) hpos
  intro pr tag tx rest hphase hrest s h hunder
  refine hi.check_iff (hosts.pap_counts p) ?_ hno hphase hrest hunder
  intro inter hinter
  have hconn : (hosts.relayer (.pap p)).inter = some inter := hinter
  rw [hosts.pap_inter] at hconn
  cases hconn
  rfl

/-! ## §3. A run. -/

section Sample

omit [Contracts] [Sha256]

/-- Two parachains. -/
def twoHosts : HostsMap where
  para := [0, 1]
  paratype _ := "Ethereum"
  nodup := by decide
  relay_apart := by decide

def twoDeployment : Deployment (Gateway twoHosts.para) := twoHosts.deployment (fun _ => {})

/-- Every chain has its genesis block and its contracts. -/
def twoNet : Net (Gateway twoHosts.para) where
  chains := fun _ => { store := typedStore, blocks := ⟨[Chain.genesisBlock PyFloat.zero]⟩ }
  relayers := fun _ => {}

/-- The relay chain commits an empty block, and parachain `1` executes its header. -/
def relayActions : List (Action (Gateway twoHosts.para)) := [
  .chain interPid (.propose PyFloat.zero (fun _ => (0, PyFloat.zero))),
  .chain interPid (.takeTx PyFloat.zero), .chain interPid (.commit PyFloat.zero),
  .start .inter .delivered, .listen .inter .delivered (fun _ => PyFloat.zero),
  .dealHeader .inter 1 .delivered PyFloat.zero PyFloat.zero,
  .chain 1 (.propose PyFloat.zero (fun _ => (0, PyFloat.zero))), .chain 1 (.takeTx PyFloat.zero),
  .chain 1 (.takeTx PyFloat.zero), .chain 1 .executeNext]

theorem twoNet_started : Started twoNet where
  fresh _ := ⟨rfl, rfl, ⟨PyFloat.zero, rfl⟩, rfl, fun h => absurd h (lt_irrefl _)⟩
  clients _ _ he := by cases he
  relayers _ := rfl

theorem relayActions_run :
    ∃ n, runFrom (@step _ _ Contracts.plain Sha256.plain twoDeployment) twoNet relayActions = some n
      ∧ (n.relayers .inter).startbn = 1
      ∧ queryHeaderMaxn (n.chains 1).store (.int interPid) = .ok (.str "1") := by
  have hview : (runFrom (@quickStep Sha256.plain _ _ Contracts.plain twoDeployment) twoNet
      relayActions).map (fun n => ((n.relayers .inter).startbn,
        (n.chains 1).store.get (headerKey (.int interPid) (.int 0)))) = some (1, some "1") := by
    decide +kernel
  obtain ⟨n, hn, hsee⟩ := Option.map_eq_some_iff.mp hview
  obtain ⟨hstart, hcounter⟩ := Prod.mk.inj hsee
  refine ⟨n, @quickRun_sound Sha256.plain _ _ Contracts.plain twoDeployment n twoNet relayActions
    twoNet_started hn, hstart, ?_⟩
  rw [queryHeaderMaxn, hcounter]
  rfl

/-- Clients submit nothing. -/
theorem relayActions_apart (p : {p // p ∈ twoHosts.para}) :
    Along (@step _ _ Contracts.plain Sha256.plain twoDeployment)
      (@ClientsApart _ Contracts.plain Sha256.plain twoDeployment (.pap p) .inter 1) twoNet
      relayActions := by
  have hnone : ∀ c d, Along (@step _ _ Contracts.plain Sha256.plain twoDeployment)
      (@OthersLeaveAlone _ Contracts.plain Sha256.plain c d) twoNet relayActions := by
    intro c d
    refine @along_noClients _ Contracts.plain Sha256.plain _ twoDeployment c d relayActions ?_ twoNet
      (@Started.netOk _ Sha256.plain twoNet twoNet_started twoDeployment) (fun e he => by cases he)
    intro a ha time tag tx
    simp only [relayActions, List.mem_cons, List.not_mem_nil, or_false] at ha
    rcases ha with rfl | rfl | rfl | rfl | rfl | rfl | rfl | rfl | rfl | rfl <;>
      (intro h; cases h)
  refine along_mono (fun n a h => @ClientsApart.mk _ Contracts.plain Sha256.plain _ _ _ _ _ _
    h.1 h.2.1 (fun inter hinter => ?_)) relayActions
    (along_and relayActions (hnone p 1) (along_and relayActions (hnone interPid 1)
      (hnone p interPid)))
  have hconn := twoHosts.pap_inter p
  cases hconn.symm.trans hinter
  exact h.2.2

/-- Parachain `1` has the header of the relay chain's block, and none of parachain `0`. -/
theorem header_check_sample :
    ∃ n, runFrom (@step _ _ Contracts.plain Sha256.plain twoDeployment) twoNet relayActions = some n
      ∧ HasHeader interPid 1 (n.chains 1)
      ∧ ¬ HasHeader 0 1 (n.chains 1) := by
  obtain ⟨n, hrun, hstart, hcounter⟩ := relayActions_run
  obtain ⟨hsource, ⟨m, hquery, hrelay⟩, _⟩ := @header_check_iff Contracts.plain Sha256.plain
    twoHosts (fun _ => {}) twoNet n relayActions ⟨0, by decide⟩ 1 (by decide) twoNet_started
    (fun c _ => typedStore_installed) (fun c _ s k _ => typedStore_noHeader _ _)
    (relayActions_apart _) hrun
  have hm : (1 : Int) = m := by
    have htext := Json.str.inj (Except.ok.inj (hcounter.symm.trans hquery))
    have hread := congrArg intOfStr htext
    rw [intOfStr_toString] at hread
    exact Except.ok.inj hread
  exact ⟨n, hrun, (hrelay 1 (le_refl _)).mpr ⟨le_of_eq hstart, le_of_eq hm⟩,
    hsource 1 (le_refl _)⟩

end Sample

end Net

end TorSim
