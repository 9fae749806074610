/-
  TorSim.Network.Deployments — the relayers that the scripts start.

  In NoR mode every chain has a relayer to all other chains.  In AoR mode every parachain
  has one to the relay chain, and the relay chain has one to every parachain.  In ToR mode
  there are the gateways.  Each satisfies what the results about its mode ask of a
  deployment, whatever the number and the types of the chains.

  Main results:
    * `norDeployment_wired`, `norDeployment_direct` — NoR mode.
    * `HostsMap.aorDeployment_wired`, `HostsMap.aorDeployment_relay` — AoR mode.
    * `HostsMap.deployment_direct` — ToR mode.
-/
import TorSim.Network.Arrivals
import TorSim.Network.Gateways

namespace TorSim

open TorSim.Lib

/-! ## §1. NoR mode. -/

/-- The ids of `lh` chains. -/
def norPids (lh : Nat) : List Int := (List.range lh).map Int.ofNat

theorem norPids_nodup (lh : Nat) : (norPids lh).Nodup :=
  List.Nodup.map (fun _ _ h => Int.ofNat.inj h) List.nodup_range

theorem mem_norPids {lh : Nat} {p : Int} : p ∈ norPids lh ↔ 0 ≤ p ∧ p < lh := by
  unfold norPids
  rw [List.mem_map]
  constructor
  · rintro ⟨i, hi, rfl⟩
    have hlt : i < lh := List.mem_range.mp hi
    exact ⟨Int.natCast_nonneg i, by simpa using hlt⟩
  · intro ⟨hpos, hlt⟩
    exact ⟨p.toNat, List.mem_range.mpr (by omega), Int.toNat_of_nonneg hpos⟩

/-- A connector of the relayer of chain `owner` to chain `p`. -/
def norConnector (paratype : Int → String) (owner p : Int) (role : String) : Connector where
  pid := p
  paratype := paratype p
  sender := "proc/" ++ toString owner ++ "/" ++ toString p ++ "/" ++ role

/-- `create_relayers` of `locals_unix/nor.py`. -/
def norRelayer (paratype : Int → String) (lh : Nat) (paraid : Fin lh) : RelayerConfig where
  src := norConnector paratype paraid.val paraid.val "src"
  mode := .nor
  dsts := ((norPids lh).filter (fun i => i ≠ (paraid.val : Int))).map
    (fun i => norConnector paratype paraid.val i "dst")
  pids_nodup := by
    rw [List.map_map]
    have hsub := (norPids_nodup lh).sublist
      (List.filter_sublist (p := fun i => decide (i ≠ (paraid.val : Int))))
    exact (List.map_id _).symm ▸ hsub
  src_not_dst := by
    intro d hd
    obtain ⟨i, hi, rfl⟩ := List.mem_map.mp hd
    exact of_decide_eq_true (List.mem_filter.mp hi).2
  rlytp_iff := nor_rlytp
  pap_inter := nor_pap

/-- `build_and_start_relayers` of `locals_unix/nor.py`. -/
def norDeployment (paratype : Int → String) (lh : Nat) (chainCfg : Int → Config) :
    Deployment (Fin lh) where
  chainCfg := chainCfg
  relayer := norRelayer paratype lh
  lightclient := by
    intro r d hd
    rcases hd with hd | hd
    · obtain ⟨i, _, rfl⟩ := List.mem_map.mp hd
      rfl
    · cases hd

section NoR

variable {paratype : Int → String} {lh : Nat} {chainCfg : Int → Config}

theorem norRelayer_apart {r r' : Fin lh} (h : (norRelayer paratype lh r).src.pid
    = (norRelayer paratype lh r').src.pid) : r = r' :=
  Fin.ext (Int.ofNat.inj h)

/-- **Every chain of the script has one relayer.**  The id of the relay chain is none of
theirs. -/
theorem norDeployment_wired (hlh : lh ≤ 30000) (hgen : ∀ p, ∀ d ∈ (chainCfg p).xtxConfig.dstids,
    p ∈ norPids lh ∧ d ∈ norPids lh ∧ d ≠ p) :
    Net.Wired (norDeployment paratype lh chainCfg) .nor (norPids lh) where
  direct := by decide
  mode_eq _ := rfl
  apart _ _ h := norRelayer_apart h
  source r := by
    refine Or.inl (mem_norPids.mpr ⟨Int.natCast_nonneg _, ?_⟩)
    exact Int.ofNat_lt.mpr r.isLt
  listened p hp := by
    obtain ⟨hpos, hlt⟩ := mem_norPids.mp hp
    exact ⟨⟨p.toNat, by omega⟩, Int.toNat_of_nonneg hpos⟩
  relay h := by cases h
  relay_apart h := by
    have hlt := (mem_norPids.mp h).2
    unfold interPid at hlt
    omega
  pids h := absurd (mem_norPids.mp h).1 (by decide)
  generates := hgen

theorem norDeployment_direct : Net.Direct (norDeployment paratype lh chainCfg) where
  mode _ := (show Mode.nor ≠ Mode.aor by decide)
  apart _ _ _ _ h := norRelayer_apart h

end NoR

/-! ## §2. AoR mode. -/

namespace HostsMap

/-- `create_relayers` of `locals_unix/aor.py`. -/
def aorCreateRelayers (hosts : HostsMap) (ownerchainid : Int) (isinter : Bool)
    (ends : List (Int × Bool)) (hnodup : (ends.map Prod.fst).Nodup) : RelayerConfig where
  src := hosts.connector ownerchainid ownerchainid "src" isinter
  mode := .aor
  dsts := (ends.filter (fun e => e.1 ≠ ownerchainid)).map
    (fun e => hosts.connector ownerchainid e.1 "dst" e.2)
  pids_nodup := hosts.connectors_nodup ownerchainid ends hnodup
  src_not_dst := hosts.connectors_apart ownerchainid ends isinter
  rlytp_iff := Net.aor_rlytp
  pap_inter := nor_pap

/-- The relayers of `build_and_start_relayers` of `locals_unix/aor.py`; the relay chain's
is `none`. -/
def aorRelayer (hosts : HostsMap) : Option {p // p ∈ hosts.para} → RelayerConfig
  | some p => hosts.aorCreateRelayers p false [(interPid, true)] interEnd_nodup
  | none => hosts.aorCreateRelayers interPid true hosts.paraEnds hosts.paraEnds_nodup

def aorDeployment (hosts : HostsMap) (chainCfg : Int → Config) :
    Deployment (Option {p // p ∈ hosts.para}) where
  chainCfg := chainCfg
  relayer := hosts.aorRelayer
  lightclient := by
    have hall : ∀ owner isinter ends hnodup,
        ∀ d, d ∈ (hosts.aorCreateRelayers owner isinter ends hnodup).dsts
          ∨ (hosts.aorCreateRelayers owner isinter ends hnodup).inter = some d →
          d.to_ = "lightclient" := by
      intro owner isinter ends hnodup d hd
      rcases hd with hd | hd
      · obtain ⟨e, _, rfl⟩ := List.mem_map.mp hd
        rfl
      · cases hd
    intro r
    cases r with
    | some p => exact hall p false [(interPid, true)] interEnd_nodup
    | none => exact hall interPid true _ hosts.paraEnds_nodup

variable (hosts : HostsMap) {chainCfg : Int → Config}

theorem aorRelayer_mode (r : Option {p // p ∈ hosts.para}) : (hosts.aorRelayer r).mode = .aor := by
  cases r with
  | some p => rfl
  | none => rfl

theorem aorRelayer_apart {r r' : Option {p // p ∈ hosts.para}}
    (h : (hosts.aorRelayer r).src.pid = (hosts.aorRelayer r').src.pid) : r = r' := by
  cases r with
  | some p =>
      cases r' with
      | some p' => exact congrArg some (Subtype.ext h)
      | none => exact absurd h (hosts.ne_inter p)
  | none =>
      cases r' with
      | some p' => exact absurd h.symm (hosts.ne_inter p')
      | none => rfl

/-- **Every chain of the script has one relayer**, the relay chain too. -/
theorem aorDeployment_wired (hneg : -1 ∉ hosts.para)
    (hgen : ∀ p, ∀ d ∈ (chainCfg p).xtxConfig.dstids, p ∈ hosts.para ∧ d ∈ hosts.para ∧ d ≠ p) :
    Net.Wired (hosts.aorDeployment chainCfg) .aor hosts.para where
  direct := by decide
  mode_eq := hosts.aorRelayer_mode
  apart _ _ h := hosts.aorRelayer_apart h
  source r := by
    cases r with
    | some p => exact Or.inl p.2
    | none => exact Or.inr ⟨rfl, rfl⟩
  listened p hp := ⟨some ⟨p, hp⟩, rfl⟩
  relay _ := ⟨none, rfl⟩
  relay_apart := hosts.relay_apart
  pids := hneg
  generates := hgen

/-- The gateways between parachains are the others than those of headers. -/
theorem exists_pap {r : Gateway hosts.para} (h : (hosts.relayer r).isPar = false) :
    ∃ p, r = .pap p := by
  cases r with
  | par p =>
      unfold RelayerConfig.isPar at h
      rw [hosts.par_rlytp, hosts.relayer_mode] at h
      cases h
  | inter => cases h
  | pap p => exact ⟨p, rfl⟩

/-- **Only the gateways between parachains pass transactions on**, one for every
parachain. -/
theorem deployment_direct : Net.Direct (hosts.deployment chainCfg) where
  mode r := by
    show (hosts.relayer r).mode ≠ .aor
    rw [hosts.relayer_mode]
    decide
  apart r r' hpar hpar' h := by
    obtain ⟨p, rfl⟩ := hosts.exists_pap hpar
    obtain ⟨p', rfl⟩ := hosts.exists_pap hpar'
    exact congrArg Gateway.pap (Subtype.ext h)

end HostsMap

end TorSim
