/-
  TorSim.Network.Conservation — every cross-chain transaction is at one stage.

  A source is somewhere on its way to the first chain after its own.  In AoR mode this is
  the relay chain, and once it has accepted the source, the source is somewhere on its
  second way.

  Main results:
    * `second_iff` — the second way begins where the first one ends.
    * `routes_conserved` — **every source is at exactly one stage of its route, and
      nothing is lost, doubled or delivered elsewhere**.
-/
import TorSim.Network.Stages
import TorSim.Blockchain.Commit

namespace TorSim

open TorSim.Lib

variable {ι : Type}

namespace Net

variable {dep : Deployment ι} {mode : Mode} {paras : List Int} {n : Net ι}

variable [DecidableEq ι] [Sha256]

/-! ## §1. One stage at a time. -/

/-- What a parachain's relayer has not heard of what goes to `e`. -/
def firstAhead (dep : Deployment ι) (n : Net ι) (r : ι) (e : Int) : List Parcel :=
  (laterParcels (dep.relayer r).src.pid (n.chains (dep.relayer r).src.pid).history
    (n.relayers r).listen.behind).filterMap (Parcel.route (dep.relayer r) e)

/-- What the relay chain's relayer has not heard of what goes to `e`. -/
def secondAhead (dep : Deployment ι) (n : Net ι) (r : ι) (e : Int) : List Parcel :=
  (carried (unlistened (n.chains (dep.relayer r).src.pid)
    (n.relayers r).listen.behind)).filterMap (Parcel.route (dep.relayer r) e)

/-- The root is at this place of the way to `e`. -/
def IsAt (dep : Deployment ι) (n : Net ι) (r : ι) (e : Int) (ahead : List Parcel) (root : Root)
    (o : Option Belt.Place) : Prop :=
  root ∈ ((belt dep n r e).along ahead o).map Parcel.root

omit [Sha256] in
theorem isAt_unique (hb : Books dep mode paras n) {r : ι} {e : Int} {ahead : List Parcel}
    (hnodup : (((belt dep n r e).entered ++ ahead).map Parcel.root).Nodup) {root : Root}
    {o o' : Option Belt.Place} (h : IsAt dep n r e ahead root o)
    (h' : IsAt dep n r e ahead root o') : o = o' := by
  obtain ⟨x, hx, hroot⟩ := List.mem_map.mp h
  obtain ⟨x', hx', hroot'⟩ := List.mem_map.mp h'
  exact (hb.whole r e).along_unique hnodup hx hx' (hroot.trans hroot'.symm)

/-- The stage of a place on the way of relayer `r` to `e`. -/
def Stage.on (ahead : Stage ι) (r : ι) (e : Int) : Option Belt.Place → Stage ι
  | none => ahead
  | some .queue => .queued r e
  | some .hand => .inHand r e
  | some .delivered => .arrived e

/-- A source, its relayer, and where it goes first. -/
structure Leaves (dep : Deployment ι) (mode : Mode) (paras : List Int) (n : Net ι) (x : Parcel)
    (r : ι) (d e : Int) : Prop where
  source : IsSource paras n.chains x
  relayer : (dep.relayer r).src.pid = x.root.chain
  para : (dep.relayer r).src.pid ∈ paras
  dst : x.dst = some (.int d)
  dst_para : d ∈ paras
  hop : ∃ ty, (x.root.chain, ty, e) ∈ hops mode x.root.chain d
    ∧ x.route (dep.relayer r) e = some { x with type := some (.str ty) }

/-- Every source leaves, in NoR mode for its destination, in AoR mode for the relay chain. -/
theorem exists_leaves (hw : Wired dep mode paras) (hn : NetOk dep n) (hb : Books dep mode paras n)
    {x : Parcel} (hx : IsSource paras n.chains x) :
    ∃ r d, Leaves dep mode paras n x r d (if mode = .aor then interPid else d) := by
  obtain ⟨hmem, hsrc⟩ := mem_parcels_of_source hw hn hb hx
  obtain ⟨_, _, d, hd, hdst⟩ := isSource_of_parcel hw hn hb hmem hsrc
  have hpara : x.root.chain ∈ paras := by
    cases hx with
    | slot hp => exact hp
  obtain ⟨r, hr⟩ := hw.listened _ hpara
  have hty := Parcel.isOf_iff.mp hsrc
  have hneg : d ≠ -1 := fun heq => hw.pids (heq ▸ hd)
  refine ⟨r, d, hx, hr, hr ▸ hpara, hdst, hd, ?_⟩
  cases hmode : mode with
  | tor => exact absurd hmode hw.direct
  | nor =>
      refine ⟨TranMemo.ctxDst, List.mem_singleton_self _, ?_⟩
      have hhop := hopOf_direct ((hw.mode_eq r).trans hmode) hneg
      rw [if_neg (by decide), Parcel.route, hty, hdst, hhop]
      exact if_pos rfl
  | aor =>
      refine ⟨TranMemo.ctxInter, List.mem_cons_self, ?_⟩
      have hhop := hopOf_inter ((hw.mode_eq r).trans hmode) x.dst
      rw [if_pos rfl, Parcel.route, hty, hhop]
      exact if_pos rfl

/-- A source that leaves is somewhere on its first way. -/
theorem Leaves.exists_at (hw : Wired dep mode paras) (hn : NetOk dep n)
    (hb : Books dep mode paras n) {x : Parcel} {r : ι} {d e : Int}
    (h : Leaves dep mode paras n x r d e) :
    ∃ o, IsAt dep n r e (firstAhead dep n r e) x.root o := by
  obtain ⟨ty, _, hroute⟩ := h.hop
  have hmem := (mem_parcels_of_source hw hn hb h.source).1
  rw [← h.relayer, ← firstParcels_append _ _ (n.relayers r).listen.behind] at hmem
  rcases List.mem_append.mp hmem with hheard | hlater
  · obtain ⟨place, hplace⟩ := (hb.whole r e).mem_iff.mp
      (List.mem_filterMap.mpr ⟨x, hheard, hroute⟩)
    exact ⟨some place, List.mem_map.mpr ⟨_, hplace, rfl⟩⟩
  · exact ⟨none, List.mem_map.mpr ⟨_, List.mem_filterMap.mpr ⟨x, hlater, hroute⟩, rfl⟩⟩

/-- Before its first delivery the place of a source is its stage. -/
theorem Leaves.stage_iff (hw : Wired dep mode paras) (hn : NetOk dep n)
    (hb : Books dep mode paras n) {x : Parcel} {r : ι} {d e : Int}
    (h : Leaves dep mode paras n x r d e) {o : Option Belt.Place} (ho : o ≠ some .delivered) :
    x.root ∈ (parcelsAt dep n (Stage.on (.unheard r) r e o)).map Parcel.root
      ↔ IsAt dep n r e (firstAhead dep n r e) x.root o := by
  cases o with
  | none =>
      have hlater : ∀ {y : Parcel}, y ∈ laterParcels (dep.relayer r).src.pid
          (n.chains (dep.relayer r).src.pid).history (n.relayers r).listen.behind →
          y ∈ parcelsOf (dep.relayer r).src.pid
            ((n.chains (dep.relayer r).src.pid).history.zipIdx 1) := by
        intro y hy
        rw [← firstParcels_append _ _ (n.relayers r).listen.behind]
        exact List.mem_append_right _ hy
      constructor
      · intro hstage
        obtain ⟨y, hy, hroot⟩ := List.mem_map.mp hstage
        obtain ⟨hy, hty⟩ := List.mem_filter.mp hy
        have hsource := (isSource_of_parcel hw hn hb (hlater hy) hty).1
        have hsame := hsource.eq_of_root h.source hroot
        subst hsame
        obtain ⟨ty, _, hroute⟩ := h.hop
        exact List.mem_map.mpr ⟨_, List.mem_filterMap.mpr ⟨y, hy, hroute⟩, rfl⟩
      · intro hat
        obtain ⟨z, hz, hroot⟩ := List.mem_map.mp hat
        obtain ⟨y, hy, hroute⟩ := List.mem_filterMap.mp hz
        have hty := routed_source hw hn hb h.para (hlater hy) hroute
        obtain ⟨_, _, rfl⟩ := Parcel.route_eq_some hroute
        exact List.mem_map.mpr ⟨y, List.mem_filter.mpr ⟨hy, hty⟩, hroot⟩
  | some place =>
      cases place with
      | delivered => exact absurd rfl ho
      | hand => exact Iff.rfl
      | queue => exact Iff.rfl

/-- What was accepted of a source came from the relayer of its last hop. -/
theorem sender_of_hop (hw : Wired dep mode paras) (hn : NetOk dep n) (hb : Books dep mode paras n)
    {x y : Parcel} {r r' : ι} {p d : Int} {ty : String} (hx : IsSource paras n.chains x)
    (hdst : x.dst = some (.int d)) (hhop : ((dep.relayer r).src.pid, ty, p) ∈ hops mode x.root.chain d)
    (hy : y ∈ delivered r' (n.chains p)) (hroot : y.root = x.root) : r' = r := by
  obtain ⟨x', hx'⟩ := entered_onHop hw hn hb (delivered_entered hb hy)
  have hsame := hx'.source.eq_of_root hx (hx'.root_eq.symm.trans hroot)
  subst hsame
  obtain ⟨d', hd', ty', hdst', hhop', _⟩ := hx'.hop
  cases hdst.symm.trans hdst'
  exact hw.apart r' r (hops_from (fun heq => hw.relay_apart (heq ▸ hd')) hhop' hhop).1

/-- A source is at its destination when the relayer of its last hop delivered it there. -/
theorem arrived_iff (hw : Wired dep mode paras) (hn : NetOk dep n) (hb : Books dep mode paras n)
    {x : Parcel} {r : ι} {d : Int} {t : String} (hx : IsSource paras n.chains x) (hd : d ∈ paras)
    (hdst : x.dst = some (.int d))
    (hhop : ((dep.relayer r).src.pid, t, d) ∈ hops mode x.root.chain d) (ahead : List Parcel) :
    x.root ∈ (parcelsAt dep n (.arrived d)).map Parcel.root
      ↔ IsAt dep n r d ahead x.root (some .delivered) := by
  constructor
  · intro hstage
    obtain ⟨y, hy, hroot⟩ := List.mem_map.mp hstage
    obtain ⟨r', hr'⟩ := (mem_carried (hn.chains d).flow).mp (List.mem_filter.mp hy).1
    have hsame := sender_of_hop hw hn hb hx hdst hhop hr' hroot
    subst hsame
    exact List.mem_map.mpr ⟨y, hr', hroot⟩
  · intro hat
    obtain ⟨y, hy, hroot⟩ := List.mem_map.mp hat
    have hmem := (mem_carried (hn.chains d).flow).mpr ⟨r, hy⟩
    refine List.mem_map.mpr ⟨y, List.mem_filter.mpr ⟨hmem, ?_⟩, hroot⟩
    cases carried_relayed hw hn hb hmem with
    | inter _ hp => exact absurd (hp ▸ hd) hw.relay_apart
    | last _ hty _ => exact Parcel.isOf_iff.mpr hty

omit [DecidableEq ι] [Sha256] in
/-- The stages of a route in NoR mode. -/
theorem onRoute_direct (hw : Wired dep .nor paras) {x y : Parcel} {r : ι} {d : Int} {s : Stage ι}
    (hr : (dep.relayer r).src.pid = x.root.chain) (h : OnRoute dep .nor x d y s) :
    ∃ o, s = Stage.on (.unheard r) r d o := by
  cases s with
  | unheard r' =>
      cases hw.apart r' r (h.1.trans hr.symm)
      exact ⟨none, rfl⟩
  | queued r' e =>
      obtain ⟨ty, hhop, _⟩ := h
      obtain ⟨hchain, hrest⟩ := Prod.mk.inj (List.mem_singleton.mp hhop)
      cases hw.apart r' r (hchain.trans hr.symm)
      cases (Prod.mk.inj hrest).2
      exact ⟨some .queue, rfl⟩
  | inHand r' e =>
      obtain ⟨ty, hhop, _⟩ := h
      obtain ⟨hchain, hrest⟩ := Prod.mk.inj (List.mem_singleton.mp hhop)
      cases hw.apart r' r (hchain.trans hr.symm)
      cases (Prod.mk.inj hrest).2
      exact ⟨some .hand, rfl⟩
  | relayed r' =>
      obtain ⟨_, hrest⟩ := Prod.mk.inj (List.mem_singleton.mp h.1)
      exact absurd (Prod.mk.inj hrest).1 (by decide)
  | arrived e =>
      cases h.1
      exact ⟨some .delivered, rfl⟩

omit [DecidableEq ι] [Sha256] in
/-- A hop in AoR mode is the first one or the second one. -/
theorem relay_hop (hw : Wired dep .aor paras) {r r' q : ι} {p d e : Int} {ty : String}
    (hr : (dep.relayer r).src.pid = p) (hq : (dep.relayer q).src.pid = interPid)
    (h : ((dep.relayer r').src.pid, ty, e) ∈ hops .aor p d) :
    r' = r ∧ e = interPid ∨ r' = q ∧ e = d := by
  rcases List.mem_cons.mp h with heq | h
  · obtain ⟨hchain, hrest⟩ := Prod.mk.inj heq
    exact .inl ⟨hw.apart r' r (hchain.trans hr.symm), (Prod.mk.inj hrest).2⟩
  · obtain ⟨hchain, hrest⟩ := Prod.mk.inj (List.mem_singleton.mp h)
    exact .inr ⟨hw.apart r' q (hchain.trans hq.symm), (Prod.mk.inj hrest).2⟩

omit [DecidableEq ι] [Sha256] in
/-- The stages of a route in AoR mode. -/
theorem onRoute_relayed (hw : Wired dep .aor paras) {x y : Parcel} {r q : ι} {d : Int} {s : Stage ι}
    (hr : (dep.relayer r).src.pid = x.root.chain) (hq : (dep.relayer q).src.pid = interPid)
    (h : OnRoute dep .aor x d y s) :
    (∃ o, o ≠ some Belt.Place.delivered ∧ s = Stage.on (.unheard r) r interPid o)
      ∨ ∃ o, s = Stage.on (.relayed q) q d o := by
  cases s with
  | unheard r' =>
      cases hw.apart r' r (h.1.trans hr.symm)
      exact .inl ⟨none, by decide, rfl⟩
  | queued r' e =>
      obtain ⟨ty, hhop, _⟩ := h
      rcases relay_hop hw hr hq hhop with ⟨rfl, rfl⟩ | ⟨rfl, rfl⟩
      · exact .inl ⟨some .queue, by decide, rfl⟩
      · exact .inr ⟨some .queue, rfl⟩
  | inHand r' e =>
      obtain ⟨ty, hhop, _⟩ := h
      rcases relay_hop hw hr hq hhop with ⟨rfl, rfl⟩ | ⟨rfl, rfl⟩
      · exact .inl ⟨some .hand, by decide, rfl⟩
      · exact .inr ⟨some .hand, rfl⟩
  | relayed r' =>
      rcases List.mem_cons.mp h.1 with heq | hlast
      · obtain ⟨_, hrest⟩ := Prod.mk.inj heq
        cases hw.apart r' q ((Prod.mk.inj hrest).2.trans hq.symm)
        exact .inr ⟨none, rfl⟩
      · obtain ⟨_, hrest⟩ := Prod.mk.inj (List.mem_singleton.mp hlast)
        exact absurd (Prod.mk.inj hrest).1 (by decide)
  | arrived e =>
      cases h.1
      exact .inr ⟨some .delivered, rfl⟩

/-- What a parachain's source became on the relay chain. -/
theorem relayed_parcel (hw : Wired dep mode paras) (hn : NetOk dep n) (hb : Books dep mode paras n)
    {x z : Parcel} {d : Int} (hx : IsSource paras n.chains x) (hdst : x.dst = some (.int d))
    (hz : z ∈ carried ((n.chains interPid).done ++ (n.chains interPid).waiting))
    (hroot : z.root = x.root) :
    z.type = some (.str TranMemo.ctxInter) ∧ z.dst = some (.int d) := by
  obtain ⟨r', hr'⟩ := (mem_carried (hn.chains interPid).flow).mp hz
  obtain ⟨x', hx'⟩ := entered_onHop hw hn hb (delivered_entered hb hr')
  have hsame := hx'.source.eq_of_root hx (hx'.root_eq.symm.trans hroot)
  subst hsame
  obtain ⟨_, _, _, _, _, heq⟩ := hx'.hop
  constructor
  · cases carried_relayed hw hn hb hz with
    | inter _ _ hty => exact hty
    | last hp => exact absurd hp hw.relay_apart
  · rw [heq]
    exact hdst

omit [DecidableEq ι] [Sha256] in
/-- The relay chain's relayer passes it on to its destination. -/
theorem route_relayed (hw : Wired dep .aor paras) {z : Parcel} {q : ι} {d : Int} (hd : d ∈ paras)
    (hty : z.type = some (.str TranMemo.ctxInter)) (hdst : z.dst = some (.int d)) :
    z.route (dep.relayer q) d = some { z with type := some (.str TranMemo.ctxDst) } := by
  have hneg : d ≠ -1 := fun heq => hw.pids (heq ▸ hd)
  rw [Parcel.route, hty, hdst, hopOf_last (hw.mode_eq q) hneg]
  exact if_pos rfl

/-- A source is somewhere on its second way when the relay chain has accepted it. -/
theorem second_iff (hw : Wired dep .aor paras) (hn : NetOk dep n) (hb : Books dep .aor paras n)
    {x : Parcel} {r q : ι} {d : Int} (h : Leaves dep .aor paras n x r d interPid)
    (hq : (dep.relayer q).src.pid = interPid) :
    (∃ o, IsAt dep n q d (secondAhead dep n q d) x.root o)
      ↔ IsAt dep n r interPid (firstAhead dep n r interPid) x.root (some .delivered) := by
  have hway : (belt dep n q d).entered ++ secondAhead dep n q d
      = (carried ((n.chains interPid).done ++ (n.chains interPid).waiting)).filterMap
        (Parcel.route (dep.relayer q) d) := by
    unfold secondAhead
    rw [entered_second hw hn hb hq d, ← List.filterMap_append, ← carried_append, listened_append, hq]
  obtain ⟨ty, hfirst, _⟩ := h.hop
  have hhop : ((dep.relayer r).src.pid, ty, interPid) ∈ hops .aor x.root.chain d := by
    rw [h.relayer]
    exact hfirst
  constructor
  · intro hat
    obtain ⟨o, hat⟩ := hat
    obtain ⟨y, hy, hroot⟩ := List.mem_map.mp hat
    have hmem : y ∈ (belt dep n q d).entered ++ secondAhead dep n q d := by
      cases o with
      | none => exact List.mem_append_right _ hy
      | some place => exact List.mem_append_left _ ((hb.whole q d).mem_iff.mpr ⟨place, hy⟩)
    rw [hway] at hmem
    obtain ⟨z, hz, hroute⟩ := List.mem_filterMap.mp hmem
    obtain ⟨_, _, rfl⟩ := Parcel.route_eq_some hroute
    obtain ⟨r', hr'⟩ := (mem_carried (hn.chains interPid).flow).mp hz
    have hsame := sender_of_hop hw hn hb h.source h.dst hhop hr' hroot
    subst hsame
    exact List.mem_map.mpr ⟨z, hr', hroot⟩
  · intro hat
    obtain ⟨z, hz, hroot⟩ := List.mem_map.mp hat
    have hmem := (mem_carried (hn.chains interPid).flow).mpr ⟨r, hz⟩
    obtain ⟨hty, hdst⟩ := relayed_parcel hw hn hb h.source h.dst hmem hroot
    have hroute := route_relayed (q := q) hw h.dst_para hty hdst
    have hin := List.mem_filterMap.mpr ⟨z, hmem, hroute⟩
    rw [← hway] at hin
    rcases List.mem_append.mp hin with hentered | hahead
    · obtain ⟨place, hplace⟩ := (hb.whole q d).mem_iff.mp hentered
      exact ⟨some place, List.mem_map.mpr ⟨_, hplace, hroot⟩⟩
    · exact ⟨none, List.mem_map.mpr ⟨_, hahead, hroot⟩⟩

/-- On its second way the place of a source is its stage. -/
theorem second_stage_iff (hw : Wired dep .aor paras) (hn : NetOk dep n)
    (hb : Books dep .aor paras n) {x : Parcel} {q : ι} {d : Int} (hx : IsSource paras n.chains x)
    (hdst : x.dst = some (.int d)) (hd : d ∈ paras) (hq : (dep.relayer q).src.pid = interPid)
    (o : Option Belt.Place) :
    x.root ∈ (parcelsAt dep n (Stage.on (.relayed q) q d o)).map Parcel.root
      ↔ IsAt dep n q d (secondAhead dep n q d) x.root o := by
  cases o with
  | none =>
      have hlater : carried (unlistened (n.chains (dep.relayer q).src.pid)
          (n.relayers q).listen.behind)
          ⊆ carried ((n.chains interPid).done ++ (n.chains interPid).waiting) := by
        rw [hq, ← listened_append _ (n.relayers q).listen.behind]
        exact fun _ => carried_subset (List.subset_append_right _ _)
      constructor
      · intro hstage
        obtain ⟨z, hz, hroot⟩ := List.mem_map.mp hstage
        have hz := (List.mem_filter.mp hz).1
        obtain ⟨hty, hzdst⟩ := relayed_parcel hw hn hb hx hdst (hlater hz) hroot
        exact List.mem_map.mpr
          ⟨_, List.mem_filterMap.mpr ⟨z, hz, route_relayed hw hd hty hzdst⟩, hroot⟩
      · intro hat
        obtain ⟨y, hy, hroot⟩ := List.mem_map.mp hat
        obtain ⟨z, hz, hroute⟩ := List.mem_filterMap.mp hy
        obtain ⟨_, _, rfl⟩ := Parcel.route_eq_some hroute
        obtain ⟨hty, _⟩ := relayed_parcel hw hn hb hx hdst (hlater hz) hroot
        exact List.mem_map.mpr ⟨z, List.mem_filter.mpr ⟨hz, Parcel.isOf_iff.mpr hty⟩, hroot⟩
  | some place =>
      cases place with
      | delivered =>
          refine arrived_iff (t := TranMemo.ctxDst) hw hn hb hx hd hdst ?_ _
          rw [hq]
          exact List.mem_cons_of_mem _ (List.mem_singleton_self _)
      | hand => exact Iff.rfl
      | queue => exact Iff.rfl

/-- In NoR mode every source is at one stage. -/
theorem direct_stage (hw : Wired dep .nor paras) (hn : NetOk dep n) (hb : Books dep .nor paras n)
    {x : Parcel} (hx : IsSource paras n.chains x) :
    ∃! s : Stage ι, x.root ∈ (parcelsAt dep n s).map Parcel.root := by
  obtain ⟨r, d, h⟩ := exists_leaves hw hn hb hx
  rw [if_neg (by decide)] at h
  have hnodup := first_nodup hw hn hb h.para d
  have hiff : ∀ o, x.root ∈ (parcelsAt dep n (Stage.on (.unheard r) r d o)).map Parcel.root
      ↔ IsAt dep n r d (firstAhead dep n r d) x.root o := by
    intro o
    by_cases ho : o = some .delivered
    · subst ho
      obtain ⟨ty, hhop, _⟩ := h.hop
      refine arrived_iff (t := ty) hw hn hb hx h.dst_para h.dst ?_ _
      rw [h.relayer]
      exact hhop
    · exact h.stage_iff hw hn hb ho
  have hstages : ∀ s, x.root ∈ (parcelsAt dep n s).map Parcel.root →
      ∃ o, s = Stage.on (.unheard r) r d o := by
    intro s hs
    obtain ⟨y, hy, hroot⟩ := List.mem_map.mp hs
    obtain ⟨x', d', hx', hroot', _, hdst, hroute⟩ := stage_onRoute hw hn hb s y hy
    have hsame := hx'.eq_of_root hx (hroot'.trans hroot)
    subst hsame
    cases hdst.symm.trans h.dst
    exact onRoute_direct hw h.relayer hroute
  obtain ⟨o, ho⟩ := h.exists_at hw hn hb
  refine ⟨_, (hiff o).mpr ho, fun s hs => ?_⟩
  obtain ⟨o', rfl⟩ := hstages s hs
  rw [isAt_unique hb hnodup ((hiff o').mp hs) ho]

/-- In AoR mode every source is at one stage: on its first way, or once the relay chain has
accepted it on its second. -/
theorem relayed_stage (hw : Wired dep .aor paras) (hn : NetOk dep n) (hb : Books dep .aor paras n)
    {x : Parcel} (hx : IsSource paras n.chains x) :
    ∃! s : Stage ι, x.root ∈ (parcelsAt dep n s).map Parcel.root := by
  obtain ⟨r, d, h⟩ := exists_leaves hw hn hb hx
  rw [if_pos rfl] at h
  obtain ⟨q, hq⟩ := hw.relay rfl
  have hfirst := first_nodup hw hn hb h.para interPid
  have hsecond := second_nodup hw hn hb hq d
  have hiff := second_stage_iff hw hn hb hx h.dst h.dst_para hq
  have hstages : ∀ s, x.root ∈ (parcelsAt dep n s).map Parcel.root →
      (∃ o, o ≠ some Belt.Place.delivered ∧ s = Stage.on (.unheard r) r interPid o)
        ∨ ∃ o, s = Stage.on (.relayed q) q d o := by
    intro s hs
    obtain ⟨y, hy, hroot⟩ := List.mem_map.mp hs
    obtain ⟨x', d', hx', hroot', _, hdst, hroute⟩ := stage_onRoute hw hn hb s y hy
    have hsame := hx'.eq_of_root hx (hroot'.trans hroot)
    subst hsame
    cases hdst.symm.trans h.dst
    exact onRoute_relayed hw h.relayer hq hroute
  by_cases hdelivered : IsAt dep n r interPid (firstAhead dep n r interPid) x.root (some .delivered)
  · obtain ⟨o, ho⟩ := (second_iff hw hn hb h hq).mpr hdelivered
    refine ⟨_, (hiff o).mpr ho, fun s hs => ?_⟩
    rcases hstages s hs with ⟨o', ho', rfl⟩ | ⟨o', rfl⟩
    · have hat := (h.stage_iff hw hn hb ho').mp hs
      exact absurd (isAt_unique hb hfirst hat hdelivered) ho'
    · rw [isAt_unique hb hsecond ((hiff o').mp hs) ho]
  · obtain ⟨o, ho⟩ := h.exists_at hw hn hb
    have hne : o ≠ some .delivered := fun heq => hdelivered (heq ▸ ho)
    refine ⟨_, (h.stage_iff hw hn hb hne).mpr ho, fun s hs => ?_⟩
    rcases hstages s hs with ⟨o', ho', rfl⟩ | ⟨o', rfl⟩
    · rw [isAt_unique hb hfirst ((h.stage_iff hw hn hb ho').mp hs) ho]
    · exact absurd ((second_iff hw hn hb h hq).mp ⟨o', (hiff o').mp hs⟩) hdelivered

/-! ## §2. Every run. -/

/-- The books say where everything is. -/
theorem Books.conserved (hw : Wired dep mode paras) (hn : NetOk dep n)
    (hb : Books dep mode paras n) : Conserved dep mode paras n where
  one_stage x hx := by
    cases hmode : mode with
    | nor =>
        subst hmode
        exact direct_stage hw hn hb hx
    | aor =>
        subst hmode
        exact relayed_stage hw hn hb hx
    | tor => exact absurd hmode hw.direct
  once := stage_nodup hw hn hb
  on_route := stage_onRoute hw hn hb
  from_source _ _ _ h hty := chain_onHop hw hn hb h hty
  apart := carried_nodup hw hn hb

variable [Contracts]

/-- **Every cross-chain transaction is at exactly one stage of its route**, in every run in
which no task ended, and nothing is lost, doubled or delivered elsewhere. -/
theorem routes_conserved (hw : Wired dep mode paras) {n0 : Net ι} {acts : List (Action ι)}
    (h0 : Started n0)
    (hpool : ∀ p, ∀ e ∈ (n0.chains p).accepted,
      FromOutside paras p (e.2.kept.memo "type") (e.2.kept.memo "dst"))
    (halong : Along (step dep) (Orderly dep paras) n0 acts)
    (hrun : runFrom (step dep) n0 acts = some n) (ha : Alive n) : Conserved dep mode paras n :=
  (run_books hw h0 hpool halong hrun ha).conserved hw (run_netOk h0 hrun)

/-! ## §3. A run. -/

/-- A step of a chain or the start of a relayer. -/
def Action.early : Action ι → Bool
  | .chain _ _ => true
  | .start _ _ => true
  | _ => false

/-- Before the relayers listen, their destinations stay as they are. -/
theorem early_dst {n0 : Net ι} {acts : List (Action ι)} (hearly : ∀ a ∈ acts, a.early = true)
    (hrun : runFrom (step dep) n0 acts = some n) (r : ι) (d : Int) : n.dst r d = n0.dst r d := by
  refine run_invariant_along (P := fun m => m.dst r d = n0.dst r d)
    (fun m a m' hm ha h => ?_) acts (along_of_forall (fun a ha _ => hearly a ha) n0) hrun rfl
  rw [← hm]
  cases step_cases h with
  | chain => rfl
  | @start r' link rl hcreated hstart =>
      unfold dst
      by_cases hr : r = r'
      · subst hr
        rw [setRelayer_self]
        rcases hstart with rfl | rfl <;> rfl
      · rw [setRelayer_ne hr]
  | listen => cases ha
  | stopListen => cases ha
  | stopHeader => cases ha
  | stopXtx => cases ha
  | dealHeader => cases ha
  | takeXtx => cases ha
  | advance => cases ha

/-- A batch whose transactions are all ready is committed. -/
theorem step_commit {p : Int} {q : Proposal (Origin ι)} (hn : NetOk dep n)
    (hphase : (n.chains p).phase = .executing q) (hrest : q.rest = [])
    (hstamped : ∀ e ∈ q.done, Stamped e.tx.memo)
    (hready : ∀ e ∈ q.done, Node.CommitReady q.height e.tx) (time : PyFloat) :
    ∃ n' slots, step dep n (.chain p (.commit time)) = some n' ∧ n'.relayers = n.relayers
      ∧ (n'.chains p).history = (n.chains p).history ++ [⟨q.committed slots, slots⟩]
      ∧ List.Forall₂ (Chain.CommitsTo q.height) q.done slots := by
  obtain ⟨slots, hstep⟩ := Node.commit_of_ready hphase hrest ((hn.chains p).proposed q hphase)
    hstamped hready time
  have hcommit : Chain.step (dep.chainCfg p) (n.chains p) (.commit time)
      = some ((n.chains p).commit time q) := by
    simp only [Chain.step, hphase, hrest, List.isEmpty_nil, if_true]
  obtain ⟨_, htxs⟩ := hstep.txs
  refine ⟨n.setChain p ((n.chains p).commit time q), slots, ?_, rfl, ?_,
    Chain.commitTxs_eq_ok htxs⟩
  · show (Chain.step _ _ _).map _ = _
    rw [hcommit]
    rfl
  · rw [setChain_chains, RelayerUnix.setChain_self]
    exact hstep.history

omit [DecidableEq ι] [Contracts] [Sha256]

/-- A chain with executed transactions that did not stop is executing. -/
theorem exists_executing {c : Chain (Origin ι)} {e : Executed (Origin ι)} (hmem : e ∈ c.inProgress)
    (hgoes : c.isStopped = false) :
    ∃ p, c.phase = .executing p ∧ p.done = c.inProgress ∧ p.rest = c.selected := by
  unfold Chain.inProgress Chain.isStopped Chain.selected at *
  cases hphase : c.phase with
  | executing p => exact ⟨p, rfl, rfl, rfl⟩
  | idle =>
      rw [hphase] at hmem
      cases hmem
  | selecting =>
      rw [hphase] at hmem
      cases hmem
  | stopped =>
      rw [hphase] at hgoes
      cases hgoes

/-- A chain of the sample deployment. -/
def sampleChain (p : Int) : Connector where
  pid := p
  paratype := "Ethereum"

theorem aor_rlytp : (none : Option ToRRelayerType).isSome ↔ Mode.aor = .tor := by decide

/-- A relayer in AoR mode. -/
def aorRelayer (src : Int) (dsts : List Int)
    (hnodup : ((dsts.map sampleChain).map Connector.pid).Nodup)
    (hsrc : ∀ d ∈ dsts.map sampleChain, d.pid ≠ src) : RelayerConfig where
  src := sampleChain src
  mode := .aor
  dsts := dsts.map sampleChain
  pids_nodup := hnodup
  src_not_dst := hsrc
  rlytp_iff := aor_rlytp
  pap_inter := nor_pap

/-- The relay chain's relayer is `none`. -/
def aorRelayers : Option Bool → RelayerConfig
  | some false => aorRelayer 0 [interPid] (by decide) (by decide)
  | some true => aorRelayer 1 [interPid] (by decide) (by decide)
  | none => aorRelayer interPid [0, 1] (by decide) (by decide)

/-- Parachains `0` and `1` and the relay chain, with a relayer each. -/
def aorDeployment : Deployment (Option Bool) where
  chainCfg := fun _ => {}
  relayer := aorRelayers
  lightclient := by
    have hlist : ∀ (src : Int) (dsts : List Int) hnodup hsrc,
        ∀ d, d ∈ (aorRelayer src dsts hnodup hsrc).dsts
          ∨ (aorRelayer src dsts hnodup hsrc).inter = some d → d.to_ = "lightclient" := by
      intro src dsts hnodup hsrc d hd
      rcases hd with hd | hd
      · obtain ⟨p, _, rfl⟩ := List.mem_map.mp hd
        rfl
      · cases hd
    intro r
    match r with
    | some false => exact hlist _ _ _ _
    | some true => exact hlist _ _ _ _
    | none => exact hlist _ _ _ _

/-- Every chain has its genesis block and its contracts. -/
def aorNet : Net (Option Bool) where
  chains := fun _ => { store := typedStore, blocks := ⟨[Chain.genesisBlock PyFloat.zero]⟩ }
  relayers := fun _ => {}

/-- Two relayers start, a client submits, and its transaction is executed. -/
def aorActions : List (Action (Option Bool)) := [
  .start (some false) .delivered, .start none .delivered,
  .chain 0 (.submit PyFloat.zero .client sampleXtx),
  .chain 0 (.propose PyFloat.zero (fun _ => (0, PyFloat.zero))), .chain 0 (.takeTx PyFloat.zero),
  .chain 0 (.takeTx PyFloat.zero), .chain 0 .executeNext]

/-- A transaction on its way that can be committed at height `1`. -/
def ready (e : Executed (Origin (Option Bool))) : Bool :=
  (e.tx.kept.parcel ⟨0, 1, 0⟩).isOf TranMemo.ctxSrc
    && decide (Stamped e.tx.memo ∧ Node.CommitReady 1 e.tx)

theorem aorNet_started : Started aorNet where
  fresh _ := ⟨rfl, rfl, ⟨PyFloat.zero, rfl⟩, rfl, fun h => absurd h (lt_irrefl _)⟩
  clients _ _ he := by cases he
  relayers _ := rfl

theorem aorDeployment_wired : Wired aorDeployment .aor [0, 1] where
  direct := by decide
  mode_eq r := by
    rcases r with _ | _ | _ <;> rfl
  apart r r' h := by
    rcases r with _ | _ | _ <;> rcases r' with _ | _ | _ <;>
      first | rfl | exact absurd h (by decide)
  source r := by
    rcases r with _ | _ | _
    · exact .inr ⟨rfl, rfl⟩
    · exact .inl (by decide)
    · exact .inl (by decide)
  listened p hp := by
    rcases List.mem_cons.mp hp with rfl | hp
    · exact ⟨some false, rfl⟩
    · rw [List.mem_singleton.mp hp]
      exact ⟨some true, rfl⟩
  relay _ := ⟨none, rfl⟩
  relay_apart := by decide
  pids := by decide
  generates p d hd := by cases hd

theorem sampleXtx_fromOutside : FromOutside [0, 1] 0 (sampleXtx.kept.memo "type")
    (sampleXtx.kept.memo "dst") := by
  have hty : sampleXtx.kept.memo "type" = some (.str TranMemo.ctxSrc) := by
    rw [sampleXtx.kept_memo (by decide)]
    exact memoField_xtxMemo 1 PyFloat.zero "type"
  have hdst : sampleXtx.kept.memo "dst" = some (.int 1) := by
    rw [sampleXtx.kept_memo (by decide)]
    exact memoField_xtxMemo 1 PyFloat.zero "dst"
  rw [hty]
  exact ⟨fun _ => ⟨by decide, 1, by decide, by decide, hdst⟩, type_ne (by decide),
    type_ne (by decide)⟩

/-- The relayers start on empty chains. -/
theorem aorActions_orderly :
    Along (@step _ _ Contracts.plain Sha256.plain aorDeployment) (Orderly aorDeployment [0, 1])
      aorNet (aorActions ++ [.chain 0 (.commit PyFloat.zero)]) := by
  have hempty : ∀ {n : Net (Option Bool)} {r : Option Bool} {link : Link},
      (n.chains (aorDeployment.relayer r).src.pid).history = [] →
      ∀ r' link', (Action.start r link : Action (Option Bool)) = .start r' link' →
      ∀ b ∈ (n.chains (aorDeployment.relayer r').src.pid).history, ∀ s ∈ b.slots,
        s.tx.kept.memo "type" ≠ some (.str TranMemo.ctxSrc)
          ∧ s.tx.kept.memo "type" ≠ some (.str TranMemo.ctxInter) := by
    intro n r link hnil r' link' heq b hb
    cases heq
    rw [hnil] at hb
    cases hb
  refine ⟨⟨hempty rfl, fun _ _ _ _ h => by cases h⟩,
    fun n h => ⟨⟨hempty ?_, fun _ _ _ _ h => by cases h⟩, fun n' _ => along_of_forall ?_ n'⟩⟩
  · have hrun : (@step _ _ Contracts.plain Sha256.plain aorDeployment aorNet
        (.start (some false) .delivered)).map (fun n => (n.chains interPid).history.length)
          = some 0 := by
      decide +kernel
    rw [h] at hrun
    exact List.eq_nil_of_length_eq_zero (Option.some.inj hrun)
  · intro a ha m
    have ha : a ∈ aorActions.drop 2 ++ [.chain 0 (.commit PyFloat.zero)] := ha
    constructor
    · intro r link heq
      subst heq
      simp [aorActions] at ha
    · intro p time tag tx heq
      subst heq
      simp only [aorActions, List.drop_succ_cons, List.drop_zero, List.cons_append,
        List.nil_append, List.mem_cons, List.not_mem_nil, or_false, reduceCtorEq,
        Action.chain.injEq, Chain.Action.submit.injEq, and_false] at ha
      obtain ⟨rfl, _, _, rfl⟩ := ha
      exact sampleXtx_fromOutside

/-- The transaction is committed, and not listened to yet. -/
theorem routes_conserved_sample :
    ∃ n, runFrom (@step _ _ Contracts.plain Sha256.plain aorDeployment) aorNet
        (aorActions ++ [.chain 0 (.commit PyFloat.zero)]) = some n
      ∧ (∃ x, IsSource [0, 1] n.chains x ∧ x.root = ⟨0, 1, 0⟩)
      ∧ Conserved aorDeployment .aor [0, 1] n := by
  have hview : (runFrom (@step _ _ Contracts.plain Sha256.plain aorDeployment) aorNet
      aorActions).map (fun m => decide ((m.chains 0).isStopped = false
        ∧ (m.chains 0).selected.length = 0 ∧ (m.chains 0).blocks.blockNum = 0
        ∧ (m.chains 0).history.length = 0 ∧ (m.chains 0).inProgress.map ready = [true]
        ∧ ∀ r ∈ [none, some false, some true], (m.relayers r).listen ≠ .stopped)) = some true := by
    decide +kernel
  obtain ⟨m, hm, hsee⟩ := Option.map_eq_some_iff.mp hview
  obtain ⟨hgoes, hselected, hnum, hlength, hready, hlistens⟩ := of_decide_eq_true hsee
  obtain ⟨e, hdone, he⟩ := List.map_eq_singleton_iff.mp hready
  obtain ⟨hsource, hcan⟩ := (Bool.and_eq_true _ _).mp he
  obtain ⟨hstamped, hcommit⟩ := of_decide_eq_true hcan
  obtain ⟨p, hphase, hp, hrest⟩ := exists_executing
    (show e ∈ (m.chains 0).inProgress by rw [hdone]; exact List.mem_singleton_self _) hgoes
  have hok := @run_netOk _ _ Contracts.plain Sha256.plain aorDeployment aorNet m aorActions
    aorNet_started hm
  have hone : p.height = 1 := by
    rw [@ChainOk.proposed _ Sha256.plain _ _ (@NetOk.chains _ Sha256.plain _ _ hok 0) p hphase,
      hnum]
    rfl
  have hall : ∀ e' ∈ p.done, e' = e := by
    rw [hp, hdone]
    exact fun _ h => List.mem_singleton.mp h
  obtain ⟨n, slots, hstep, hrelayers, hhistory, hslots⟩ := @step_commit _ aorDeployment m _
    Sha256.plain Contracts.plain 0 p hok hphase
    (hrest.trans (List.eq_nil_of_length_eq_zero hselected))
    (fun e' he' => hall e' he' ▸ hstamped) (fun e' he' => hall e' he' ▸ hone ▸ hcommit) PyFloat.zero
  have hrun := runFrom_append aorActions _ hm (runFrom_one hstep)
  -- its one transaction is a source
  rw [hp, hdone] at hslots
  obtain ⟨s, _, hcommits, hnil, rfl⟩ := List.forall₂_cons_left_iff.mp hslots
  rw [List.forall₂_nil_left_iff.mp hnil, List.eq_nil_of_length_eq_zero hlength] at hhistory
  have hsource : IsSource [0, 1] n.chains (s.tx.kept.parcel ⟨0, 1, 0⟩) := by
    refine .slot (p := 0) (j := 0) (i := 0) (by decide) (by rw [hhistory]; rfl) rfl ?_
    rw [hcommits.kept]
    exact Parcel.isOf_iff.mp hsource
  have ha : Alive n := by
    constructor
    · intro r
      have hmem : r ∈ [none, some false, some true] := by
        rcases r with _ | _ | _ <;> decide
      rw [hrelayers]
      exact hlistens r hmem
    · intro r d
      have hsame := @early_dst _ aorDeployment m _ Sha256.plain Contracts.plain aorNet aorActions
        (by decide) hm r d
      rw [dst, hrelayers]
      show (m.dst r d).xtxTask.alive = true
      rw [hsame]
      rfl
  exact ⟨n, hrun, ⟨_, hsource, rfl⟩, @routes_conserved _ aorDeployment .aor [0, 1] n _ Sha256.plain
    Contracts.plain aorDeployment_wired aorNet _ aorNet_started (fun _ _ he => by cases he)
    aorActions_orderly hrun ha⟩

end Net

end TorSim
