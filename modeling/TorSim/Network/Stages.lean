/-
  TorSim.Network.Stages — where a cross-chain transaction can be.

  A `CTX-SRC` transaction committed on a parachain goes over one belt in NoR mode,
  over two in AoR mode with the relay chain between them.  Whatever travels under the
  later types comes from it.

  Main results:
    * `entered_onHop` — whatever came onto a belt is a source on one of its hops.
    * `carried_nodup` — no chain has accepted two relayed transactions of one root.
    * `stage_onRoute` — **whatever is at a stage comes from one source, on whose route
      the stage is**.
-/
import TorSim.Network.Belts
import TorSim.Blockchain.Positions

namespace TorSim

open TorSim.Lib

variable {ι : Type}

/-! ## §1. Stages. -/

/-- Where a cross-chain transaction can be. -/
inductive Stage (ι : Type) where
  /-- committed on its source chain, its block not yet listened to -/
  | unheard (r : ι)
  | queued (r : ι) (d : Int)
  | inHand (r : ι) (d : Int)
  /-- in the pool or a block of the relay chain, not yet listened to -/
  | relayed (r : ι)
  /-- in the pool or a block of its destination -/
  | arrived (d : Int)

/-- The parcel has this type. -/
def Parcel.isOf (ty : String) (x : Parcel) : Bool :=
  match x.type with
  | some v => v.isStr ty
  | none => false

theorem Parcel.isOf_iff {ty : String} {x : Parcel} :
    x.isOf ty = true ↔ x.type = some (.str ty) := by
  unfold Parcel.isOf
  cases x.type with
  | none =>
      constructor
      · intro h
        cases h
      · intro h
        cases h
  | some v =>
      constructor
      · intro h
        cases v with
        | str s => exact congrArg (fun s => some (Json.str s)) (of_decide_eq_true h)
        | _ => cases h
      · intro h
        cases h
        exact decide_eq_true rfl

/-- The root of a relayed transaction. -/
def relayedRoot : Option (Origin ι) → Option Root
  | some (.xtx _ _ root) => some root
  | _ => none

/-- The sender and the root of a relayed transaction. -/
def sentAs : Origin ι → Option (ι × Root)
  | .xtx r _ root => some (r, root)
  | _ => none

/-- The relayed transactions among those of a chain. -/
def carried (xs : List (Option (Origin ι) × Kept)) : List Parcel :=
  xs.filterMap (fun e => (relayedRoot e.1).map (fun root => e.2.parcel root))

/-- The transactions of the first `k` committed blocks. -/
def listened (c : Chain (Origin ι)) (k : Nat) : List (Option (Origin ι) × Kept) :=
  ((c.history.take k).flatMap Committed.slots).map (fun e => (e.tag, e.tx.kept))

/-- The transactions in later blocks, in the block in progress and in the pool. -/
def unlistened (c : Chain (Origin ι)) (k : Nat) : List (Option (Origin ι) × Kept) :=
  ((c.history.drop k).flatMap Committed.slots ++ c.inProgress).map
    (fun e => (e.tag, e.tx.kept)) ++ c.waiting

/-- The parcels of the committed blocks after the first `k`. -/
def laterParcels (pid : Int) (rs : List (Committed (Origin ι))) (k : Nat) : List Parcel :=
  parcelsOf pid ((rs.zipIdx 1).drop k)

theorem listened_append (c : Chain (Origin ι)) (k : Nat) :
    listened c k ++ unlistened c k = c.done ++ c.waiting := by
  unfold listened unlistened Chain.done Chain.executed
  rw [← List.append_assoc, ← List.map_append, ← List.append_assoc, ← List.flatMap_append,
    List.take_append_drop]

theorem firstParcels_append (pid : Int) (rs : List (Committed (Origin ι))) (k : Nat) :
    firstParcels pid rs k ++ laterParcels pid rs k = parcelsOf pid (rs.zipIdx 1) := by
  unfold firstParcels laterParcels parcelsOf
  rw [← List.flatMap_append, List.take_append_drop]

theorem carried_append (xs ys : List (Option (Origin ι) × Kept)) :
    carried (xs ++ ys) = carried xs ++ carried ys := List.filterMap_append

/-- A `CTX-SRC` transaction committed on a parachain. -/
inductive IsSource (paras : List Int) (chains : Int → Chain (Origin ι)) : Parcel → Prop where
  | slot {p : Int} {j i : Nat} {b : Committed (Origin ι)} {s : Executed (Origin ι)} (hp : p ∈ paras)
      (hb : (chains p).history[j]? = some b) (hs : b.slots[i]? = some s)
      (hty : s.tx.kept.memo "type" = some (.str TranMemo.ctxSrc)) :
      IsSource paras chains (s.tx.kept.parcel ⟨p, ((j + 1 : Nat) : Int), i⟩)

/-- A source is known by its root. -/
theorem IsSource.eq_of_root {paras : List Int} {chains : Int → Chain (Origin ι)} {x x' : Parcel}
    (h : IsSource paras chains x) (h' : IsSource paras chains x') (hroot : x.root = x'.root) :
    x = x' := by
  cases h with
  | @slot p j i b s hp hb hs hty =>
      cases h' with
      | @slot p' j' i' b' s' hp' hb' hs' hty' =>
          obtain ⟨hchain, hheight, hidx⟩ := Root.mk.inj hroot
          have hj : j = j' := by omega
          subst hchain hidx hj
          cases hb.symm.trans hb'
          cases hs.symm.trans hs'
          rfl

/-- The hops from parachain `p` to parachain `d`: each from where, as what and where to. -/
def hops (mode : Mode) (p d : Int) : List (Int × String × Int) :=
  match mode with
  | .aor => [(p, TranMemo.ctxInter, interPid), (interPid, TranMemo.ctxDst, d)]
  | _ => [(p, TranMemo.ctxDst, d)]

namespace Net

section Stages

variable [DecidableEq ι]

/-- **The transactions at a stage**, in order. -/
def parcelsAt (dep : Deployment ι) (n : Net ι) : Stage ι → List Parcel
  | .unheard r =>
      (laterParcels (dep.relayer r).src.pid (n.chains (dep.relayer r).src.pid).history
        (n.relayers r).listen.behind).filter (Parcel.isOf TranMemo.ctxSrc)
  | .queued r d => (belt dep n r d).queue
  | .inHand r d => (belt dep n r d).hand.toList
  | .relayed r =>
      (carried (unlistened (n.chains (dep.relayer r).src.pid) (n.relayers r).listen.behind)).filter
        (Parcel.isOf TranMemo.ctxInter)
  | .arrived d =>
      (carried ((n.chains d).done ++ (n.chains d).waiting)).filter (Parcel.isOf TranMemo.ctxDst)

/-- Source `x` on its way to parachain `d` may be at this stage, as `y`. -/
def OnRoute (dep : Deployment ι) (mode : Mode) (x : Parcel) (d : Int) (y : Parcel) :
    Stage ι → Prop
  | .unheard r => (dep.relayer r).src.pid = x.root.chain ∧ y = x
  | .queued r e => ∃ ty, ((dep.relayer r).src.pid, ty, e) ∈ hops mode x.root.chain d
      ∧ y = { x with type := some (.str ty) }
  | .inHand r e => ∃ ty, ((dep.relayer r).src.pid, ty, e) ∈ hops mode x.root.chain d
      ∧ y = { x with type := some (.str ty) }
  | .relayed r =>
      (x.root.chain, TranMemo.ctxInter, (dep.relayer r).src.pid) ∈ hops mode x.root.chain d
        ∧ y = { x with type := some (.str TranMemo.ctxInter) }
  | .arrived e => e = d ∧ y = { x with type := some (.str TranMemo.ctxDst) }

/-- **Nothing is lost, doubled or delivered elsewhere.** -/
structure Conserved (dep : Deployment ι) (mode : Mode) (paras : List Int) (n : Net ι) : Prop where
  /-- every source is at exactly one stage -/
  one_stage : ∀ x, IsSource paras n.chains x →
    ∃! s : Stage ι, x.root ∈ (parcelsAt dep n s).map Parcel.root
  /-- and there once -/
  once : ∀ s, ((parcelsAt dep n s).map Parcel.root).Nodup
  /-- whatever is at a stage comes from exactly one source, on whose route the stage is -/
  on_route : ∀ s, ∀ y ∈ parcelsAt dep n s, ∃ x d, IsSource paras n.chains x ∧ x.root = y.root
    ∧ (∀ x', IsSource paras n.chains x' → x'.root = y.root → x' = x)
    ∧ x.dst = some (.int d) ∧ OnRoute dep mode x d y s
  /-- so does every relayed transaction on a chain -/
  from_source : ∀ p tag k, (tag, k) ∈ (n.chains p).done ++ (n.chains p).waiting →
    k.memo "type" = some (.str TranMemo.ctxInter) ∨ k.memo "type" = some (.str TranMemo.ctxDst) →
    ∃ x d ty q, relayedRoot tag = some x.root ∧ IsSource paras n.chains x
      ∧ x.dst = some (.int d) ∧ (q, ty, p) ∈ hops mode x.root.chain d
      ∧ k.parcel x.root = { x with type := some (.str ty) }
  /-- and no two on a chain come from the same one -/
  apart : ∀ p, ((carried ((n.chains p).done ++ (n.chains p).waiting)).map Parcel.root).Nodup

end Stages

/-! ## §2. Where parcels come from. -/

variable {dep : Deployment ι} {mode : Mode} {paras : List Int} {n : Net ι}

/-- A `CTX-SRC` transaction has its own position for a root. -/
theorem rootOf_source {p h : Int} {i : Nat} {tag : Option (Origin ι)} {k : Kept}
    (hadm : Admissible mode paras p tag k) (hty : k.memo "type" = some (.str TranMemo.ctxSrc)) :
    rootOf p h i tag = ⟨p, h, i⟩ := by
  unfold rootOf
  split
  next r h' root =>
      cases (show Relayed mode paras p (k.memo "type") (k.memo "dst") from hadm) with
      | inter _ _ hinter _ _ => exact absurd (hty.symm.trans hinter) (type_ne (by decide))
      | last _ hdst _ => exact absurd (hty.symm.trans hdst) (type_ne (by decide))
  next => rfl

/-- A `CTX-INTER` or `CTX-DST` transaction was relayed. -/
theorem relayed_of_type {p : Int} {tag : Option (Origin ι)} {k : Kept}
    (hadm : Admissible mode paras p tag k)
    (hty : k.memo "type" = some (.str TranMemo.ctxInter)
      ∨ k.memo "type" = some (.str TranMemo.ctxDst)) :
    ∃ r h root, tag = some (.xtx r h root) := by
  unfold Admissible at hadm
  split at hadm
  next r h root => exact ⟨r, h, root, rfl⟩
  next =>
      rcases hty with hty | hty
      · exact absurd hty hadm.not_inter
      · exact absurd hty hadm.not_dst

/-- Parcel `y` is source `x` on its hop from the source chain of relayer `r` to `e`. -/
structure OnHop (dep : Deployment ι) (mode : Mode) (paras : List Int) (n : Net ι) (r : ι) (e : Int)
    (x y : Parcel) : Prop where
  source : IsSource paras n.chains x
  hop : ∃ d ∈ paras, ∃ ty, x.dst = some (.int d)
    ∧ ((dep.relayer r).src.pid, ty, e) ∈ hops mode x.root.chain d
    ∧ y = { x with type := some (.str ty) }

theorem OnHop.root_eq {r : ι} {e : Int} {x y : Parcel} (h : OnHop dep mode paras n r e x y) :
    y.root = x.root := by
  obtain ⟨d, _, ty, _, _, rfl⟩ := h.hop
  rfl

/-- The hops of a way have different ends. -/
theorem hops_from {p d e a a' : Int} {ty ty' : String} (hd : d ≠ interPid)
    (h : (a, ty, e) ∈ hops mode p d) (h' : (a', ty', e) ∈ hops mode p d) : a = a' ∧ ty = ty' := by
  cases mode with
  | aor =>
      rcases List.mem_cons.mp h with heq | h
      · rcases List.mem_cons.mp h' with heq' | h'
        · cases heq
          cases heq'
          exact ⟨rfl, rfl⟩
        · cases heq
          cases List.mem_singleton.mp h'
          exact absurd rfl hd
      · cases List.mem_singleton.mp h
        rcases List.mem_cons.mp h' with heq' | h'
        · cases heq'
          exact absurd rfl hd
        · cases List.mem_singleton.mp h'
          exact ⟨rfl, rfl⟩
  | nor =>
      cases List.mem_singleton.mp h
      cases List.mem_singleton.mp h'
      exact ⟨rfl, rfl⟩
  | tor =>
      cases List.mem_singleton.mp h
      cases List.mem_singleton.mp h'
      exact ⟨rfl, rfl⟩

variable [DecidableEq ι] [Sha256]

/-- A routed parcel of a parachain is a source on its first hop. -/
theorem routed_first (hw : Wired dep mode paras) (hn : NetOk dep n) (hb : Books dep mode paras n)
    {r : ι} (hr : (dep.relayer r).src.pid ∈ paras) {j i : Nat} {b : Committed (Origin ι)}
    {s : Executed (Origin ι)}
    (hb' : (n.chains (dep.relayer r).src.pid).history[j]? = some b) (hs : b.slots[i]? = some s)
    {e : Int} {y : Parcel}
    (hroute : (s.tx.kept.parcel (rootOf (dep.relayer r).src.pid ((j + 1 : Nat) : Int) i
      s.tag)).route (dep.relayer r) e = some y) :
    rootOf (dep.relayer r).src.pid ((j + 1 : Nat) : Int) i s.tag
        = ⟨(dep.relayer r).src.pid, ((j + 1 : Nat) : Int), i⟩
      ∧ OnHop dep mode paras n r e
        (s.tx.kept.parcel ⟨(dep.relayer r).src.pid, ((j + 1 : Nat) : Int), i⟩) y := by
  have hmem : (s.tag, s.tx.kept) ∈ (n.chains (dep.relayer r).src.pid).done
      ++ (n.chains (dep.relayer r).src.pid).waiting :=
    List.mem_append_left _ (mem_done (List.mem_of_getElem? hb') (List.mem_of_getElem? hs))
  have hadm := admissible_of_mem hw hn hb hmem
  have hgoes := slot_goes hw hn hb r (List.mem_of_getElem? hb') (List.mem_of_getElem? hs)
  obtain ⟨ty, hhop, rfl⟩ := Parcel.route_eq_some hroute
  rw [Kept.parcel_type, Kept.parcel_dst] at hhop
  have hdone : ∀ {d : Int}, d ∈ paras → s.tx.kept.memo "type" = some (.str TranMemo.ctxSrc) →
      s.tx.kept.memo "dst" = some (.int d) →
      ((dep.relayer r).src.pid, ty, e) ∈ hops mode (dep.relayer r).src.pid d →
      rootOf (dep.relayer r).src.pid ((j + 1 : Nat) : Int) i s.tag
          = ⟨(dep.relayer r).src.pid, ((j + 1 : Nat) : Int), i⟩
        ∧ OnHop dep mode paras n r e
          (s.tx.kept.parcel ⟨(dep.relayer r).src.pid, ((j + 1 : Nat) : Int), i⟩)
          { s.tx.kept.parcel (rootOf (dep.relayer r).src.pid ((j + 1 : Nat) : Int) i s.tag) with
            type := some (.str ty) } := by
    intro d hd hty hdst hmemhop
    have hroot : rootOf (dep.relayer r).src.pid ((j + 1 : Nat) : Int) i s.tag
        = ⟨(dep.relayer r).src.pid, ((j + 1 : Nat) : Int), i⟩ := rootOf_source hadm hty
    refine ⟨hroot, .slot hr hb' hs hty, d, hd, ty, ?_, hmemhop, ?_⟩
    · rw [Kept.parcel_dst]
      exact hdst
    · rw [hroot]
  cases hgoes with
  | direct hmode _ hty hd hdst hhop' =>
      cases hhop'.symm.trans hhop
      subst hmode
      exact hdone hd hty hdst (List.mem_singleton_self _)
  | inter hmode _ hty hd hdst hhop' =>
      cases hhop'.symm.trans hhop
      subst hmode
      exact hdone hd hty hdst List.mem_cons_self
  | last _ hp _ _ _ _ => exact absurd (hp ▸ hr) hw.relay_apart
  | nowhere _ _ hhop' => cases hhop'.symm.trans hhop

/-- **What came onto the belt of a parachain's relayer** is a source on its first hop. -/
theorem entered_first (hw : Wired dep mode paras) (hn : NetOk dep n) (hb : Books dep mode paras n)
    {r : ι} (hr : (dep.relayer r).src.pid ∈ paras) {e : Int} {y : Parcel}
    (hy : y ∈ (belt dep n r e).entered) : ∃ x, OnHop dep mode paras n r e x y := by
  obtain ⟨x, hx, hroute⟩ := List.mem_filterMap.mp hy
  obtain ⟨j, b, i, s, _, hb', hs, rfl⟩ := mem_firstParcels hx
  exact ⟨_, (routed_first hw hn hb hr hb' hs hroute).2⟩

omit [DecidableEq ι] [Sha256] in
/-- The relayed transactions of a chain are among those it accepted, in order. -/
theorem carried_accepted {c : Chain (Origin ι)} (hflow : Chain.Flow c) :
    carried (c.done ++ c.waiting) = c.accepted.filterMap
      (fun e => (relayedRoot (some e.1)).map (fun root => e.2.kept.parcel root)) := by
  have htagged : ∀ xs : List (Option (Origin ι) × Kept), carried xs
      = (Chain.tagged id xs).filterMap
        (fun e => (relayedRoot (some e.1)).map (fun root => e.2.parcel root)) := by
    intro xs
    unfold carried Chain.tagged
    rw [List.filterMap_filterMap]
    refine List.filterMap_congr fun e _ => ?_
    cases htag : e.1 with
    | none => rfl
    | some t => rfl
  rw [htagged, ← hflow, List.filterMap_map]
  rfl

omit [Sha256] in
theorem mem_carried {c : Chain (Origin ι)} (hflow : Chain.Flow c) {y : Parcel} :
    y ∈ carried (c.done ++ c.waiting) ↔ ∃ r, y ∈ delivered r c := by
  rw [carried_accepted hflow]
  unfold delivered
  constructor
  · intro hy
    obtain ⟨⟨tag, tx⟩, he, hy⟩ := List.mem_filterMap.mp hy
    cases tag with
    | xtx r h root => exact ⟨r, List.mem_filterMap.mpr ⟨_, he, by rw [sentBy, if_pos rfl]; exact hy⟩⟩
    | client => cases hy
    | header => cases hy
    | layer1 => cases hy
  · rintro ⟨r, hy⟩
    obtain ⟨⟨tag, tx⟩, he, hy⟩ := List.mem_filterMap.mp hy
    refine List.mem_filterMap.mpr ⟨_, he, ?_⟩
    cases tag with
    | xtx r' h root =>
        dsimp only [sentBy] at hy
        split at hy
        next => exact hy
        next => cases hy
    | client => cases hy
    | header => cases hy
    | layer1 => cases hy

/-- What the relay chain's relayer passes on of a slot was relayed there. -/
theorem route_slot (hw : Wired dep mode paras) (hn : NetOk dep n) (hb : Books dep mode paras n)
    {r : ι} (hr : (dep.relayer r).src.pid = interPid) {b : Committed (Origin ι)}
    {s : Executed (Origin ι)} (hb' : b ∈ (n.chains (dep.relayer r).src.pid).history)
    (hs : s ∈ b.slots) (h : Int) (i : Nat) (e : Int) :
    (s.tx.kept.parcel (rootOf (dep.relayer r).src.pid h i s.tag)).route (dep.relayer r) e
      = ((relayedRoot s.tag).map (fun root => s.tx.kept.parcel root)).bind
        (Parcel.route (dep.relayer r) e) := by
  have hmem : (s.tag, s.tx.kept) ∈ (n.chains (dep.relayer r).src.pid).done
      ++ (n.chains (dep.relayer r).src.pid).waiting := List.mem_append_left _ (mem_done hb' hs)
  have hadm := admissible_of_mem hw hn hb hmem
  have hgoes := slot_goes hw hn hb r hb' hs
  -- what comes from outside goes nowhere from the relay chain
  have hnone : FromOutside paras (dep.relayer r).src.pid (s.tx.kept.memo "type")
      (s.tx.kept.memo "dst") → ∀ root, (s.tx.kept.parcel root).route (dep.relayer r) e = none := by
    intro hout root
    unfold Parcel.route
    rw [Kept.parcel_type, Kept.parcel_dst]
    cases hgoes with
    | direct _ hp => exact absurd (hr ▸ hp) hw.relay_apart
    | inter _ hp => exact absurd (hr ▸ hp) hw.relay_apart
    | last _ _ hty => exact absurd hty hout.not_inter
    | nowhere _ _ hhop => rw [hhop]
  cases htag : s.tag with
  | none =>
      rw [htag] at hadm
      exact hnone hadm _
  | some t =>
      rw [htag] at hadm
      cases t with
      | xtx r' h' root => rfl
      | client => exact hnone hadm _
      | header => exact hnone hadm _
      | layer1 => exact hnone hadm _

/-- **What came onto the belts of the relay chain's relayer** was relayed there. -/
theorem entered_second (hw : Wired dep mode paras) (hn : NetOk dep n) (hb : Books dep mode paras n)
    {r : ι} (hr : (dep.relayer r).src.pid = interPid) (e : Int) :
    (belt dep n r e).entered
      = (carried (listened (n.chains (dep.relayer r).src.pid)
        (n.relayers r).listen.behind)).filterMap (Parcel.route (dep.relayer r) e) := by
  show (parcelsOf _ _).filterMap _ = _
  unfold parcelsOf carried listened
  rw [List.filterMap_flatMap, List.filterMap_map, List.filterMap_filterMap,
    List.filterMap_flatMap, ← List.zipIdx_map_fst 1 (n.chains (dep.relayer r).src.pid).history,
    ← List.map_take, List.flatMap_map, List.zipIdx_map_fst]
  refine List.flatMap_congr fun b hmem => ?_
  have hb' : b.1 ∈ (n.chains (dep.relayer r).src.pid).history := by
    have hin := List.mem_map_of_mem (f := Prod.fst) (List.take_subset _ _ hmem)
    rwa [List.zipIdx_map_fst] at hin
  unfold blockParcels
  rw [List.filterMap_map]
  have hfst : ∀ g : Executed (Origin ι) → Option Parcel,
      b.1.slots.filterMap g = b.1.slots.zipIdx.filterMap (fun s => g s.1) := by
    intro g
    rw [← List.zipIdx_map_fst 0 b.1.slots, List.filterMap_map, List.zipIdx_map_fst]
    rfl
  rw [hfst]
  refine List.filterMap_congr fun s hs => ?_
  have hslot : s.1 ∈ b.1.slots := by
    have hin := List.mem_map_of_mem (f := Prod.fst) hs
    rwa [List.zipIdx_map_fst] at hin
  exact route_slot hw hn hb hr hb' hslot b.2 s.2 e

omit [DecidableEq ι] [Sha256] in
theorem carried_subset {xs ys : List (Option (Origin ι) × Kept)} {y : Parcel} (h : xs ⊆ ys)
    (hy : y ∈ carried xs) : y ∈ carried ys := by
  obtain ⟨e, he, hy⟩ := List.mem_filterMap.mp hy
  exact List.mem_filterMap.mpr ⟨e, h he, hy⟩

/-- A relayed transaction on a chain, as its origin says. -/
theorem carried_relayed (hw : Wired dep mode paras) (hn : NetOk dep n)
    (hb : Books dep mode paras n) {p : Int} {y : Parcel}
    (hy : y ∈ carried ((n.chains p).done ++ (n.chains p).waiting)) :
    Relayed mode paras p y.type y.dst := by
  obtain ⟨⟨tag, k⟩, he, hy⟩ := List.mem_filterMap.mp hy
  have hadm := admissible_of_mem hw hn hb he
  obtain ⟨root, hroot, rfl⟩ := Option.map_eq_some_iff.mp hy
  rw [Kept.parcel_type, Kept.parcel_dst]
  unfold relayedRoot at hroot
  split at hroot
  next r h root' htag =>
      have htag : tag = some (.xtx r h root') := htag
      rw [htag] at hadm
      exact hadm
  next => cases hroot

/-- **What came onto a belt of the relay chain's relayer** is `CTX-INTER` there. -/
theorem entered_relay (hw : Wired dep mode paras) (hn : NetOk dep n) (hb : Books dep mode paras n)
    {r : ι} (hr : (dep.relayer r).src.pid = interPid) {e : Int} {y : Parcel}
    (hy : y ∈ (belt dep n r e).entered) :
    mode = .aor ∧ e ∈ paras ∧ ∃ z ∈ carried (listened (n.chains interPid)
        (n.relayers r).listen.behind), z.type = some (.str TranMemo.ctxInter)
      ∧ z.dst = some (.int e) ∧ y = { z with type := some (.str TranMemo.ctxDst) } := by
  rw [entered_second hw hn hb hr e] at hy
  obtain ⟨z, hz, hroute⟩ := List.mem_filterMap.mp hy
  obtain ⟨ty, hhop, rfl⟩ := Parcel.route_eq_some hroute
  rw [hr] at hz
  have hall : z ∈ carried ((n.chains interPid).done ++ (n.chains interPid).waiting) := by
    rw [← listened_append _ (n.relayers r).listen.behind]
    exact carried_subset (List.subset_append_left _ _) hz
  cases carried_relayed hw hn hb hall with
  | @inter d haor _ hty hd hdst =>
      have hneg : d ≠ -1 := fun heq => hw.pids (heq ▸ hd)
      rw [hty, hdst, hopOf_last ((hw.mode_eq r).trans haor) hneg] at hhop
      cases hhop
      exact ⟨haor, hd, z, hz, hty, hdst, rfl⟩
  | last hp => exact absurd hp hw.relay_apart

omit [Sha256] in
/-- What a chain accepted from a relayer came onto the belt between them. -/
theorem delivered_entered (hb : Books dep mode paras n) {r : ι} {p : Int} {y : Parcel}
    (hy : y ∈ delivered r (n.chains p)) : y ∈ (belt dep n r p).entered :=
  (hb.whole r p).mem_iff.mpr ⟨.delivered, hy⟩

/-- **Whatever came onto a belt is a source on one of its hops.** -/
theorem entered_onHop (hw : Wired dep mode paras) (hn : NetOk dep n) (hb : Books dep mode paras n)
    {r : ι} {e : Int} {y : Parcel} (hy : y ∈ (belt dep n r e).entered) :
    ∃ x, OnHop dep mode paras n r e x y := by
  rcases hw.source r with hpara | ⟨haor, hrelay⟩
  · exact entered_first hw hn hb hpara hy
  · -- over the relay chain, where it came from a parachain
    obtain ⟨_, he, z, hz, hty, hdst, rfl⟩ := entered_relay hw hn hb hrelay hy
    have hall : z ∈ carried ((n.chains interPid).done ++ (n.chains interPid).waiting) := by
      rw [← listened_append _ (n.relayers r).listen.behind]
      exact carried_subset (List.subset_append_left _ _) hz
    obtain ⟨r', hz'⟩ := (mem_carried (hn.chains interPid).flow).mp hall
    have hentered := delivered_entered hb hz'
    have hpara' : (dep.relayer r').src.pid ∈ paras := by
      rcases hw.source r' with hpara | ⟨_, hrelay'⟩
      · exact hpara
      · exact absurd (entered_relay hw hn hb hrelay' hentered).2.1 hw.relay_apart
    obtain ⟨x, hsource, d, hd, ty, hxdst, hhop, rfl⟩ := entered_first hw hn hb hpara' hentered
    have heq : d = e := Json.int.inj (Option.some.inj (hxdst.symm.trans hdst))
    subst heq
    refine ⟨x, hsource, d, hd, TranMemo.ctxDst, hxdst, ?_, rfl⟩
    subst haor
    rw [hrelay]
    exact List.mem_cons_of_mem _ (List.mem_singleton_self _)

/-! ## §3. Different transactions, different roots. -/

/-- **The committed sources of a chain** have different roots. -/
theorem sources_nodup (hw : Wired dep mode paras) (hn : NetOk dep n) (hb : Books dep mode paras n)
    (p : Int) : (((parcelsOf p ((n.chains p).history.zipIdx 1)).filter
      (Parcel.isOf TranMemo.ctxSrc)).map Parcel.root).Nodup := by
  unfold List.Nodup
  rw [List.pairwise_map, List.pairwise_filter, parcelsOf, List.flatMap_def]
  refine pairwise_flatten_of_positions
    (P := fun j i x => x.isOf TranMemo.ctxSrc = true → x.root = ⟨p, ((j + 1 : Nat) : Int), i⟩)
    ?_ ?_
  · intro j i j' i' x y hne hx hy hsx hsy hroot
    rw [hx hsx, hy hsy] at hroot
    obtain ⟨_, hheight, hidx⟩ := Root.mk.inj hroot
    have hj : j = j' := by omega
    exact hne (by rw [hj, hidx])
  · intro j row hrow i x hx hsrc
    rw [List.getElem?_map, List.getElem?_zipIdx] at hrow
    obtain ⟨b, hb', rfl⟩ := Option.map_eq_some_iff.mp hrow
    obtain ⟨b, hbj, rfl⟩ := Option.map_eq_some_iff.mp hb'
    unfold blockParcels at hx
    rw [List.getElem?_map, List.getElem?_zipIdx] at hx
    obtain ⟨s, hs, rfl⟩ := Option.map_eq_some_iff.mp hx
    obtain ⟨s, hsi, rfl⟩ := Option.map_eq_some_iff.mp hs
    have hmem : (s.tag, s.tx.kept) ∈ (n.chains p).done ++ (n.chains p).waiting :=
      List.mem_append_left _ (mem_done (List.mem_of_getElem? hbj) (List.mem_of_getElem? hsi))
    have hty := Parcel.isOf_iff.mp hsrc
    dsimp only [Kept.parcel_root]
    rw [rootOf_source (admissible_of_mem hw hn hb hmem) hty, Nat.add_comm 1 j, Nat.zero_add]

/-- What a parachain's relayer passes on are sources. -/
theorem routed_source (hw : Wired dep mode paras) (hn : NetOk dep n) (hb : Books dep mode paras n)
    {r : ι} (hr : (dep.relayer r).src.pid ∈ paras) {x y : Parcel} {e : Int}
    (hx : x ∈ parcelsOf (dep.relayer r).src.pid
      ((n.chains (dep.relayer r).src.pid).history.zipIdx 1))
    (hroute : x.route (dep.relayer r) e = some y) : x.isOf TranMemo.ctxSrc = true := by
  obtain ⟨b, hb', i, s, hs, rfl⟩ := mem_parcelsOf.mp hx
  have hin := List.mem_map_of_mem (f := Prod.fst) hb'
  rw [List.zipIdx_map_fst] at hin
  have hgoes := slot_goes hw hn hb r hin (List.mem_of_getElem? hs)
  obtain ⟨ty, hhop, _⟩ := Parcel.route_eq_some hroute
  rw [Kept.parcel_type, Kept.parcel_dst] at hhop
  cases hgoes with
  | direct _ _ hty => exact Parcel.isOf_iff.mpr hty
  | inter _ _ hty => exact Parcel.isOf_iff.mpr hty
  | last _ hp => exact absurd (hp ▸ hr) hw.relay_apart
  | nowhere _ _ hhop' => cases hhop'.symm.trans hhop

/-- The way of a parachain's relayer, heard or not: no root twice. -/
theorem first_nodup (hw : Wired dep mode paras) (hn : NetOk dep n) (hb : Books dep mode paras n)
    {r : ι} (hr : (dep.relayer r).src.pid ∈ paras) (e : Int) :
    (((belt dep n r e).entered ++ (laterParcels (dep.relayer r).src.pid
      (n.chains (dep.relayer r).src.pid).history (n.relayers r).listen.behind).filterMap
        (Parcel.route (dep.relayer r) e)).map Parcel.root).Nodup := by
  have hall : (belt dep n r e).entered ++ (laterParcels (dep.relayer r).src.pid
      (n.chains (dep.relayer r).src.pid).history (n.relayers r).listen.behind).filterMap
        (Parcel.route (dep.relayer r) e)
      = ((parcelsOf (dep.relayer r).src.pid
        ((n.chains (dep.relayer r).src.pid).history.zipIdx 1)).filter
          (Parcel.isOf TranMemo.ctxSrc)).filterMap (Parcel.route (dep.relayer r) e) := by
    show List.filterMap _ (firstParcels _ _ (n.relayers r).listen.behind) ++ _ = _
    rw [← List.filterMap_append, firstParcels_append, List.filterMap_filter]
    refine List.filterMap_congr fun x hx => ?_
    cases hroute : x.route (dep.relayer r) e with
    | none => exact (ite_self none).symm
    | some y => rw [if_pos (routed_source hw hn hb hr hx hroute)]
  rw [hall]
  refine (sources_nodup hw hn hb _).sublist (map_filterMap_sublist (fun x y h => ?_) _)
  obtain ⟨ty, _, rfl⟩ := Parcel.route_eq_some h
  rfl

omit [Sha256] in
/-- **Roots are different on a chain** where those of each sender are, and no two senders
share one. -/
theorem carried_nodup_of {c : Chain (Origin ι)} (hflow : Chain.Flow c)
    (hown : ∀ r, ((delivered r c).map Parcel.root).Nodup)
    (hsender : ∀ r r' y y', y ∈ delivered r c → y' ∈ delivered r' c → y.root = y'.root → r = r') :
    ((carried (c.done ++ c.waiting)).map Parcel.root).Nodup := by
  have hroots : (carried (c.done ++ c.waiting)).map Parcel.root
      = (c.accepted.filterMap (fun e => sentAs e.1)).map Prod.snd := by
    rw [carried_accepted hflow, List.map_filterMap, List.map_filterMap]
    refine List.filterMap_congr fun e _ => ?_
    cases e.1 with
    | xtx r h root => rfl
    | client => rfl
    | header => rfl
    | layer1 => rfl
  have hkind : ∀ r, (c.accepted.filterMap (fun e => sentAs e.1)).filter (fun x => x.1 = r)
      = ((delivered r c).map Parcel.root).map (fun root => (r, root)) := by
    intro r
    unfold delivered
    rw [List.filter_filterMap, List.map_map, List.map_filterMap]
    refine List.filterMap_congr fun e _ => ?_
    cases e.1 with
    | xtx r' h root =>
        by_cases hr : r' = r
        · subst hr
          simp [sentAs, sentBy]
        · simp [sentAs, sentBy, hr]
    | client => rfl
    | header => rfl
    | layer1 => rfl
  rw [hroots]
  have hpairs : (c.accepted.filterMap (fun e => sentAs e.1)).Nodup := by
    refine nodup_of_kinds Prod.fst fun r => ?_
    rw [hkind r]
    exact (hown r).map (fun _ _ h => (Prod.mk.inj h).2)
  have hof : ∀ x ∈ c.accepted.filterMap (fun e => sentAs e.1),
      ∃ y ∈ delivered x.1 c, y.root = x.2 := by
    intro x hx
    have hin : x ∈ (c.accepted.filterMap (fun e => sentAs e.1)).filter (fun z => z.1 = x.1) :=
      List.mem_filter.mpr ⟨hx, decide_eq_true rfl⟩
    rw [hkind x.1, List.map_map] at hin
    obtain ⟨y, hy, heq⟩ := List.mem_map.mp hin
    exact ⟨y, hy, (Prod.mk.inj heq).2⟩
  refine hpairs.map_on fun x hx x' hx' hroot => ?_
  obtain ⟨y, hy, hyx⟩ := hof x hx
  obtain ⟨y', hy', hyx'⟩ := hof x' hx'
  have hr := hsender _ _ y y' hy hy' (hyx.trans (hroot.trans hyx'.symm))
  exact Prod.ext hr hroot

/-- **No two relayers send a transaction of one root** to one chain. -/
theorem sender_unique (hw : Wired dep mode paras) (hn : NetOk dep n) (hb : Books dep mode paras n)
    {r r' : ι} {p : Int} {y y' : Parcel} (hy : y ∈ (belt dep n r p).entered)
    (hy' : y' ∈ (belt dep n r' p).entered) (hroot : y.root = y'.root) : r = r' := by
  obtain ⟨x, hx⟩ := entered_onHop hw hn hb hy
  obtain ⟨x', hx'⟩ := entered_onHop hw hn hb hy'
  have hsame := hx.source.eq_of_root hx'.source
    (hx.root_eq.symm.trans (hroot.trans hx'.root_eq))
  subst hsame
  obtain ⟨d, hd, ty, hdst, hhop, _⟩ := hx.hop
  obtain ⟨d', _, ty', hdst', hhop', _⟩ := hx'.hop
  cases hdst.symm.trans hdst'
  exact hw.apart r r' (hops_from (fun heq => hw.relay_apart (heq ▸ hd)) hhop hhop').1

omit [Sha256] in
/-- What is accepted from a relayer has different roots if what came onto the belt has. -/
theorem delivered_nodup (hb : Books dep mode paras n) {r : ι} {p : Int}
    (h : ((belt dep n r p).entered.map Parcel.root).Nodup) :
    ((delivered r (n.chains p)).map Parcel.root).Nodup :=
  h.sublist (((hb.whole r p).sublist .delivered).map Parcel.root)

/-- What came onto the belts of a parachain's relayer has different roots. -/
theorem first_entered_nodup (hw : Wired dep mode paras) (hn : NetOk dep n)
    (hb : Books dep mode paras n) {r : ι} (hr : (dep.relayer r).src.pid ∈ paras) (e : Int) :
    ((belt dep n r e).entered.map Parcel.root).Nodup := by
  have hall := first_nodup hw hn hb hr e
  rw [List.map_append] at hall
  exact (List.nodup_append.mp hall).1

theorem relay_nodup (hw : Wired dep mode paras) (hn : NetOk dep n) (hb : Books dep mode paras n) :
    ((carried ((n.chains interPid).done ++ (n.chains interPid).waiting)).map Parcel.root).Nodup := by
  refine carried_nodup_of (hn.chains interPid).flow (fun r => ?_) (fun r r' y y' hy hy' hroot => ?_)
  · rcases hw.source r with hpara | ⟨_, hrelay⟩
    · exact delivered_nodup hb (first_entered_nodup hw hn hb hpara interPid)
    · -- the relay chain's relayer sends nothing to the relay chain
      have hnil : delivered r (n.chains interPid) = [] := by
        refine List.eq_nil_iff_forall_not_mem.mpr fun y hy => ?_
        exact hw.relay_apart (entered_relay hw hn hb hrelay (delivered_entered hb hy)).2.1
      rw [hnil]
      exact List.nodup_nil
  · exact sender_unique hw hn hb (delivered_entered hb hy) (delivered_entered hb hy') hroot

/-- The way of the relay chain's relayer, heard or not: no root twice. -/
theorem second_nodup (hw : Wired dep mode paras) (hn : NetOk dep n) (hb : Books dep mode paras n)
    {r : ι} (hr : (dep.relayer r).src.pid = interPid) (e : Int) :
    (((belt dep n r e).entered ++ (carried (unlistened (n.chains (dep.relayer r).src.pid)
      (n.relayers r).listen.behind)).filterMap (Parcel.route (dep.relayer r) e)).map
        Parcel.root).Nodup := by
  rw [entered_second hw hn hb hr e, ← List.filterMap_append, ← carried_append, listened_append, hr]
  refine (relay_nodup hw hn hb).sublist (map_filterMap_sublist (fun x y h => ?_) _)
  obtain ⟨ty, _, rfl⟩ := Parcel.route_eq_some h
  rfl

/-- **No root came onto a belt twice.** -/
theorem entered_nodup (hw : Wired dep mode paras) (hn : NetOk dep n) (hb : Books dep mode paras n)
    (r : ι) (e : Int) : ((belt dep n r e).entered.map Parcel.root).Nodup := by
  rcases hw.source r with hpara | ⟨_, hrelay⟩
  · exact first_entered_nodup hw hn hb hpara e
  · have hall := second_nodup hw hn hb hrelay e
    rw [List.map_append] at hall
    exact (List.nodup_append.mp hall).1

/-- **No chain has accepted two relayed transactions of one root.** -/
theorem carried_nodup (hw : Wired dep mode paras) (hn : NetOk dep n) (hb : Books dep mode paras n)
    (p : Int) : ((carried ((n.chains p).done ++ (n.chains p).waiting)).map Parcel.root).Nodup :=
  carried_nodup_of (hn.chains p).flow
    (fun r => delivered_nodup hb (entered_nodup hw hn hb r p))
    (fun _ _ _ _ hy hy' hroot =>
      sender_unique hw hn hb (delivered_entered hb hy) (delivered_entered hb hy') hroot)

/-! ## §4. Stages of a route. -/

/-- No stage holds two parcels of one root. -/
theorem stage_nodup (hw : Wired dep mode paras) (hn : NetOk dep n) (hb : Books dep mode paras n)
    (s : Stage ι) : ((parcelsAt dep n s).map Parcel.root).Nodup := by
  have hchain : ∀ (p : Int) (xs : List (Option (Origin ι) × Kept)) (ty : String),
      (carried xs).Sublist (carried ((n.chains p).done ++ (n.chains p).waiting)) →
      (((carried xs).filter (Parcel.isOf ty)).map Parcel.root).Nodup :=
    fun p xs ty h => (carried_nodup hw hn hb p).sublist ((List.filter_sublist.trans h).map _)
  cases s with
  | unheard r =>
      refine (sources_nodup hw hn hb (dep.relayer r).src.pid).sublist ?_
      rw [← firstParcels_append _ _ (n.relayers r).listen.behind]
      exact ((List.sublist_append_right _ _).filter _).map _
  | queued r d =>
      exact (entered_nodup hw hn hb r d).sublist (((hb.whole r d).sublist .queue).map _)
  | inHand r d =>
      exact (entered_nodup hw hn hb r d).sublist (((hb.whole r d).sublist .hand).map _)
  | relayed r =>
      refine hchain (dep.relayer r).src.pid _ _ ?_
      rw [← listened_append _ (n.relayers r).listen.behind, carried_append]
      exact List.sublist_append_right _ _
  | arrived d => exact hchain d _ _ (List.Sublist.refl _)

/-- A `CTX-SRC` parcel of a relayer's source chain is a source. -/
theorem isSource_of_parcel (hw : Wired dep mode paras) (hn : NetOk dep n)
    (hb : Books dep mode paras n) {p : Int} {y : Parcel}
    (hy : y ∈ parcelsOf p ((n.chains p).history.zipIdx 1))
    (hty : y.isOf TranMemo.ctxSrc = true) :
    IsSource paras n.chains y ∧ y.root.chain = p ∧ ∃ d ∈ paras, y.dst = some (.int d) := by
  obtain ⟨b, hb', i, s, hs, rfl⟩ := mem_parcelsOf.mp hy
  obtain ⟨b, h⟩ := b
  obtain ⟨j, hj⟩ := List.getElem?_of_mem hb'
  rw [List.getElem?_zipIdx] at hj
  obtain ⟨b', hbj, heq⟩ := Option.map_eq_some_iff.mp hj
  cases heq
  have hty := Parcel.isOf_iff.mp hty
  have hmem : (s.tag, s.tx.kept) ∈ (n.chains p).done ++ (n.chains p).waiting :=
    List.mem_append_left _ (mem_done (List.mem_of_getElem? hbj) (List.mem_of_getElem? hs))
  have hadm := admissible_of_mem hw hn hb hmem
  rw [Kept.parcel_type] at hty
  have hout : FromOutside paras p (s.tx.kept.memo "type") (s.tx.kept.memo "dst") := by
    unfold Admissible at hadm
    split at hadm
    next =>
        cases hadm with
        | inter _ _ hinter => exact absurd (hty.symm.trans hinter) (type_ne (by decide))
        | last _ hdst => exact absurd (hty.symm.trans hdst) (type_ne (by decide))
    next => exact hadm
  obtain ⟨hp, d, hd, _, hdst⟩ := hout.source hty
  rw [rootOf_source hadm hty, Nat.add_comm 1 j]
  refine ⟨.slot hp hbj hs hty, rfl, d, hd, ?_⟩
  rw [Kept.parcel_dst]
  exact hdst

/-- A source stands among the parcels of its chain. -/
theorem mem_parcels_of_source (hw : Wired dep mode paras) (hn : NetOk dep n)
    (hb : Books dep mode paras n) {x : Parcel} (h : IsSource paras n.chains x) :
    x ∈ parcelsOf x.root.chain ((n.chains x.root.chain).history.zipIdx 1)
      ∧ x.isOf TranMemo.ctxSrc = true := by
  cases h with
  | @slot p j i b s hp hbj hs hty =>
      have hmem : (s.tag, s.tx.kept) ∈ (n.chains p).done ++ (n.chains p).waiting :=
        List.mem_append_left _ (mem_done (List.mem_of_getElem? hbj) (List.mem_of_getElem? hs))
      refine ⟨mem_parcelsOf.mpr ⟨(b, j + 1), ?_, i, s, hs, ?_⟩, Parcel.isOf_iff.mpr hty⟩
      · refine List.mem_of_getElem? (i := j) ?_
        show ((n.chains p).history.zipIdx 1)[j]? = _
        rw [List.getElem?_zipIdx, hbj, Option.map_some, Nat.add_comm]
      · show _ = s.tx.kept.parcel (rootOf p ((j + 1 : Nat) : Int) i s.tag)
        rw [rootOf_source (admissible_of_mem hw hn hb hmem) hty]

omit [DecidableEq ι] [Sha256] in
/-- Towards the relay chain it is from the source chain, and `CTX-INTER`; at its
destination it is `CTX-DST`. -/
theorem hops_types {p d a e : Int} {ty : String} (h : (a, ty, e) ∈ hops mode p d) :
    (ty = TranMemo.ctxInter → a = p) ∧ (ty = TranMemo.ctxDst → e = d) := by
  have hne : TranMemo.ctxDst ≠ TranMemo.ctxInter := by decide
  cases mode with
  | aor =>
      rcases List.mem_cons.mp h with heq | h
      · cases heq
        exact ⟨fun _ => rfl, fun heq => absurd heq.symm hne⟩
      · cases List.mem_singleton.mp h
        exact ⟨fun heq => absurd heq hne, fun _ => rfl⟩
  | nor =>
      cases List.mem_singleton.mp h
      exact ⟨fun _ => rfl, fun _ => rfl⟩
  | tor =>
      cases List.mem_singleton.mp h
      exact ⟨fun _ => rfl, fun _ => rfl⟩

/-- **Whatever is at a stage comes from one source, on whose route the stage is.** -/
theorem stage_onRoute (hw : Wired dep mode paras) (hn : NetOk dep n) (hb : Books dep mode paras n)
    (s : Stage ι) (y : Parcel) (hy : y ∈ parcelsAt dep n s) :
    ∃ x d, IsSource paras n.chains x ∧ x.root = y.root
      ∧ (∀ x', IsSource paras n.chains x' → x'.root = y.root → x' = x)
      ∧ x.dst = some (.int d) ∧ OnRoute dep mode x d y s := by
  have hone : ∀ {x : Parcel} {d : Int}, IsSource paras n.chains x → x.root = y.root →
      x.dst = some (.int d) → OnRoute dep mode x d y s →
      ∃ x d, IsSource paras n.chains x ∧ x.root = y.root
        ∧ (∀ x', IsSource paras n.chains x' → x'.root = y.root → x' = x)
        ∧ x.dst = some (.int d) ∧ OnRoute dep mode x d y s :=
    fun {x} {d} hx hroot hdst hroute => ⟨x, d, hx, hroot,
      fun x' hx' hroot' => hx'.eq_of_root hx (hroot'.trans hroot.symm), hdst, hroute⟩
  have hcarried : ∀ {p : Int} {xs : List (Option (Origin ι) × Kept)},
      xs ⊆ (n.chains p).done ++ (n.chains p).waiting → y ∈ carried xs →
      ∃ r x, OnHop dep mode paras n r p x y := by
    intro p xs hxs hy
    obtain ⟨r, hr⟩ := (mem_carried (hn.chains p).flow).mp (carried_subset hxs hy)
    exact ⟨r, entered_onHop hw hn hb (delivered_entered hb hr)⟩
  cases s with
  | unheard r =>
      obtain ⟨hmem, hty⟩ := List.mem_filter.mp hy
      have hall : y ∈ parcelsOf (dep.relayer r).src.pid
          ((n.chains (dep.relayer r).src.pid).history.zipIdx 1) := by
        rw [← firstParcels_append _ _ (n.relayers r).listen.behind]
        exact List.mem_append_right _ hmem
      obtain ⟨hsource, hchain, d, _, hdst⟩ := isSource_of_parcel hw hn hb hall hty
      exact hone hsource rfl hdst ⟨hchain.symm, rfl⟩
  | queued r e =>
      obtain ⟨x, hx⟩ := entered_onHop hw hn hb ((hb.whole r e).mem_iff.mpr ⟨.queue, hy⟩)
      obtain ⟨d, _, ty, hdst, hhop, heq⟩ := hx.hop
      exact hone hx.source hx.root_eq.symm hdst ⟨ty, hhop, heq⟩
  | inHand r e =>
      obtain ⟨x, hx⟩ := entered_onHop hw hn hb ((hb.whole r e).mem_iff.mpr ⟨.hand, hy⟩)
      obtain ⟨d, _, ty, hdst, hhop, heq⟩ := hx.hop
      exact hone hx.source hx.root_eq.symm hdst ⟨ty, hhop, heq⟩
  | relayed r =>
      obtain ⟨hmem, hty⟩ := List.mem_filter.mp hy
      have hsub : unlistened (n.chains (dep.relayer r).src.pid) (n.relayers r).listen.behind
          ⊆ (n.chains (dep.relayer r).src.pid).done
            ++ (n.chains (dep.relayer r).src.pid).waiting := by
        rw [← listened_append _ (n.relayers r).listen.behind]
        exact List.subset_append_right _ _
      obtain ⟨r', x, hx⟩ := hcarried hsub hmem
      obtain ⟨d, _, ty, hdst, hhop, heq⟩ := hx.hop
      have hinter : ty = TranMemo.ctxInter := by
        have h := Parcel.isOf_iff.mp hty
        rw [heq] at h
        exact Json.str.inj (Option.some.inj h)
      have hfrom := (hops_types hhop).1 hinter
      subst hinter
      rw [hfrom] at hhop
      exact hone hx.source hx.root_eq.symm hdst ⟨hhop, heq⟩
  | arrived e =>
      obtain ⟨hmem, hty⟩ := List.mem_filter.mp hy
      obtain ⟨r', x, hx⟩ := hcarried (List.Subset.refl _) hmem
      obtain ⟨d, _, ty, hdst, hhop, heq⟩ := hx.hop
      have hlast : ty = TranMemo.ctxDst := by
        have h := Parcel.isOf_iff.mp hty
        rw [heq] at h
        exact Json.str.inj (Option.some.inj h)
      have hto := (hops_types hhop).2 hlast
      subst hlast
      exact hone hx.source hx.root_eq.symm hdst ⟨hto, heq⟩

/-- **Every relayed transaction on a chain comes from a source.** -/
theorem chain_onHop (hw : Wired dep mode paras) (hn : NetOk dep n) (hb : Books dep mode paras n)
    {p : Int} {tag : Option (Origin ι)} {k : Kept}
    (h : (tag, k) ∈ (n.chains p).done ++ (n.chains p).waiting)
    (hty : k.memo "type" = some (.str TranMemo.ctxInter)
      ∨ k.memo "type" = some (.str TranMemo.ctxDst)) :
    ∃ x d ty q, relayedRoot tag = some x.root ∧ IsSource paras n.chains x
      ∧ x.dst = some (.int d) ∧ (q, ty, p) ∈ hops mode x.root.chain d
      ∧ k.parcel x.root = { x with type := some (.str ty) } := by
  obtain ⟨r, h', root, rfl⟩ := relayed_of_type (admissible_of_mem hw hn hb h) hty
  have hmem : k.parcel root ∈ carried ((n.chains p).done ++ (n.chains p).waiting) :=
    List.mem_filterMap.mpr ⟨_, h, rfl⟩
  obtain ⟨r', hr'⟩ := (mem_carried (hn.chains p).flow).mp hmem
  obtain ⟨x, hx⟩ := entered_onHop hw hn hb (delivered_entered hb hr')
  obtain ⟨d, _, ty, hdst, hhop, heq⟩ := hx.hop
  have hroot : root = x.root := hx.root_eq
  subst hroot
  exact ⟨x, d, ty, _, rfl, hx.source, hdst, hhop, heq⟩

end Net

end TorSim
