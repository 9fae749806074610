/-
  TorSim.Network.Parcels — the way from a committed transaction to the next chain.

  Between a relayer and one of its destinations lies a belt: what the relayer has
  listened to and meant for the destination came in, `queue_xtx` is its queue,
  `deal_xtx` its hand, and the submissions the destination accepted are what was
  delivered.  Items are told apart by where they first were committed.

  Main results:
    * `forwards_parcels` — what a block puts into a queue, parcel by parcel.
    * `delivered_effect` — only the relayer's own sendings deliver.
    * `admissible_of_mem` — **what a transaction on a chain may be**.
-/
import TorSim.Lib.Belt
import TorSim.Relayer.ListenLaws
import TorSim.Network.Timelines

namespace TorSim

open TorSim.Lib

variable {ι : Type}

/-! ## §1. Parcels. -/

/-- A transaction on its way: where it first was committed, its type, and its memo but
for type, source and time marks. -/
structure Parcel where
  root : Root
  type : Option Json
  entries : String → Option Json

def Kept.parcel (root : Root) (k : Kept) : Parcel where
  root := root
  type := k.memo "type"
  entries := fun key => if key = "type" ∨ key = "src" then none else k.memo key

namespace Parcel

/-- The destination in the memo. -/
def dst (x : Parcel) : Option Json := x.entries "dst"

/-- What a relayer makes of a committed parcel for destination `d`. -/
def route (cfg : RelayerConfig) (d : Int) (x : Parcel) : Option Parcel :=
  match RelayerUnix.hopOf cfg x.type x.dst with
  | some (ty, pid) => if pid = d then some { x with type := some (.str ty) } else none
  | none => none

/-- A routed parcel is the same but for its type. -/
theorem route_eq_some {cfg : RelayerConfig} {d : Int} {x y : Parcel} (h : x.route cfg d = some y) :
    ∃ ty, RelayerUnix.hopOf cfg x.type x.dst = some (ty, d)
      ∧ y = { x with type := some (.str ty) } := by
  unfold route at h
  split at h
  next ty pid hhop =>
      split at h
      next hpid =>
          cases h
          subst hpid
          exact ⟨ty, hhop, rfl⟩
      next => cases h
  next => cases h

end Parcel

theorem Transaction.kept_memo (tx : Transaction) {key : String} (h : key ≠ "ts") :
    tx.kept.memo key = memoField tx.memo key := if_neg h

@[simp] theorem Kept.parcel_root (root : Root) (k : Kept) : (k.parcel root).root = root := rfl

@[simp] theorem Kept.parcel_type (root : Root) (k : Kept) :
    (k.parcel root).type = k.memo "type" := rfl

@[simp] theorem Kept.parcel_dst (root : Root) (k : Kept) :
    (k.parcel root).dst = k.memo "dst" := by
  show (if "dst" = "type" ∨ "dst" = "src" then none else k.memo "dst") = _
  exact if_neg (by decide)

/-- The parcel of a transaction depends on its memo only. -/
theorem parcel_congr {tx tx' : Transaction} (root : Root)
    (h : ∀ key, key ≠ "ts" → memoField tx'.memo key = memoField tx.memo key) :
    tx'.kept.parcel root = tx.kept.parcel root := by
  have hmemo : tx'.kept.memo = tx.kept.memo := by
    funext key
    by_cases hkey : key = "ts"
    · subst hkey
      rfl
    · rw [tx'.kept_memo hkey, tx.kept_memo hkey, h key hkey]
  unfold Kept.parcel
  rw [hmemo]

/-- A forwarded transaction is the routed parcel. -/
theorem parcel_forwarded {tx tx' : Transaction} {ty : String}
    (h : RelayerUnix.Forwarded tx tx' ty) (root : Root) :
    tx'.kept.parcel root = { tx.kept.parcel root with type := some (.str ty) } := by
  have htype : tx'.kept.memo "type" = some (.str ty) := h.type
  have hentries : (tx'.kept.parcel root).entries = (tx.kept.parcel root).entries := by
    funext key
    show (if key = "type" ∨ key = "src" then none else tx'.kept.memo key) = _
    by_cases hkey : key = "type" ∨ key = "src"
    · rw [if_pos hkey]
      exact (if_pos hkey).symm
    · rw [if_neg hkey]
      refine Eq.trans ?_ (if_neg hkey).symm
      obtain ⟨h1, h2⟩ := not_or.mp hkey
      by_cases hts : key = "ts"
      · subst hts
        rfl
      · rw [tx'.kept_memo hts, tx.kept_memo hts, h.memo key h1 h2 hts]
  exact congrArg₂ (fun ty entries => Parcel.mk root ty entries) htype hentries

/-- What is forwarded of a transaction goes to `d`, elsewhere or nowhere, as its parcel
does. -/
theorem addressed_parcel {cfg : RelayerConfig} {time : PyFloat} {tx : Transaction}
    {next : Option (Int × Transaction)} (hf : RelayerUnix.forward cfg time tx = .ok next)
    (hstatus : tx.status = .success) (root : Root) (d : Int) :
    (RelayerUnix.addressed root next d).map (fun e => e.2.kept.parcel e.1)
      = [tx.kept.parcel root].filterMap (Parcel.route cfg d) := by
  have hroute : Parcel.route cfg d (tx.kept.parcel root)
      = match RelayerUnix.hopOf cfg (memoField tx.memo "type") (memoField tx.memo "dst") with
        | some (ty, pid) => if pid = d then
            some { tx.kept.parcel root with type := some (.str ty) } else none
        | none => none := by
    rw [Parcel.route, Kept.parcel_type, Kept.parcel_dst, tx.kept_memo (by decide),
      tx.kept_memo (by decide)]
  rw [List.filterMap_cons, List.filterMap_nil, hroute]
  rcases RelayerUnix.forward_eq_ok hf with ⟨rfl, hno⟩ | ⟨p, tx', ty, rfl, _, hhop, hfwd⟩
  · rw [hno hstatus]
    rfl
  · rw [hhop]
    dsimp only [RelayerUnix.addressed]
    by_cases hp : p = d
    · rw [if_pos hp, if_pos hp, List.map_singleton, parcel_forwarded hfwd]
    · rw [if_neg hp, if_neg hp]
      rfl

/-- **What a block puts into a queue**, parcel by parcel. -/
theorem forwards_parcels {cfg : RelayerConfig} (time : Nat → PyFloat) (tag : Nat → Root) (d : Int)
    {txs : List Transaction} (hst : ∀ tx ∈ txs, Stamped tx.memo)
    (hs : ∀ tx ∈ txs, tx.status = .success)
    (hall : ∀ tx ∈ txs, RelayerUnix.passable cfg tx = true) (i : Nat) :
    (RelayerUnix.forwards cfg time tag d i txs).map (fun e => e.2.kept.parcel e.1)
      = ((txs.zipIdx i).map (fun p => p.1.kept.parcel (tag p.2))).filterMap (Parcel.route cfg d) := by
  induction txs generalizing i with
  | nil => rfl
  | cons tx txs ih =>
      obtain ⟨hstx, hst⟩ := List.forall_mem_cons.mp hst
      obtain ⟨hstatus, hs⟩ := List.forall_mem_cons.mp hs
      obtain ⟨hpass, hall⟩ := List.forall_mem_cons.mp hall
      obtain ⟨next, hf, _⟩ := (RelayerUnix.forward_iff hstx (time i)).mpr hpass
      rw [RelayerUnix.forwards, hf, List.map_append, ih hst hs hall (i + 1),
        addressed_parcel hf hstatus, ← List.filterMap_append, List.zipIdx_cons, List.map_cons]
      rfl

/-! ## §2. Belts. -/

/-- The parcels of a block committed on chain `pid`. -/
def blockParcels (pid : Int) (height : Nat) (r : Committed (Origin ι)) : List Parcel :=
  r.slots.zipIdx.map (fun s => s.1.tx.kept.parcel (rootOf pid height s.2 s.1.tag))

/-- The parcels of numbered blocks. -/
def parcelsOf (pid : Int) (rs : List (Committed (Origin ι) × Nat)) : List Parcel :=
  rs.flatMap (fun r => blockParcels pid r.2 r.1)

/-- The parcels of the first `k` committed blocks. -/
def firstParcels (pid : Int) (rs : List (Committed (Origin ι))) (k : Nat) : List Parcel :=
  parcelsOf pid ((rs.zipIdx 1).take k)

/-- How many committed blocks the listener has behind it. -/
def Listen.behind : Listen → Nat
  | .listening k => k.toNat - 1
  | _ => 0

theorem firstParcels_prefix {pid : Int} {rs rs' : List (Committed (Origin ι))} {k : Nat}
    (h : rs <+: rs') (hk : k ≤ rs.length) : firstParcels pid rs' k = firstParcels pid rs k := by
  obtain ⟨more, rfl⟩ := h
  unfold firstParcels
  rw [List.zipIdx_append, List.take_append_of_le_length (by rwa [List.length_zipIdx])]

theorem firstParcels_succ {pid : Int} {rs : List (Committed (Origin ι))} {k : Nat}
    {r : Committed (Origin ι)} (h : rs[k]? = some r) :
    firstParcels pid rs (k + 1) = firstParcels pid rs k ++ blockParcels pid (k + 1) r := by
  have hat : (rs.zipIdx 1)[k]? = some (r, k + 1) := by
    rw [List.getElem?_zipIdx, h, Option.map_some, Nat.add_comm]
  unfold firstParcels parcelsOf
  rw [List.take_add_one, hat, List.flatMap_append]
  show _ ++ List.flatMap _ [(r, k + 1)] = _
  rw [List.flatMap_singleton]

/-- The parcels of a fetched block, by the roots its listener gives them. -/
theorem blockParcels_eq {pid k : Int} {c : Chain (Origin ι)} {r : Committed (Origin ι)}
    (hk : 1 ≤ k) (hr : c.history[k.toNat - 1]? = some r) {txs : List Transaction}
    (htxs : txs = r.slots.map Executed.tx) :
    blockParcels pid k.toNat r
      = (txs.zipIdx 0).map (fun p => p.1.kept.parcel (slotRoot pid c k p.2)) := by
  subst htxs
  rw [List.zipIdx_map, List.map_map]
  refine List.map_congr_left fun s hs => ?_
  have hslot := List.mem_zipIdx_iff_getElem?.mp hs
  have hroot : slotRoot pid c k s.2 = rootOf pid k s.2 s.1.tag := by
    unfold slotRoot
    rw [hr, Option.bind_some, hslot, Option.bind_some]
  have hheight : ((k.toNat : Nat) : Int) = k := Int.toNat_of_nonneg (by omega)
  show s.1.tx.kept.parcel (rootOf pid k.toNat s.2 s.1.tag)
    = s.1.tx.kept.parcel (slotRoot pid c k s.2)
  rw [hroot, hheight]

variable [DecidableEq ι]

/-- The root of a transaction that relayer `r` sent. -/
def sentBy (r : ι) : Origin ι → Option Root
  | .xtx r' _ root => if r' = r then some root else none
  | _ => none

/-- What chain `c` accepted of relayer `r`. -/
def delivered (r : ι) (c : Chain (Origin ι)) : List Parcel :=
  c.accepted.filterMap (fun e => (sentBy r e.1).map (fun root => e.2.kept.parcel root))

namespace Net

/-- What relayer `r` has listened to, of a source chain with the blocks `rs`. -/
def heard (dep : Deployment ι) (r : ι) (rs : List (Committed (Origin ι))) (l : Listen) :
    List Parcel :=
  firstParcels (dep.relayer r).src.pid rs l.behind

/-- The belt of a spot, the source chain having the blocks `rs`. -/
def beltAt (dep : Deployment ι) (r : ι) (d : Int) (rs : List (Committed (Origin ι)))
    (s : Spot ι) : Belt Parcel where
  entered := (heard dep r rs s.listen).filterMap (Parcel.route (dep.relayer r) d)
  delivered := delivered r s.chain
  hand := s.tools.xtxTask.dealing.map (fun h => h.tx.kept.parcel h.tag)
  queue := s.tools.queueXtx.filterMap (Option.map (fun e => e.2.kept.parcel e.1))

/-- **The belt from relayer `r` to destination `d`.** -/
def belt (dep : Deployment ι) (n : Net ι) (r : ι) (d : Int) : Belt Parcel :=
  beltAt dep r d (n.chains (dep.relayer r).src.pid).history (n.spot r d)

/-! ## §3. What is delivered. -/

theorem delivered_append {r : ι} {c c' : Chain (Origin ι)} {tag : Origin ι} {tx : Transaction}
    (h : c'.accepted = c.accepted ++ [(tag, tx)]) :
    delivered r c' = delivered r c
      ++ ((sentBy r tag).map (fun root => tx.kept.parcel root)).toList := by
  unfold delivered
  rw [h, List.filterMap_append]
  cases hroot : sentBy r tag with
  | none =>
      rw [List.filterMap_cons_none (by rw [hroot]; rfl)]
      rfl
  | some root =>
      rw [List.filterMap_cons_some (by rw [hroot]; rfl)]
      rfl

variable [Contracts] [Sha256]

omit [Contracts] [Sha256] in
/-- A submission of somebody else delivers nothing. -/
theorem delivered_submit {r : ι} {tag : Origin ι} (hnot : sentBy r tag = none) (put : PyFloat)
    (tx : Transaction) (c : Chain (Origin ι)) : delivered r (c.submit put tag tx) = delivered r c := by
  rcases Chain.submit_cases put tag tx c with ⟨_, hacc⟩ | ⟨_, hsame⟩
  · rw [delivered_append hacc, hnot]
    exact List.append_nil _
  · rw [hsame]

/-- Only the relayer's own sendings deliver. -/
theorem delivered_effect {dep : Deployment ι} {n : Net ι} {a : Action ι} {r : ι} {d : Int}
    {c : Chain (Origin ι)} (heff : ChainEffect dep n a d c)
    (hnot : ∀ h root tx, ¬ Sends dep n d a (.xtx r h root) tx) :
    delivered r c = delivered r (n.chains d) := by
  have hsame : ∀ {c' : Chain (Origin ι)}, c'.accepted = (n.chains d).accepted →
      delivered r c' = delivered r (n.chains d) := by
    intro c' hacc
    unfold delivered
    rw [hacc]
  cases heff with
  | @own b c haction hclient hstep =>
      cases Chain.step_move hstep with
      | quiet _ _ _ hacc => exact hsame hacc
      | generate _ _ _ _ hacc => exact hsame hacc
      | execute _ _ _ _ hacc => exact hsame hacc
      | crash _ _ _ _ _ hacc _ => exact hsame hacc
      | @accept time tag tx c _ _ _ hacc =>
          have htag : tag = .client := of_decide_eq_true hclient
          rw [delivered_append hacc, htag]
          exact List.append_nil _
  | queried hq =>
      obtain ⟨st, rfl⟩ := hq.exists_store
      exact hsame rfl
  | @relayed put tag tx hsend =>
      refine delivered_submit ?_ put _ _
      cases tag with
      | client => rfl
      | header r' h => rfl
      | layer1 r' h => rfl
      | xtx r' h root =>
          refine if_neg fun hr => ?_
          subst hr
          exact hnot h root tx hsend

/-! ## §4. What travels. -/

/-- A deployment with one relayer for every source chain: the parachains, in AoR mode also
the relay chain.  Parachains generate transactions to other parachains only.  The code reads
`-1` as no destination. -/
structure Wired (dep : Deployment ι) (mode : Mode) (paras : List Int) : Prop where
  direct : mode ≠ .tor
  mode_eq : ∀ r, (dep.relayer r).mode = mode
  apart : ∀ r r', (dep.relayer r).src.pid = (dep.relayer r').src.pid → r = r'
  source : ∀ r, (dep.relayer r).src.pid ∈ paras
    ∨ (mode = .aor ∧ (dep.relayer r).src.pid = interPid)
  listened : ∀ p ∈ paras, ∃ r, (dep.relayer r).src.pid = p
  relay : mode = .aor → ∃ r, (dep.relayer r).src.pid = interPid
  relay_apart : interPid ∉ paras
  pids : -1 ∉ paras
  generates : ∀ p, ∀ d ∈ (dep.chainCfg p).xtxConfig.dstids, p ∈ paras ∧ d ∈ paras ∧ d ≠ p

/-- A transaction from outside on chain `p`: an ordinary one, or a `CTX-SRC` on a parachain
to another parachain. -/
structure FromOutside (paras : List Int) (p : Int) (ty dst : Option Json) : Prop where
  source : ty = some (.str TranMemo.ctxSrc) →
    p ∈ paras ∧ ∃ d ∈ paras, d ≠ p ∧ dst = some (.int d)
  not_inter : ty ≠ some (.str TranMemo.ctxInter)
  not_dst : ty ≠ some (.str TranMemo.ctxDst)

/-- A relayed transaction on its way to chain `p` or there. -/
inductive Relayed (mode : Mode) (paras : List Int) (p : Int) (ty dst : Option Json) : Prop where
  | inter {d : Int} (hmode : mode = .aor) (hp : p = interPid)
      (hty : ty = some (.str TranMemo.ctxInter)) (hd : d ∈ paras) (hdst : dst = some (.int d))
  | last (hp : p ∈ paras) (hty : ty = some (.str TranMemo.ctxDst)) (hdst : dst = some (.int p))

/-- What a transaction on chain `p` may be, by its origin. -/
def Admissible (mode : Mode) (paras : List Int) (p : Int) (tag : Option (Origin ι)) (k : Kept) :
    Prop :=
  match tag with
  | some (.xtx _ _ _) => Relayed mode paras p (k.memo "type") (k.memo "dst")
  | _ => FromOutside paras p (k.memo "type") (k.memo "dst")

section Hops

omit [DecidableEq ι] [Contracts] [Sha256]

variable {cfg : RelayerConfig} {mode : Mode} {paras : List Int}

theorem type_ne {s t : String} (h : s ≠ t) : some (Json.str s) ≠ some (Json.str t) :=
  fun heq => h (Json.str.inj (Option.some.inj heq))

theorem hopOf_direct {d : Int} (hmode : cfg.mode = .nor) (hd : d ≠ -1) :
    RelayerUnix.hopOf cfg (some (.str TranMemo.ctxSrc)) (some (.int d))
      = some (TranMemo.ctxDst, d) := by
  have hnext : RelayerUnix.nextHop cfg (.str TranMemo.ctxSrc) = some (TranMemo.ctxDst, none) := by
    rw [RelayerUnix.nextHop, hmode]
    rfl
  unfold RelayerUnix.hopOf
  simp only [bind, Option.bind, hnext, Option.getD_some, Json.toInt, Except.toOption, if_neg hd]

theorem hopOf_inter (hmode : cfg.mode = .aor) (dst : Option Json) :
    RelayerUnix.hopOf cfg (some (.str TranMemo.ctxSrc)) dst
      = some (TranMemo.ctxInter, interPid) := by
  have hnext : RelayerUnix.nextHop cfg (.str TranMemo.ctxSrc)
      = some (TranMemo.ctxInter, some interPid) := by
    rw [RelayerUnix.nextHop, hmode]
    rfl
  have hne : interPid ≠ -1 := by decide
  unfold RelayerUnix.hopOf
  simp only [bind, Option.bind, hnext, if_neg hne]

theorem hopOf_last {d : Int} (hmode : cfg.mode = .aor) (hd : d ≠ -1) :
    RelayerUnix.hopOf cfg (some (.str TranMemo.ctxInter)) (some (.int d))
      = some (TranMemo.ctxDst, d) := by
  have hnext : RelayerUnix.nextHop cfg (.str TranMemo.ctxInter) = some (TranMemo.ctxDst, none) := by
    rw [RelayerUnix.nextHop, hmode]
    rfl
  unfold RelayerUnix.hopOf
  simp only [bind, Option.bind, hnext, Option.getD_some, Json.toInt, Except.toOption, if_neg hd]

/-- Ordinary and arrived transactions go nowhere. -/
theorem hopOf_ordinary {ty dst : Option Json} (hsrc : ty ≠ some (.str TranMemo.ctxSrc))
    (hinter : ty ≠ some (.str TranMemo.ctxInter)) : RelayerUnix.hopOf cfg ty dst = none := by
  cases hhop : RelayerUnix.hopOf cfg ty dst with
  | none => rfl
  | some next =>
      rcases hopOf_cases hhop with ⟨_, hty, _⟩ | ⟨_, hty, _⟩ | ⟨_, hty, _⟩
      · exact absurd hty hsrc
      · exact absurd hty hsrc
      · exact absurd hty hinter

/-- **Where a transaction on a source chain goes next**: from a parachain to the chain in
its memo or to the relay chain, from there to the chain in its memo, or nowhere. -/
inductive Goes (cfg : RelayerConfig) (mode : Mode) (paras : List Int) (p : Int)
    (ty dst : Option Json) : Prop where
  | direct {d : Int} (hmode : mode = .nor) (hp : p ∈ paras)
      (hty : ty = some (.str TranMemo.ctxSrc)) (hd : d ∈ paras) (hdst : dst = some (.int d))
      (hhop : RelayerUnix.hopOf cfg ty dst = some (TranMemo.ctxDst, d))
  | inter {d : Int} (hmode : mode = .aor) (hp : p ∈ paras)
      (hty : ty = some (.str TranMemo.ctxSrc)) (hd : d ∈ paras) (hdst : dst = some (.int d))
      (hhop : RelayerUnix.hopOf cfg ty dst = some (TranMemo.ctxInter, interPid))
  | last {d : Int} (hmode : mode = .aor) (hp : p = interPid)
      (hty : ty = some (.str TranMemo.ctxInter)) (hd : d ∈ paras) (hdst : dst = some (.int d))
      (hhop : RelayerUnix.hopOf cfg ty dst = some (TranMemo.ctxDst, d))
  | nowhere (hsrc : ty ≠ some (.str TranMemo.ctxSrc)) (hinter : ty ≠ some (.str TranMemo.ctxInter))
      (hhop : RelayerUnix.hopOf cfg ty dst = none)

theorem goes_outside {p : Int} {ty dst : Option Json} (hmode : cfg.mode = mode)
    (hdirect : mode ≠ .tor) (hpids : -1 ∉ paras) (h : FromOutside paras p ty dst) :
    Goes cfg mode paras p ty dst := by
  by_cases hty : ty = some (.str TranMemo.ctxSrc)
  · obtain ⟨hp, d, hd, _, hdst⟩ := h.source hty
    have hneg : d ≠ -1 := fun heq => hpids (heq ▸ hd)
    subst hty hdst
    cases hm : mode with
    | nor => exact .direct rfl hp rfl hd rfl (hopOf_direct (hmode.trans hm) hneg)
    | aor => exact .inter rfl hp rfl hd rfl (hopOf_inter (hmode.trans hm) _)
    | tor => exact absurd hm hdirect
  · exact .nowhere hty h.not_inter (hopOf_ordinary hty h.not_inter)

theorem goes_relayed {p : Int} {ty dst : Option Json} (hmode : cfg.mode = mode)
    (hpids : -1 ∉ paras) (h : Relayed mode paras p ty dst) : Goes cfg mode paras p ty dst := by
  cases h with
  | @inter d haor hp hty hd hdst =>
      have hneg : d ≠ -1 := fun heq => hpids (heq ▸ hd)
      subst hty hdst
      exact .last haor hp rfl hd rfl (hopOf_last (hmode.trans haor) hneg)
  | last hp hty hdst =>
      subst hty
      have hsrc := type_ne (show TranMemo.ctxDst ≠ TranMemo.ctxSrc by decide)
      have hinter := type_ne (show TranMemo.ctxDst ≠ TranMemo.ctxInter by decide)
      exact .nowhere hsrc hinter (hopOf_ordinary hsrc hinter)

theorem goes_admissible {p : Int} {tag : Option (Origin ι)} {k : Kept} (hmode : cfg.mode = mode)
    (hdirect : mode ≠ .tor) (hpids : -1 ∉ paras) (h : Admissible mode paras p tag k) :
    Goes cfg mode paras p (k.memo "type") (k.memo "dst") := by
  unfold Admissible at h
  split at h
  next => exact goes_relayed hmode hpids h
  next => exact goes_outside hmode hdirect hpids h

/-- What is routed is relayed. -/
theorem Goes.relayed {p d : Int} {x y : Parcel} (h : Goes cfg mode paras p x.type x.dst)
    (hroute : x.route cfg d = some y) : Relayed mode paras d y.type y.dst := by
  obtain ⟨ty, hhop', rfl⟩ := Parcel.route_eq_some hroute
  cases h with
  | direct _ _ _ hd hdst hhop =>
      cases hhop.symm.trans hhop'
      exact .last hd rfl hdst
  | inter hmode _ _ hd hdst hhop =>
      cases hhop.symm.trans hhop'
      exact .inter hmode rfl rfl hd hdst
  | last _ _ _ hd hdst hhop =>
      cases hhop.symm.trans hhop'
      exact .last hd rfl hdst
  | nowhere _ _ hhop => cases hhop.symm.trans hhop'

/-- Its next hop is a number. -/
theorem Goes.addressed {p : Int} {tx : Transaction}
    (h : Goes cfg mode paras p (tx.kept.memo "type") (tx.kept.memo "dst")) :
    RelayerUnix.Addressed cfg tx := by
  intro ty hop hnext
  rw [tx.kept_memo (by decide), tx.kept_memo (by decide)] at h
  have hint : ∀ {d : Int}, memoField tx.memo "dst" = some (.int d) →
      ∃ pid, RelayerUnix.hopPid hop (memoField tx.memo "dst") = .ok pid := by
    intro d hdst
    rw [hdst]
    cases hop with
    | none => exact ⟨d, rfl⟩
    | some pid => exact ⟨pid, rfl⟩
  cases h with
  | direct _ _ _ _ hdst _ => exact hint hdst
  | inter _ _ _ _ hdst _ => exact hint hdst
  | last _ _ _ _ hdst _ => exact hint hdst
  | nowhere hsrc hinter _ =>
      obtain ⟨t, ht, hnext⟩ := Option.bind_eq_some_iff.mp hnext
      have hxtx := RelayerUnix.isXtx_of_nextHop hnext
      rw [ht] at hsrc hinter
      cases t with
      | str s =>
          rcases (Bool.or_eq_true _ _).mp hxtx with hs | hs
          · exact absurd (congrArg (fun s => some (Json.str s)) (of_decide_eq_true hs)) hsrc
          · exact absurd (congrArg (fun s => some (Json.str s)) (of_decide_eq_true hs)) hinter
      | _ => cases hxtx

end Hops

/-! ## §5. What is on a chain. -/

/-- The belts are in order, and so is what the chains accepted. -/
structure Books (dep : Deployment ι) (mode : Mode) (paras : List Int) (n : Net ι) : Prop where
  whole : ∀ r d, (belt dep n r d).Whole
  accepted : ∀ p, ∀ e ∈ (n.chains p).accepted, Admissible mode paras p (some e.1) e.2.kept

variable {dep : Deployment ι} {mode : Mode} {paras : List Int} {n n' : Net ι} {a : Action ι}

omit [DecidableEq ι] [Contracts] [Sha256] in
/-- A committed transaction is one of the executed ones. -/
theorem mem_done {c : Chain (Origin ι)} {r : Committed (Origin ι)} {s : Executed (Origin ι)}
    (hr : r ∈ c.history) (hs : s ∈ r.slots) : (s.tag, s.tx.kept) ∈ c.done := by
  have hmem : s ∈ c.executed :=
    List.mem_append_left _ (List.mem_flatMap.mpr ⟨r, hr, hs⟩)
  exact List.mem_map.mpr ⟨s, hmem, rfl⟩

omit [Contracts] in
/-- **Whatever is on a chain is admissible there.** -/
theorem admissible_of_mem (hw : Wired dep mode paras) (hn : NetOk dep n)
    (hb : Books dep mode paras n) {p : Int} {tag : Option (Origin ι)} {k : Kept}
    (h : (tag, k) ∈ (n.chains p).done ++ (n.chains p).waiting) : Admissible mode paras p tag k := by
  cases tag with
  | none =>
      -- generated here
      have hgen := (hn.chains p).untagged k h
      obtain ⟨d, hd, hdst⟩ := hgen.dst
      obtain ⟨hp, hd, hne⟩ := hw.generates p d hd
      have hty := hgen.type
      refine ⟨fun _ => ⟨hp, d, hd, hne, hdst⟩, ?_, ?_⟩
      · rw [hty]
        exact type_ne (by decide)
      · rw [hty]
        exact type_ne (by decide)
  | some t =>
      have hmem := Chain.mem_tagged.mpr h
      rw [← (hn.chains p).flow] at hmem
      obtain ⟨e, he, heq⟩ := List.mem_map.mp hmem
      cases heq
      exact hb.accepted p e he

omit [Contracts] in
/-- Where a committed transaction of a source chain goes. -/
theorem slot_goes (hw : Wired dep mode paras) (hn : NetOk dep n) (hb : Books dep mode paras n)
    (r : ι) {b : Committed (Origin ι)} {s : Executed (Origin ι)}
    (hb' : b ∈ (n.chains (dep.relayer r).src.pid).history) (hs : s ∈ b.slots) :
    Goes (dep.relayer r) mode paras (dep.relayer r).src.pid (s.tx.kept.memo "type")
      (s.tx.kept.memo "dst") :=
  goes_admissible (hw.mode_eq r) hw.direct hw.pids
    (admissible_of_mem hw hn hb (List.mem_append_left _ (mem_done hb' hs)))

omit [DecidableEq ι] [Contracts] [Sha256] in
/-- A committed parcel is one of a slot. -/
theorem mem_parcelsOf {pid : Int} {rs : List (Committed (Origin ι) × Nat)} {x : Parcel} :
    x ∈ parcelsOf pid rs ↔ ∃ b ∈ rs, ∃ (i : Nat) (s : Executed (Origin ι)),
      b.1.slots[i]? = some s ∧ x = s.tx.kept.parcel (rootOf pid b.2 i s.tag) := by
  unfold parcelsOf blockParcels
  rw [List.mem_flatMap]
  refine exists_congr fun b => and_congr_right fun _ => ?_
  rw [List.mem_map]
  constructor
  · rintro ⟨⟨s, i⟩, hs, rfl⟩
    exact ⟨i, s, List.mem_zipIdx_iff_getElem?.mp hs, rfl⟩
  · rintro ⟨i, s, hs, rfl⟩
    exact ⟨(s, i), List.mem_zipIdx_iff_getElem?.mpr hs, rfl⟩

omit [DecidableEq ι] [Contracts] [Sha256] in
theorem mem_firstParcels {pid : Int} {rs : List (Committed (Origin ι))} {k : Nat} {x : Parcel}
    (h : x ∈ firstParcels pid rs k) :
    ∃ (j : Nat) (b : Committed (Origin ι)) (i : Nat) (s : Executed (Origin ι)), j < k
      ∧ rs[j]? = some b ∧ b.slots[i]? = some s
      ∧ x = s.tx.kept.parcel (rootOf pid ((j + 1 : Nat) : Int) i s.tag) := by
  obtain ⟨b, hb, i, s, hs, rfl⟩ := mem_parcelsOf.mp h
  obtain ⟨j, hj⟩ := List.getElem?_of_mem hb
  rw [List.getElem?_take] at hj
  split at hj
  next hlt =>
      rw [List.getElem?_zipIdx] at hj
      obtain ⟨b', hb', rfl⟩ := Option.map_eq_some_iff.mp hj
      refine ⟨j, b', i, s, hlt, hb', hs, ?_⟩
      rw [Nat.add_comm j 1]
  next => cases hj

omit [Contracts] in
/-- **Whatever came onto a belt is relayed.** -/
theorem entered_relayed (hw : Wired dep mode paras) (hn : NetOk dep n)
    (hb : Books dep mode paras n) {r : ι} {d : Int} {y : Parcel}
    (h : y ∈ (belt dep n r d).entered) : Relayed mode paras d y.type y.dst := by
  obtain ⟨x, hx, hroute⟩ := List.mem_filterMap.mp h
  obtain ⟨j, b, i, s, _, hb', hs, rfl⟩ := mem_firstParcels hx
  have hgoes := slot_goes hw hn hb r (List.mem_of_getElem? hb') (List.mem_of_getElem? hs)
  rw [← Kept.parcel_type (rootOf (dep.relayer r).src.pid ((j + 1 : Nat) : Int) i s.tag),
    ← Kept.parcel_dst (rootOf (dep.relayer r).src.pid ((j + 1 : Nat) : Int) i s.tag)] at hgoes
  exact hgoes.relayed hroute

end Net

end TorSim
