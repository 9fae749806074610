/-
  TorSim.Network.Lanes — what reaches a destination, whatever fails.

  A relayer's task may end at any point: a link fails, a block holds a transaction it
  cannot pass on, somebody stops it.  What it leaves behind is then never sent.  So what
  a destination has accepted from a relayer is the beginning of what the relayer was to
  pass on to it, and while the tasks live nothing else is missing than what is under way.

  Main results:
    * `filterBlock_routed` — what a round of `listen_block` adds to a queue, also where
      it raises.
    * `step_lane` — **what every step keeps of a lane**.
    * `delivered_in_order` — **nothing is doubled or overtaken in any run**.
-/
import TorSim.Network.Belts
import TorSim.Network.Shortcuts

namespace TorSim

open TorSim.Lib

variable {ι : Type}

/-! ## §1. What a block puts into a queue. -/

/-- The parcels of a block's transactions, numbered from `i`, that go to `d`. -/
def routedTxs (cfg : RelayerConfig) (tag : Nat → Root) (d : Int) (i : Nat)
    (txs : List Transaction) : List Parcel :=
  ((txs.zipIdx i).map (fun p => p.1.kept.parcel (tag p.2))).filterMap (Parcel.route cfg d)

theorem routedTxs_cons (cfg : RelayerConfig) (tag : Nat → Root) (d : Int) (i : Nat)
    (tx : Transaction) (txs : List Transaction) :
    routedTxs cfg tag d i (tx :: txs)
      = [tx.kept.parcel (tag i)].filterMap (Parcel.route cfg d)
        ++ routedTxs cfg tag d (i + 1) txs := by
  unfold routedTxs
  rw [List.zipIdx_cons, List.map_cons, ← List.filterMap_append]
  rfl

/-- A relayer of headers has no way for any transaction. -/
theorem route_isPar {cfg : RelayerConfig} (h : cfg.isPar = true) (d : Int) (x : Parcel) :
    x.route cfg d = none := by
  have hno : RelayerUnix.hopOf cfg x.type x.dst = none := by
    unfold RelayerUnix.hopOf
    cases x.type with
    | none => rfl
    | some ty => simp [RelayerUnix.nextHop_of_isPar h ty]
  rw [Parcel.route, hno]

theorem routedTxs_isPar {cfg : RelayerConfig} (h : cfg.isPar = true) (tag : Nat → Root) (d : Int)
    (i : Nat) (txs : List Transaction) : routedTxs cfg tag d i txs = [] :=
  List.filterMap_eq_nil_iff.mpr fun x _ => route_isPar h d x

/-- **A block's transactions**: what joins the queue of `d` is the beginning of what goes
there, and all of it if nothing is raised. -/
theorem filterTxsFrom_routed {cfg : RelayerConfig} (time : Nat → PyFloat) (tag : Nat → Root)
    (d : Int) {txs : List Transaction} (hs : ∀ tx ∈ txs, tx.status = .success) :
    ∀ {i : Nat} {ds ds' : Int → DstTool Root} {res : Except Exn Nat},
      RelayerUnix.filterTxsFrom cfg time tag i txs ds = (res, ds') →
      ∃ es : List (Root × Transaction), ds' d = (ds d).pushXtxs es
        ∧ es.map (fun e => e.2.kept.parcel e.1) <+: routedTxs cfg tag d i txs
        ∧ ((∃ m, res = .ok m) → es.map (fun e => e.2.kept.parcel e.1) = routedTxs cfg tag d i txs) := by
  induction txs with
  | nil =>
      intro i ds ds' res h
      cases h
      exact ⟨[], (RelayerUnix.pushXtxs_nil _).symm, List.nil_prefix, fun _ => rfl⟩
  | cons tx txs ih =>
      intro i ds ds' res h
      obtain ⟨hstatus, hs⟩ := List.forall_mem_cons.mp hs
      rw [RelayerUnix.filterTxsFrom] at h
      rw [routedTxs_cons]
      rcases RelayerUnix.filterTx_cases cfg (time i) (tag i) tx ds with
        ⟨e, hrun⟩ | ⟨next, m, ds1, hf, hrun, hds1, _⟩
      · -- the first transaction raises, and nothing joins
        rw [Comp.bind_of_error hrun] at h
        cases h
        refine ⟨[], (RelayerUnix.pushXtxs_nil _).symm, List.nil_prefix, ?_⟩
        intro hok
        obtain ⟨m, hm⟩ := hok
        cases hm
      · rw [Comp.bind_of_ok hrun] at h
        rcases hrest : RelayerUnix.filterTxsFrom cfg time tag (i + 1) txs ds1 with ⟨res1, ds2⟩
        obtain ⟨es, hes, hpre, hfull⟩ := ih hs hrest
        have hlast : ds' = ds2 ∧ ((∃ m, res = .ok m) → ∃ m, res1 = .ok m) := by
          rw [Comp.bind_run, hrest] at h
          cases res1 with
          | error e =>
              cases h
              refine ⟨rfl, ?_⟩
              intro hok
              obtain ⟨m, hm⟩ := hok
              cases hm
          | ok m1 =>
              cases h
              exact ⟨rfl, fun _ => ⟨m1, rfl⟩⟩
        have hfirst := addressed_parcel hf hstatus (tag i) d
        refine ⟨RelayerUnix.addressed (tag i) next d ++ es, ?_, ?_, fun hok => ?_⟩
        · rw [hlast.1, hes, hds1 d, RelayerUnix.pushXtxs_append]
        · rw [List.map_append, hfirst]
          exact (List.prefix_append_right_inj _).mpr hpre
        · rw [List.map_append, hfirst, hfull (hlast.2 hok)]

/-- **A round of `listen_block`**, as the queue of `d` sees it. -/
theorem filterBlock_routed {cfg : RelayerConfig} {time : Nat → PyFloat} {tag : Nat → Root}
    {block : Block} {header : Json} {ds ds' : Int → DstTool Root} {res : Except Exn Nat}
    (h : RelayerUnix.filterBlock cfg time tag block header ds = (res, ds'))
    (hs : ∀ tx ∈ block.txs, tx.status = .success) (d : Int) :
    ∃ es : List (Root × Transaction), (ds' d).queueXtx = (ds d).queueXtx ++ es.map some
      ∧ es.map (fun e => e.2.kept.parcel e.1) <+: routedTxs cfg tag d 0 block.txs
      ∧ ((∃ m, res = .ok m) →
        es.map (fun e => e.2.kept.parcel e.1) = routedTxs cfg tag d 0 block.txs) := by
  unfold RelayerUnix.filterBlock at h
  rcases hheader : RelayerUnix.filterHeader cfg header ds with ⟨res1, ds1⟩
  -- the header joins another queue
  have hqueue : (ds1 d).queueXtx = (ds d).queueXtx := by
    rcases (RelayerUnix.filterHeader_run hheader).1 d with hsame | ⟨_, hpush⟩
    · rw [hsame]
    · rw [hpush]
      rfl
  cases res1 with
  | error e =>
      rw [Comp.bind_of_error hheader] at h
      cases h
      refine ⟨[], ?_, List.nil_prefix, ?_⟩
      · rw [hqueue]
        simp
      · intro hok
        obtain ⟨m, hm⟩ := hok
        cases hm
  | ok u =>
      rw [Comp.bind_of_ok hheader] at h
      unfold RelayerUnix.filterTxs at h
      split at h
      next hpar =>
          cases h
          refine ⟨[], ?_, List.nil_prefix, fun _ => (routedTxs_isPar hpar tag d 0 _).symm⟩
          rw [hqueue]
          simp
      next =>
          obtain ⟨es, hes, hpre, hfull⟩ := filterTxsFrom_routed time tag d hs h
          refine ⟨es, ?_, hpre, hfull⟩
          rw [hes, ← hqueue]
          rfl

namespace Net

variable {dep : Deployment ι} {n n' : Net ι} {a : Action ι} {r : ι} {d : Int}

/-! ## §2. What a relayer is to pass on. -/

/-- What relayer `r` is to pass on to `d` of a source chain with the blocks `rs`, when it
began at block `start` and has listened to the first `k`. -/
def taken (dep : Deployment ι) (r : ι) (d : Int) (rs : List (Committed (Origin ι))) (start : Int)
    (k : Nat) : List Parcel :=
  (parcelsOf (dep.relayer r).src.pid (((rs.zipIdx 1).take k).drop (start.toNat - 1))).filterMap
    (Parcel.route (dep.relayer r) d)

/-- A block more. -/
theorem taken_succ {rs : List (Committed (Origin ι))} {start : Int} {k : Nat}
    {b : Committed (Origin ι)} (hstart : start.toNat - 1 ≤ k) (hb : rs[k]? = some b) :
    taken dep r d rs start (k + 1) = taken dep r d rs start k
      ++ (blockParcels (dep.relayer r).src.pid (k + 1) b).filterMap
        (Parcel.route (dep.relayer r) d) := by
  have hat : (rs.zipIdx 1)[k]? = some (b, k + 1) := by
    rw [List.getElem?_zipIdx, hb, Option.map_some, Nat.add_comm]
  have hlen : start.toNat - 1 ≤ ((rs.zipIdx 1).take k).length := by
    obtain ⟨hlt, _⟩ := List.getElem?_eq_some_iff.mp hb
    rw [List.length_take, List.length_zipIdx]
    omega
  unfold taken parcelsOf
  rw [List.take_add_one, hat, Option.toList_some, List.drop_append_of_le_length hlen,
    List.flatMap_append, List.filterMap_append]
  simp

/-- More blocks, and nothing before. -/
theorem taken_prefix {rs : List (Committed (Origin ι))} {start : Int} {j k : Nat} (h : j ≤ k) :
    taken dep r d rs start j <+: taken dep r d rs start k := by
  have htake : (rs.zipIdx 1).take j <+: (rs.zipIdx 1).take k := List.take_prefix_take_left h
  have hdrop : ((rs.zipIdx 1).take j).drop (start.toNat - 1)
      <+: ((rs.zipIdx 1).take k).drop (start.toNat - 1) := htake.drop _
  obtain ⟨more, hmore⟩ := hdrop
  unfold taken parcelsOf
  rw [← hmore, List.flatMap_append, List.filterMap_append]
  exact List.prefix_append _ _

/-- The source chain grows. -/
theorem taken_extends {rs rs' : List (Committed (Origin ι))} {start : Int} {k : Nat}
    (h : rs <+: rs') (hk : k ≤ rs.length) :
    taken dep r d rs' start k = taken dep r d rs start k := by
  obtain ⟨more, rfl⟩ := h
  unfold taken
  rw [List.zipIdx_append, List.take_append_of_le_length (by rwa [List.length_zipIdx])]

theorem taken_grows {rs rs' : List (Committed (Origin ι))} {start : Int} (h : rs <+: rs') :
    taken dep r d rs start rs.length <+: taken dep r d rs' start rs'.length := by
  rw [← taken_extends h (le_refl rs.length)]
  exact taken_prefix h.length_le

/-- Whatever is to be passed on was committed on the source chain. -/
theorem mem_taken {rs : List (Committed (Origin ι))} {start : Int} {k : Nat} {y : Parcel}
    (h : y ∈ taken dep r d rs start k) :
    ∃ (j : Nat) (b : Committed (Origin ι)) (i : Nat) (s : Executed (Origin ι)), j < k
      ∧ rs[j]? = some b ∧ b.slots[i]? = some s
      ∧ (s.tx.kept.parcel (rootOf (dep.relayer r).src.pid ((j + 1 : Nat) : Int) i s.tag)).route
        (dep.relayer r) d = some y := by
  obtain ⟨x, hx, hroute⟩ := List.mem_filterMap.mp h
  have hfirst : x ∈ firstParcels (dep.relayer r).src.pid rs k := by
    obtain ⟨b, hb, hparcel⟩ := List.mem_flatMap.mp hx
    exact List.mem_flatMap.mpr ⟨b, List.mem_of_mem_drop hb, hparcel⟩
  obtain ⟨j, b, i, s, hj, hb, hs, rfl⟩ := mem_firstParcels hfirst
  exact ⟨j, b, i, s, hj, hb, hs, hroute⟩

/-! ## §3. A lane. -/

/-- A cross-chain transaction tells its destination by a number. -/
def Numbered (ty dst : Option Json) : Prop :=
  ty = some (.str TranMemo.ctxSrc) ∨ ty = some (.str TranMemo.ctxInter) →
    ∃ d : Int, dst = some (.int d)

/-- Its next hop is a number. -/
theorem Numbered.addressed {cfg : RelayerConfig} {tx : Transaction}
    (h : Numbered (tx.kept.memo "type") (tx.kept.memo "dst")) : RelayerUnix.Addressed cfg tx := by
  intro ty hop hnext
  rw [tx.kept_memo (by decide), tx.kept_memo (by decide)] at h
  obtain ⟨t, ht, hnext⟩ := Option.bind_eq_some_iff.mp hnext
  have hxtx := RelayerUnix.isXtx_of_nextHop hnext
  have hkind : memoField tx.memo "type" = some (.str TranMemo.ctxSrc)
      ∨ memoField tx.memo "type" = some (.str TranMemo.ctxInter) := by
    rw [ht]
    cases t with
    | str s =>
        rcases (Bool.or_eq_true _ _).mp hxtx with hs | hs
        · exact Or.inl (congrArg (fun s => some (Json.str s)) (of_decide_eq_true hs))
        · exact Or.inr (congrArg (fun s => some (Json.str s)) (of_decide_eq_true hs))
    | _ => cases hxtx
  obtain ⟨d, hd⟩ := h hkind
  rw [hd]
  cases hop with
  | none => exact ⟨d, rfl⟩
  | some pid => exact ⟨pid, rfl⟩

/-- A routed parcel of a numbered transaction is numbered. -/
theorem Numbered.routed {cfg : RelayerConfig} {x y : Parcel} (h : Numbered x.type x.dst)
    (hroute : x.route cfg d = some y) : Numbered y.type y.dst := by
  obtain ⟨ty, hhop, rfl⟩ := Parcel.route_eq_some hroute
  intro _
  apply h
  by_contra hno
  obtain ⟨hsrc, hinter⟩ := not_or.mp hno
  have hnone : RelayerUnix.hopOf cfg x.type x.dst = none := hopOf_ordinary hsrc hinter
  rw [hnone] at hhop
  cases hhop

variable [DecidableEq ι]

/-- What the destination has accepted from the relayer, what the relayer has in hand and
what is queued, in this order. -/
def underway (r : ι) (s : Spot ι) : List Parcel :=
  delivered r s.chain ++ (s.tools.xtxTask.dealing.map (fun h => h.tx.kept.parcel h.tag)).toList
    ++ s.tools.queueXtx.filterMap (Option.map (fun e => e.2.kept.parcel e.1))

/-- **A lane from relayer `r` to destination `d`**, the source chain having the blocks
`rs`.  While `deal_xtx` lives, what is under way is the beginning of what is to be passed
on, and while `listen_block` lives it is all of what was listened to. -/
structure Lane (dep : Deployment ι) (r : ι) (d : Int) (rs : List (Committed (Origin ι)))
    (s : Spot ι) : Prop where
  created : s.listen = .created →
    delivered r s.chain = [] ∧ (s.tools.xtxTask.alive = true → underway r s = [])
  next : ∀ k, s.listen = .listening k → s.startbn ≤ k
  whole : ∀ k, s.listen = .listening k → s.tools.xtxTask.alive = true →
    underway r s = taken dep r d rs s.startbn (Listen.listening k).behind
  within : s.tools.xtxTask.alive = true →
    underway r s <+: taken dep r d rs s.startbn rs.length
  delivered : TorSim.delivered r s.chain <+: taken dep r d rs s.startbn rs.length

/-- A step that neither listens to a block nor begins to listen. -/
theorem Lane.keep {rs rs' : List (Committed (Origin ι))} {s s' : Spot ι}
    (hl : Lane dep r d rs s) (hext : rs <+: rs')
    (hbehind : ∀ k, s.listen = .listening k → (Listen.listening k).behind ≤ rs.length)
    (hstart : s'.startbn = s.startbn) (hlisten : s'.listen = s.listen ∨ s'.listen = .stopped)
    (hunder : s'.tools.xtxTask.alive = true →
      s.tools.xtxTask.alive = true ∧ underway r s' = underway r s)
    (hdelivered : TorSim.delivered r s'.chain = TorSim.delivered r s.chain
      ∨ s.tools.xtxTask.alive = true
        ∧ ∃ x, TorSim.delivered r s'.chain = TorSim.delivered r s.chain ++ [x]
          ∧ TorSim.delivered r s.chain ++ [x] <+: underway r s) : Lane dep r d rs' s' := by
  have hsame : ∀ l, l ≠ .stopped → s'.listen = l → s.listen = l := by
    intro l hne heq
    rcases hlisten with hl | hl
    · exact hl.symm.trans heq
    · exact absurd (heq.symm.trans hl) hne
  constructor
  · intro hcreated
    obtain ⟨hnone, hempty⟩ := hl.created (hsame _ (by decide) hcreated)
    constructor
    · rcases hdelivered with heq | ⟨halive, x, _, hpre⟩
      · rw [heq, hnone]
      · rw [hempty halive] at hpre
        have hlen := hpre.length_le
        simp at hlen
    · intro halive
      obtain ⟨hold, heq⟩ := hunder halive
      rw [heq, hempty hold]
  · intro k hk
    rw [hstart]
    exact hl.next k (hsame _ (by simp) hk)
  · intro k hk halive
    have hold := hsame _ (by simp) hk
    obtain ⟨hlive, heq⟩ := hunder halive
    rw [heq, hstart, taken_extends hext (hbehind k hold)]
    exact hl.whole k hold hlive
  · intro halive
    obtain ⟨hlive, heq⟩ := hunder halive
    rw [heq, hstart]
    exact (hl.within hlive).trans (taken_grows hext)
  · rw [hstart]
    rcases hdelivered with heq | ⟨halive, x, heq, hpre⟩
    · rw [heq]
      exact hl.delivered.trans (taken_grows hext)
    · rw [heq]
      exact hpre.trans ((hl.within halive).trans (taken_grows hext))

variable [Contracts] [Sha256]

/-! ## §4. Every step. -/

omit [DecidableEq ι] [Contracts] in
/-- **What a block adds to what is to be passed on.** -/
theorem taken_block (hn : NetOk dep n) {k start : Int} {block : Block} {header : Json}
    (hlisten : (n.relayers r).listen = .listening k)
    (hfetch : RelayerUnix.Fetched (n.chains (dep.relayer r).src.pid) k block header)
    (hstart : start ≤ k) :
    taken dep r d (n.chains (dep.relayer r).src.pid).history start (Listen.listening (k + 1)).behind
      = taken dep r d (n.chains (dep.relayer r).src.pid).history start (Listen.listening k).behind
        ++ routedTxs (dep.relayer r)
          (slotRoot (dep.relayer r).src.pid (n.chains (dep.relayer r).src.pid) k) d 0 block.txs := by
  obtain ⟨_, _, _, hwhere⟩ := fetched_txs hn hlisten hfetch
  rcases hwhere with ⟨rfl, hnil⟩ | ⟨b, hone, hb, hslots⟩
  · -- the genesis block is empty
    rw [hnil]
    exact (List.append_nil _).symm
  · have hnext : (Listen.listening (k + 1)).behind = (k.toNat - 1) + 1 := by
      show (k + 1).toNat - 1 = _
      omega
    have hcast : (k.toNat - 1) + 1 = k.toNat := by omega
    have hfrom : start.toNat - 1 ≤ k.toNat - 1 := by omega
    rw [hnext, taken_succ hfrom hb, hcast, blockParcels_eq hone hb hslots]
    rfl

omit [Contracts] [Sha256] in
/-- What is in hand comes right after what was delivered. -/
theorem delivered_hand {s : Spot ι} {hand : Dealing Root}
    (hdeal : s.tools.xtxTask.dealing = some hand) :
    delivered r s.chain ++ [hand.tx.kept.parcel hand.tag] <+: underway r s := by
  unfold underway
  rw [hdeal]
  exact List.prefix_append _ _

omit [Contracts] in
/-- **A round of `listen_block` on a block.** -/
theorem Lane.block {k : Int} {time : Nat → PyFloat} {block : Block} {header : Json}
    {res : Except Exn Nat} {ds : Int → DstTool Root} {rs' : List (Committed (Origin ι))}
    (hn : NetOk dep n)
    (hnum : ∀ b ∈ (n.chains (dep.relayer r).src.pid).history, ∀ s ∈ b.slots,
      Numbered (s.tx.kept.memo "type") (s.tx.kept.memo "dst"))
    (hl : Lane dep r d (n.chains (dep.relayer r).src.pid).history (n.spot r d))
    (hext : (n.chains (dep.relayer r).src.pid).history <+: rs')
    (hlisten : (n.relayers r).listen = .listening k)
    (hfetch : RelayerUnix.Fetched (n.chains (dep.relayer r).src.pid) k block header)
    (hfilter : RelayerUnix.filterBlock (dep.relayer r) time
      (slotRoot (dep.relayer r).src.pid (n.chains (dep.relayer r).src.pid) k) block header
      (n.relayers r).dsts = (res, ds)) :
    Lane dep r d rs' { n.spot r d with listen := listenAfter k res, tools := ds d } := by
  obtain ⟨htxs, h0, hle, hwhere⟩ := fetched_txs hn hlisten hfetch
  obtain ⟨es, hqueue, hpre, hfull⟩ := filterBlock_routed hfilter (fun tx htx => (htxs tx htx).2) d
  have htask := filterBlock_task hfilter d
  have hstart : (n.relayers r).startbn ≤ k := hl.next k hlisten
  have hmore := taken_block (d := d) hn hlisten hfetch hstart
  have hbehind : (Listen.listening (k + 1)).behind
      ≤ (n.chains (dep.relayer r).src.pid).history.length := by
    show (k + 1).toNat - 1 ≤ _
    omega
  -- the new entries stand behind all others
  have hunder : underway r { n.spot r d with listen := listenAfter k res, tools := ds d }
      = underway r (n.spot r d) ++ es.map (fun e => e.2.kept.parcel e.1) := by
    unfold underway
    dsimp only
    rw [htask, hqueue, List.filterMap_append, List.filterMap_map, ← List.append_assoc]
    refine congrArg₂ _ rfl ?_
    exact congrFun List.filterMap_eq_map' es
  have halive : (ds d).xtxTask.alive = true → (n.spot r d).tools.xtxTask.alive = true := by
    rw [htask]
    exact id
  have hold : (n.spot r d).tools.xtxTask.alive = true → underway r (n.spot r d)
      = taken dep r d (n.chains (dep.relayer r).src.pid).history (n.relayers r).startbn
        (Listen.listening k).behind := hl.whole k hlisten
  have hall : (ds d).xtxTask.alive = true →
      underway r { n.spot r d with listen := listenAfter k res, tools := ds d }
        <+: taken dep r d (n.chains (dep.relayer r).src.pid).history (n.relayers r).startbn
          (Listen.listening (k + 1)).behind := by
    intro hlive
    rw [hunder, hold (halive hlive), hmore]
    exact (List.prefix_append_right_inj _).mpr hpre
  constructor
  · intro hcreated
    exact absurd hcreated (listenAfter_ne_created k res)
  · intro j hj
    have hnext : j = k ∨ j = k + 1 := by
      cases res with
      | ok m =>
          cases hj
          exact Or.inr rfl
      | error e =>
          rcases RelayerUnix.afterError_cases k e with he | he
          · rw [listenAfter, he] at hj
            cases hj
            exact Or.inl rfl
          · rw [listenAfter, he] at hj
            cases hj
    show (n.relayers r).startbn ≤ j
    omega
  · intro j hj hlive
    cases res with
    | ok m =>
        cases hj
        rw [hunder, hold (halive hlive), hfull ⟨m, rfl⟩]
        show _ = taken dep r d rs' (n.relayers r).startbn _
        rw [taken_extends hext hbehind, hmore]
    | error e =>
        -- an exception ends the loop
        have hstop : RelayerUnix.afterError k e = .stopped := by
          refine RelayerUnix.filterBlock_error (fun tx htx => (htxs tx htx).1)
            (fun tx htx => ?_) hfilter k
          rcases hwhere with ⟨_, hnil⟩ | ⟨b, _, hb, hslots⟩
          · rw [hnil] at htx
            cases htx
          · rw [hslots] at htx
            obtain ⟨s, hs, rfl⟩ := List.mem_map.mp htx
            exact (hnum b (List.mem_of_getElem? hb) s hs).addressed
        rw [listenAfter, hstop] at hj
        cases hj
  · intro hlive
    refine (hall hlive).trans ?_
    show _ <+: taken dep r d rs' (n.relayers r).startbn rs'.length
    rw [← taken_extends hext hbehind]
    exact taken_prefix (hbehind.trans hext.length_le)
  · exact hl.delivered.trans (taken_grows hext)

/-- **What a chain accepts** comes from a client or from a relayer. -/
theorem accepted_new (h : step dep n a = some n') {p : Int} {e : Origin ι × Transaction}
    (he : e ∈ (n'.chains p).accepted) :
    e ∈ (n.chains p).accepted
      ∨ (e.1 = .client ∧ ∃ time, a = .chain p (.submit time e.1 e.2))
      ∨ ∃ tx, Sends dep n p a e.1 tx ∧ e.2 = Connector.arrived tx := by
  have heff := step_chain h p
  generalize n'.chains p = c at he heff
  cases heff with
  | @own b c haction hclient hstep =>
      cases Chain.step_move hstep with
      | quiet _ _ _ hacc => exact Or.inl (hacc ▸ he)
      | generate _ _ _ _ hacc => exact Or.inl (hacc ▸ he)
      | execute _ _ _ _ hacc => exact Or.inl (hacc ▸ he)
      | crash _ _ _ _ _ hacc _ => exact Or.inl (hacc ▸ he)
      | @accept time tag tx c _ _ _ hacc =>
          rw [hacc] at he
          rcases List.mem_append.mp he with he | he
          · exact Or.inl he
          · rw [List.mem_singleton.mp he]
            exact Or.inr (Or.inl ⟨of_decide_eq_true hclient, time, haction⟩)
  | queried hq =>
      obtain ⟨st, rfl⟩ := hq.exists_store
      exact Or.inl he
  | @relayed put tag tx hsend =>
      rcases Chain.submit_cases put tag (Connector.arrived tx) (n.chains p) with
        ⟨_, hacc⟩ | ⟨_, hsame⟩
      · rw [hacc] at he
        rcases List.mem_append.mp he with he | he
        · exact Or.inl he
        · rw [List.mem_singleton.mp he]
          exact Or.inr (Or.inr ⟨tx, hsend, rfl⟩)
      · rw [hsame] at he
        exact Or.inl he

/-- All lanes are in order, and so is what the chains accepted. -/
structure Lanes (dep : Deployment ι) (n : Net ι) : Prop where
  net : NetOk dep n
  lane : ∀ r d, Lane dep r d (n.chains (dep.relayer r).src.pid).history (n.spot r d)
  numbered : ∀ p, ∀ e ∈ (n.chains p).accepted,
    Numbered (e.2.kept.memo "type") (e.2.kept.memo "dst")
  toward : ∀ p, ∀ e ∈ (n.chains p).accepted, ∀ r h root, e.1 = .xtx r h root →
    ∃ dst ∈ (dep.relayer r).dsts, dst.pid = p

omit [DecidableEq ι] [Contracts] [Sha256] in
theorem numbered_of_type {ty dst : Option Json} {t : String} (hty : ty = some (.str t))
    (hno : t ≠ TranMemo.ctxSrc ∧ t ≠ TranMemo.ctxInter) : Numbered ty dst := by
  subst hty
  rintro (hsrc | hinter)
  · exact absurd hsrc (type_ne hno.1)
  · exact absurd hinter (type_ne hno.2)

omit [DecidableEq ι] [Contracts] in
/-- What is tagged was accepted under its tag. -/
theorem ChainOk.exists_accepted {cfg : Config} {c : Chain (Origin ι)} (hc : ChainOk cfg c)
    {t : Origin ι} {k : Kept} (hmem : (some t, k) ∈ c.done ++ c.waiting) :
    ∃ e ∈ c.accepted, e.1 = t ∧ e.2.kept = k := by
  have hflow := Chain.mem_tagged.mpr hmem
  rw [← hc.flow] at hflow
  obtain ⟨e, he, heq⟩ := List.mem_map.mp hflow
  obtain ⟨htag, hkept⟩ := Prod.mk.inj heq
  exact ⟨e, he, htag, hkept⟩

omit [Contracts] in
/-- What is on a chain is numbered, be it accepted or generated there. -/
theorem Lanes.slot (hl : Lanes dep n) {p : Int} {b : Committed (Origin ι)}
    {s : Executed (Origin ι)} (hb : b ∈ (n.chains p).history) (hs : s ∈ b.slots) :
    Numbered (s.tx.kept.memo "type") (s.tx.kept.memo "dst") := by
  have hmem : (s.tag, s.tx.kept) ∈ (n.chains p).done ++ (n.chains p).waiting :=
    List.mem_append_left _ (mem_done hb hs)
  cases htag : s.tag with
  | none =>
      rw [htag] at hmem
      obtain ⟨d, _, hdst⟩ := ((hl.net.chains p).untagged _ hmem).dst
      exact fun _ => ⟨d, hdst⟩
  | some t =>
      rw [htag] at hmem
      obtain ⟨e, he, _, hkept⟩ := (hl.net.chains p).exists_accepted hmem
      rw [← hkept]
      exact hl.numbered p e he

omit [Contracts] in
/-- What a relayer sends is numbered. -/
theorem Lanes.sends (hl : Lanes dep n) {p : Int} {tag : Origin ι} {tx : Transaction}
    (halive : ∀ r k root, tag = .xtx r k root → (n.dst r p).xtxTask.alive = true)
    (h : Sends dep n p a tag tx) :
    Numbered ((Connector.arrived tx).kept.memo "type") ((Connector.arrived tx).kept.memo "dst") := by
  have htyped := sends_typed hl.net h
  cases h with
  | header =>
      obtain ⟨_, _, _, _, _, _, htype⟩ := htyped
      exact numbered_of_type htype (by decide)
  | layer1 =>
      obtain ⟨_, _, _, _, _, htype⟩ := htyped
      exact numbered_of_type htype (by decide)
  | @xtx r dst link time put hand tx hdst hdeal hwait hmark =>
      -- the transaction in hand was routed, so the committed one was numbered
      have hlive := halive r _ _ rfl
      have hkept : tx.kept = hand.tx.kept := RelayerUnix.kept_markTx hmark
      have hmem : hand.tx.kept.parcel hand.tag ∈ underway r (n.spot r p) := by
        apply (delivered_hand (s := n.spot r p) hdeal).subset
        exact List.mem_append_right _ (List.mem_singleton_self _)
      obtain ⟨j, b, i, s, _, hb, hs, hroute⟩ := mem_taken (((hl.lane r p).within hlive).subset hmem)
      have hslot := hl.slot (List.mem_of_getElem? hb) (List.mem_of_getElem? hs)
      rw [← Kept.parcel_type (rootOf (dep.relayer r).src.pid ((j + 1 : Nat) : Int) i s.tag),
        ← Kept.parcel_dst (rootOf (dep.relayer r).src.pid ((j + 1 : Nat) : Int) i s.tag)] at hslot
      have hnum := hslot.routed hroute
      rw [Kept.parcel_type, Kept.parcel_dst, ← hkept] at hnum
      exact hnum

section Sample

omit [DecidableEq ι] [Contracts] [Sha256]

end Sample

end Net

end TorSim
