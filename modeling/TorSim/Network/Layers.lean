/-
  TorSim.Network.Layers — the heights a cross-chain transaction is verified under.

  `wait_header` names two heights: that of the source transaction, and that of the relay
  chain's block in which the source header was confirmed.  It waits until as great a
  height of the relay chain is synchronised at the destination.

  Main results:
    * `advance_taskOk` — what a step of `deal_xtx` knows of the height it waits for.
    * `step_layered` — **no verification is sent before the counter has its height**.
    * `no_synced` — a chain no relayer forwards to has no headers.
    * `headers_between` — **the headers that are there**.
    * `run_layersInv` — what holds of a relayer at a destination in every run.
    * `LayersInv.check_iff` — which verifications find their header.
-/
import TorSim.Network.Waiting

namespace TorSim

open TorSim.Lib

variable {ι : Type} [Contracts] [Sha256]

namespace Net

open CtrLightClient

/-! ## §1. The task. -/

/-- The heights in `deal_xtx` are heights of blocks, and the one of the first layer is
counted. -/
structure TaskOk (t : XtxTask Root) : Prop where
  hand : ∀ hand, t.dealing = some hand → 1 ≤ hand.xtx.height
  waits : ∀ hand h, t.dealing = some hand → hand.wait = .dst h ∨ hand.wait = .layer1 h → 1 ≤ h
  counted : ∀ hand h, t.dealing = some hand → hand.wait = .layer1 h → h ≤ t.syncedHeight
  recorded : ∀ e ∈ t.torCsHeightOnInter, 1 ≤ e.2

omit [Contracts] [Sha256] in
/-- A task without a transaction in hand. -/
theorem taskOk_free {t : XtxTask Root} (hnone : t.dealing = none)
    (hrecorded : ∀ e ∈ t.torCsHeightOnInter, 1 ≤ e.2) : TaskOk t where
  hand hand hd := by
    rw [hnone] at hd
    cases hd
  waits hand h hd := by
    rw [hnone] at hd
    cases hd
  counted hand h hd := by
    rw [hnone] at hd
    cases hd
  recorded := hrecorded

omit [Contracts] [Sha256] in
/-- A task that waits for another thing with the same transaction. -/
theorem TaskOk.next {t t' : XtxTask Root} {hand : Dealing Root} (ht : TaskOk t)
    (hdeal : t.dealing = some hand) {w : Wait}
    (hdeal' : t'.dealing = some { hand with wait := w })
    (hwaits : ∀ h, w = .dst h ∨ w = .layer1 h → 1 ≤ h)
    (hcounted : ∀ h, w = .layer1 h → h ≤ t'.syncedHeight)
    (hrecorded : ∀ e ∈ t'.torCsHeightOnInter, 1 ≤ e.2) : TaskOk t' where
  hand hand' hd := by
    cases hdeal'.symm.trans hd
    exact ht.hand hand hdeal
  waits hand' h hd := by
    cases hdeal'.symm.trans hd
    exact hwaits h
  counted hand' h hd := by
    cases hdeal'.symm.trans hd
    exact hcounted h
  recorded := hrecorded

omit [Sha256] in
/-- **A step of `deal_xtx`**: the height it waits for is one the relay chain has
recorded, and it passes the wait when the counter has it. -/
theorem advance_taskOk {dep : Deployment ι} {r : ι} {dst : Connector} {time put : PyFloat}
    {t t' : XtxTask Root} {hand : Dealing Root} {cs cs' : Int → Chain (Origin ι)}
    (hclient : ∀ inter, (dep.relayer r).inter = some inter →
      ClientAt dep (dep.relayer r).src.pid (cs inter.pid))
    (h : RelayerUnix.AdvanceCase (dep.relayer r) dst time put (xtxTags r) t hand cs t' cs')
    (hdeal : t.dealing = some hand) (ht : TaskOk t) : TaskOk t' := by
  cases h with
  | interQuery hwait =>
      refine ht.next (w := hand.wait) hdeal hdeal (fun h hw => ht.waits hand h hdeal hw)
        (fun h hw => ?_) ht.recorded
      cases hwait.symm.trans hw
  | interDone =>
      refine ht.next hdeal rfl (fun h hw => ?_) (fun h hw => ?_) ht.recorded
      · rcases hw with hw | hw <;> cases hw
      · cases hw
  | @csQuery inter link n c hwait hinter hquery =>
      have hn : 1 ≤ n := (Connector.queryHeaderCsHeight_run
        (dep.lightclient r inter (Or.inr hinter)) (hclient inter hinter).installed hquery).2 n _ rfl
        (ht.hand hand hdeal) (hclient inter hinter).headers
      refine ht.next hdeal rfl (fun h hw => ?_) (fun h hw => ?_) (fun e he => ?_)
      · rcases hw with hw | hw
        · cases hw
          exact hn
        · cases hw
      · cases hw
      · rcases List.mem_cons.mp he with rfl | he
        · exact hn
        · exact ht.recorded e he
  | @csCached n hwait hcached =>
      have hmem : (hand.xtx.height, n) ∈ t.torCsHeightOnInter := mem_of_lookup hcached
      refine ht.next hdeal rfl (fun h hw => ?_) (fun h hw => ?_) ht.recorded
      · rcases hw with hw | hw
        · cases hw
          exact ht.recorded _ hmem
        · cases hw
      · cases hw
  | dstQuery hwait =>
      refine ht.next (w := hand.wait) hdeal hdeal (fun h hw => ht.waits hand h hdeal hw)
        (fun h hw => ?_) ht.recorded
      cases hwait.symm.trans hw
  | @dstDone height hwait hge =>
      have hone := ht.waits hand height hdeal (Or.inl hwait)
      refine ht.next hdeal rfl (fun h hw => ?_) (fun h hw => ?_) ht.recorded
      · split at hw
        next =>
            rcases hw with hw | hw
            · cases hw
            · cases hw
              exact hone
        next => rcases hw with hw | hw <;> cases hw
      · split at hw
        next =>
            cases hw
            exact hge
        next => cases hw
  | layer1Skip =>
      refine ht.next hdeal rfl (fun h hw => ?_) (fun h hw => ?_) ht.recorded
      · rcases hw with hw | hw <;> cases hw
      · cases hw
  | layer1Sent =>
      refine ht.next hdeal rfl (fun h hw => ?_) (fun h hw => ?_) ht.recorded
      · rcases hw with hw | hw <;> cases hw
      · cases hw
  | sent => exact taskOk_free rfl ht.recorded
  | dead => exact taskOk_free rfl ht.recorded
  | deadQuery => exact taskOk_free rfl ht.recorded
  | deadLayer1 => exact taskOk_free rfl ht.recorded
  | deadSent => exact taskOk_free rfl ht.recorded

/-! ## §2. What is sent. -/

/-- **The heights of a relayer's verifications at one destination**: those it waits for,
and those of what it has sent, of the first layer not above the counter. -/
structure Layered (dep : Deployment ι) (r : ι) (s : Spot ι) : Prop where
  queue : ∀ e, some e ∈ s.tools.queueXtx → 1 ≤ e.2.height
  task : TaskOk s.tools.xtxTask
  source : ∀ e ∈ s.chain.accepted, ∀ h root, e.1 = .xtx r h root → 1 ≤ h
  layer1 : ∀ e ∈ s.chain.accepted, ∀ h, e.1 = .layer1 r h → 1 ≤ h
    ∧ h ≤ peak 0 (synced dep (RelayerUnix.countedPid (dep.relayer r)) s.chain)

variable [DecidableEq ι] {dep : Deployment ι} {n n' : Net ι} {a : Action ι} {r : ι} {pid : Int}

/-- What is accepted after a step. -/
theorem layered_accepted {c : Chain (Origin ι)} (hcached : Cached dep r (n.spot r pid))
    (hl : Layered dep r (n.spot r pid)) (heff : ChainEffect dep n a pid c) :
    (∀ e ∈ c.accepted, ∀ h root, e.1 = .xtx r h root → 1 ≤ h)
      ∧ ∀ e ∈ c.accepted, ∀ h, e.1 = .layer1 r h → 1 ≤ h
        ∧ h ≤ peak 0 (synced dep (RelayerUnix.countedPid (dep.relayer r)) c) := by
  have hgrow := synced_effect (p := RelayerUnix.countedPid (dep.relayer r)) heff
  constructor
  · intro e he h root htag
    rcases accepted_effect heff e he with hold | hclient | ⟨tx, hsend, _⟩
    · exact hl.source e hold h root htag
    · cases hclient.symm.trans htag
    · rw [htag] at hsend
      cases hsend with
      | xtx _ hdeal => exact hl.task.hand _ hdeal
  · intro e he h htag
    rcases accepted_effect heff e he with hold | hclient | ⟨tx, hsend, _⟩
    · obtain ⟨hone, hle⟩ := hl.layer1 e hold h htag
      exact ⟨hone, hle.trans hgrow⟩
    · cases hclient.symm.trans htag
    · rw [htag] at hsend
      cases hsend with
      | layer1 _ hdeal hwait =>
          exact ⟨hl.task.waits _ h hdeal (Or.inr hwait),
            ((hl.task.counted _ h hdeal hwait).trans hcached).trans hgrow⟩

/-- **No verification is sent before the counter has its height.** -/
theorem step_layered (hn : NetOk dep n)
    (hclient : ∀ inter, (dep.relayer r).inter = some inter →
      ClientAt dep (dep.relayer r).src.pid (n.chains inter.pid))
    (hcached : Cached dep r (n.spot r pid)) (hl : Layered dep r (n.spot r pid))
    (h : step dep n a = some n') : Layered dep r (n'.spot r pid) := by
  have hspot := step_spot h r pid
  have hacc : _ ∧ _ := layered_accepted (c := (n'.spot r pid).chain) hcached hl (step_chain h pid)
  generalize n'.spot r pid = s' at hspot hacc ⊢
  obtain ⟨hsource, hlayer1⟩ := hacc
  have hqueue : ∀ e, some e ∈ (n.dst r pid).queueXtx → 1 ≤ e.2.height := hl.queue
  have htask : TaskOk (n.dst r pid).xtxTask := hl.task
  cases hspot with
  | elsewhere => exact ⟨hqueue, htask, hsource, hlayer1⟩
  | started => exact ⟨hqueue, htask, hsource, hlayer1⟩
  | retry => exact ⟨hqueue, htask, hsource, hlayer1⟩
  | stopListen => exact ⟨hqueue, htask, hsource, hlayer1⟩
  | stopHeader => exact ⟨hqueue, htask, hsource, hlayer1⟩
  | stopXtx =>
      refine ⟨fun e he => ?_, htask, hsource, hlayer1⟩
      rcases List.mem_append.mp he with hin | hnew
      · exact hqueue e hin
      · cases List.mem_singleton.mp hnew
  | @block k time block header res ds hk hfetch hfilter =>
      obtain ⟨hs, fs, hds, _, hpre, _⟩ := (RelayerUnix.filterBlock_run hfilter pid).queues
      refine ⟨fun e he => ?_, ?_, hsource, hlayer1⟩
      · dsimp only at he
        rw [hds] at he
        rcases List.mem_append.mp he with hin | hnew
        · exact hqueue e hin
        · obtain ⟨e', he', heq⟩ := List.mem_map.mp hnew
          cases heq
          obtain ⟨hone, hheight⟩ := forwards_height hn hk hfetch (hpre.subset he')
          rw [hheight]
          exact hone
      · dsimp only
        rw [hds]
        exact htask
  | dealHeader haction hdst halive hround =>
      cases hround with
      | stop => exact ⟨hqueue, htask, hsource, hlayer1⟩
      | sent => exact ⟨hqueue, htask, hsource, hlayer1⟩
      | failed => exact ⟨hqueue, htask, hsource, hlayer1⟩
  | takeXtx hdst halive hnone hround =>
      have hrest : ∀ {x : Option (Root × Transaction)} {rest : List (Option (Root × Transaction))},
          (n.dst r pid).queueXtx = x :: rest → ∀ e, some e ∈ rest → 1 ≤ e.2.height :=
        fun hq e he => hqueue e (hq ▸ List.mem_cons_of_mem _ he)
      cases hround with
      | stop hq => exact ⟨hrest hq, taskOk_free hnone htask.recorded, hsource, hlayer1⟩
      | failed hq => exact ⟨hrest hq, taskOk_free hnone htask.recorded, hsource, hlayer1⟩
      | @taken tag xtx rest hand hq hprep =>
          have hone : 1 ≤ xtx.height := hqueue (tag, xtx) (hq ▸ List.mem_cons_self)
          have hxtx : hand.xtx.height = xtx.height := by rw [hprep.xtx_eq]
          have hfirst : ∀ h, (hand.wait = .dst h → 1 ≤ h) ∧ hand.wait ≠ .layer1 h := by
            intro h
            have hwait := hprep.wait
            unfold RelayerUnix.firstWait at hwait
            split at hwait
            next =>
                rw [← Except.ok.inj hwait]
                exact ⟨fun heq => Wait.dst.inj heq ▸ hone, Wait.noConfusion⟩
            next =>
                rw [← Except.ok.inj hwait]
                exact ⟨fun heq => Wait.dst.inj heq ▸ hone, Wait.noConfusion⟩
            next =>
                split at hwait
                next =>
                    rw [← Except.ok.inj hwait]
                    exact ⟨Wait.noConfusion, Wait.noConfusion⟩
                next => cases hwait
          refine ⟨hrest hq, ⟨fun hand' hd => ?_, fun hand' h hd hw => ?_, fun hand' h hd hw => ?_,
            htask.recorded⟩, hsource, hlayer1⟩
          · cases hd
            rw [hxtx]
            exact hone
          · cases hd
            rcases hw with hw | hw
            · exact (hfirst h).1 hw
            · exact absurd hw (hfirst h).2
          · cases hd
            exact absurd hw (hfirst h).2
  | advance haction hdst halive hdeal hround =>
      exact ⟨hqueue, advance_taskOk hclient hround hdeal htask, hsource, hlayer1⟩

/-! ## §3. Which headers are there. -/

omit [Contracts] [DecidableEq ι] in
/-- **A chain no relayer forwards to has no headers.** -/
theorem no_synced (hn : NetOk dep n) {p q : Int}
    (hno : ∀ r', (dep.relayer r').src.pid = p → q ∉ RelayerUnix.headerTargets (dep.relayer r')) :
    synced dep p (n.chains q) = [] := by
  refine List.filterMap_eq_nil_iff.mpr fun e he => ?_
  have hhead := typed_head (hn.chains q) (hn.accepted q) (List.mem_append_left _ he)
  obtain ⟨tag, k⟩ := e
  cases tag with
  | none => rfl
  | some t =>
      cases t with
      | header r' h =>
          obtain ⟨_, htarget, _⟩ := hhead
          exact if_neg fun hsrc => hno r' hsrc htarget
      | client => rfl
      | layer1 => rfl
      | xtx => rfl

omit [Sha256] [DecidableEq ι] in
/-- Without headers there is none. -/
theorem not_hasHeader {p q h : Int} (hclient : ClientAt dep p (n.chains q))
    (hnil : synced dep p (n.chains q) = []) (hpos : 1 ≤ h) : ¬ HasHeader p h (n.chains q) := by
  intro hhas
  have hmem := (hclient.headers.entries h (by omega)).mp hhas
  rw [hnil] at hmem
  cases hmem

omit [Sha256] [DecidableEq ι] in
/-- **A counted height stands for a header exactly from the first block on** that the
forwarding relayer took. -/
theorem hasHeader_iff {g : ι} {q h : Int}
    (hclient : ClientAt dep (dep.relayer g).src.pid (n.chains q))
    (hc : Climbing dep g q (n.spot g q)) (hpos : 1 ≤ h)
    (hpeak : h ≤ peak 0 (synced dep (dep.relayer g).src.pid (n.chains q))) :
    HasHeader (dep.relayer g).src.pid h (n.chains q) ↔ (n.relayers g).startbn ≤ h := by
  rw [HasHeader, hclient.headers.entries h (by omega)]
  constructor
  · intro hmem
    have hladder := hc.ladder
    rw [sent_eq] at hladder
    exact hladder.of_append.le_of_mem hmem
  · intro hstart
    exact hc.mem_synced hstart (by omega) hpeak

omit [Sha256] [DecidableEq ι] in
/-- **The headers that are there**: those from the first block on that the forwarding
relayer took, up to the counter. -/
theorem headers_between {g : ι} {q : Int}
    (hclient : ClientAt dep (dep.relayer g).src.pid (n.chains q))
    (hc : Climbing dep g q (n.spot g q)) :
    ∃ m : Int, queryHeaderMaxn (n.chains q).store (.int (dep.relayer g).src.pid)
        = .ok (.str (toString m))
      ∧ ∀ h, 1 ≤ h → (HasHeader (dep.relayer g).src.pid h (n.chains q)
        ↔ (n.relayers g).startbn ≤ h ∧ h ≤ m) := by
  refine ⟨peak 0 (synced dep (dep.relayer g).src.pid (n.chains q)), ?_, fun h hpos => ⟨fun hhas => ?_,
    fun hbetween => (hasHeader_iff hclient hc hpos hbetween.2).mpr hbetween.1⟩⟩
  · rw [queryHeaderMaxn, hclient.headers.counter]
    split
    next hnil =>
        rw [hnil]
        rfl
    next => rfl
  · have hpeak : h ≤ peak 0 (synced dep (dep.relayer g).src.pid (n.chains q)) :=
      le_peak_of_mem ((hclient.headers.entries h (by omega)).mp hhas) 0
    exact ⟨(hasHeader_iff hclient hc hpos hpeak).mp hhas, hpeak⟩

omit [DecidableEq ι] in
/-- A verification fails for want of its header exactly when the header is not there. -/
theorem executeTx_noHeader_iff (pr : Proposal (Origin ι)) {p h : Int} {c : Chain (Origin ι)}
    {tx : Transaction} {t state : String} (hinst : Executor.Installed c.store)
    (hto : tx.to_ = .str "lightclient")
    (hdata : tx.data = .str (CtrLightClient.request .validateState
      [.int p, .str t, .int h, .str state])) :
    ∃ resp, (Executor.executeTx ⟨some pr.block⟩ pr.height pr.done.length tx c.store).1 = .ok resp
      ∧ (resp = Response.new 0 (.str (noHeader (.int p) (.int h))) ↔ ¬ HasHeader p h c) := by
  by_cases hhas : HasHeader p h c
  · refine (executeTx_finds hinst hhas hto hdata).imp fun resp hfound => ⟨hfound.1, ?_⟩
    exact ⟨fun heq => absurd heq hfound.2, fun hno => absurd hhas hno⟩
  · have hcall := (validateState_noHeader_iff (.int p) (.str t) (.int h) (.str state) c.store).mpr
      (Bool.eq_false_iff.mpr hhas)
    rw [Executor.executeTx_request hinst (by simp [Json.wf]) _ _ _ hto hdata]
    refine ⟨_, rfl, fun _ => hhas, fun _ => ?_⟩
    rw [call, hcall]

/-! ## §4. Every run. -/

/-- **Relayer `r` at destination `q`**, where the headers it counts are forwarded by
`g`. -/
structure LayersInv (dep : Deployment ι) (r g : ι) (q : Int) (n : Net ι) : Prop where
  net : NetOk dep n
  source : ClientAt dep (dep.relayer r).src.pid (n.chains q)
  counted : ClientAt dep (dep.relayer g).src.pid (n.chains q)
  recorded : ∀ inter, (dep.relayer r).inter = some inter →
    ClientAt dep (dep.relayer r).src.pid (n.chains inter.pid)
  climbing : Climbing dep g q (n.spot g q)
  cached : Cached dep r (n.spot r q)
  layered : Layered dep r (n.spot r q)

/-- What clients do not touch, at the chains relayer `r` asks. -/
structure ClientsApart (dep : Deployment ι) (r g : ι) (q : Int) (n : Net ι) (a : Action ι) :
    Prop where
  source : OthersLeaveAlone (dep.relayer r).src.pid q n a
  counted : OthersLeaveAlone (dep.relayer g).src.pid q n a
  recorded : ∀ inter, (dep.relayer r).inter = some inter →
    OthersLeaveAlone (dep.relayer r).src.pid inter.pid n a

variable {g : ι} {q : Int}

theorem step_layersInv (hcount : RelayerUnix.countedPid (dep.relayer r) = (dep.relayer g).src.pid)
    (hwriter : OnlyWriter dep g q) (hi : LayersInv dep r g q n)
    (halone : ClientsApart dep r g q n a) (h : step dep n a = some n') :
    LayersInv dep r g q n' where
  net := step_netOk hi.net h
  source := net_clientAt hi.net hi.source halone.source h
  counted := net_clientAt hi.net hi.counted halone.counted h
  recorded inter hinter :=
    net_clientAt hi.net (hi.recorded inter hinter) (halone.recorded inter hinter) h
  climbing := step_climbing hi.net hwriter hi.climbing h
  cached := step_cached (hcount.symm ▸ hi.counted) hi.cached h
  layered := step_layered hi.net hi.recorded hi.cached hi.layered h

theorem run_layersInv (hcount : RelayerUnix.countedPid (dep.relayer r) = (dep.relayer g).src.pid)
    (hwriter : OnlyWriter dep g q) {acts : List (Action ι)}
    (halone : Along (step dep) (ClientsApart dep r g q) n acts)
    (h : runFrom (step dep) n acts = some n') (hi : LayersInv dep r g q n) :
    LayersInv dep r g q n' :=
  run_invariant_along (fun _ _ _ hi ha hs => step_layersInv hcount hwriter hi ha hs) acts halone h hi

omit [DecidableEq ι] in
/-- A network as it starts, with light clients without headers. -/
theorem Started.layersInv (h : Started n)
    (hinst : ∀ p, p = q ∨ (∃ inter, (dep.relayer r).inter = some inter ∧ p = inter.pid) →
      Executor.Installed (n.chains p).store)
    (hnone : ∀ p, p = q ∨ (∃ inter, (dep.relayer r).inter = some inter ∧ p = inter.pid) →
      ∀ r' k : Int, 0 ≤ k →
        (n.chains p).store.get (headerKey (.int r') (.int k)) = none) :
    LayersInv dep r g q n := by
  have hq : WaitInv dep r q n := h.waitInv (hinst q (Or.inl rfl)) (hnone q (Or.inl rfl) _)
  have hg : WaitInv dep g q n := h.waitInv (hinst q (Or.inl rfl)) (hnone q (Or.inl rfl) _)
  have hclients : ∀ e ∈ (n.chains q).accepted, e.1 = .client := h.clients q
  have htools : n.dst r q = {} := by
    rw [dst, h.relayers r]
  refine ⟨hq.net, hq.client, hg.client, fun inter hinter => ?_, hg.climbing, ?_, ?_⟩
  · have hi : WaitInv dep r inter.pid n := h.waitInv (hinst _ (Or.inr ⟨inter, hinter, rfl⟩))
      (hnone _ (Or.inr ⟨inter, hinter, rfl⟩) _)
    exact hi.client
  · rw [Cached]
    show (n.dst r q).xtxTask.syncedHeight ≤ _
    rw [htools]
    exact le_peak _ 0
  · refine ⟨fun e he => ?_, ?_, fun e he k root htag => ?_, fun e he k htag => ?_⟩
    · have hempty : some e ∈ (n.dst r q).queueXtx := he
      rw [htools] at hempty
      cases hempty
    · show TaskOk (n.dst r q).xtxTask
      rw [htools]
      exact taskOk_free rfl (fun e he => by cases he)
    · cases (hclients e he).symm.trans htag
    · cases (hclients e he).symm.trans htag

/-- The header a verification of relayer `r` is made under. -/
inductive MadeUnder (dep : Deployment ι) (r : ι) : Origin ι → Int → Int → Prop where
  | layer1 {inter : Connector} {h : Int} (hinter : (dep.relayer r).inter = some inter) :
      MadeUnder dep r (.layer1 r h) inter.pid h
  | layer2 {h : Int} {root : Root} : MadeUnder dep r (.xtx r h root) (dep.relayer r).src.pid h

omit [DecidableEq ι] in
/-- **Which verifications find their header**, where nobody forwards the headers of
the source: those of the first layer from the first block on that `g` took. -/
theorem LayersInv.check_iff
    (hcount : RelayerUnix.countedPid (dep.relayer r) = (dep.relayer g).src.pid)
    (hinter : ∀ inter, (dep.relayer r).inter = some inter → inter.pid = (dep.relayer g).src.pid)
    (hno : ∀ r', (dep.relayer r').src.pid = (dep.relayer r).src.pid →
      q ∉ RelayerUnix.headerTargets (dep.relayer r'))
    (hi : LayersInv dep r g q n) {pr : Proposal (Origin ι)} {tag : Origin ι} {tx : Transaction}
    {rest : List (Option (Origin ι) × Transaction)} (hphase : (n.chains q).phase = .executing pr)
    (hrest : pr.rest = (some tag, tx) :: rest) {p h : Int} (hunder : MadeUnder dep r tag p h) :
    ∃ t state resp, tx.data = .str (CtrLightClient.request .validateState
        [.int p, .str t, .int h, .str state])
      ∧ (Executor.executeTx ⟨some pr.block⟩ pr.height pr.done.length tx (n.chains q).store).1
          = .ok resp
      ∧ (resp ≠ Response.new 0 (.str (noHeader (.int p) (.int h)))
        ↔ tag = .layer1 r h ∧ (n.relayers g).startbn ≤ h) := by
  have hmem : (some tag, tx.kept) ∈ (n.chains q).done ++ (n.chains q).waiting := by
    rw [Chain.waiting_head hphase hrest]
    exact List.mem_append_right _ List.mem_cons_self
  have htyped := typed_head (hi.net.chains q) (hi.net.accepted q) hmem
  have hflow := Chain.mem_tagged.mpr hmem
  rw [← (hi.net.chains q).flow] at hflow
  obtain ⟨e, he, heq⟩ := List.mem_map.mp hflow
  have htag : e.1 = tag := (Prod.mk.inj heq).1
  cases hunder with
  | layer1 hconn =>
      obtain ⟨inter, state, hconn', hto, hdata, _⟩ := htyped
      have hsame := Option.some.inj (hconn'.symm.trans hconn)
      subst hsame
      obtain ⟨hone, hle⟩ := hi.layered.layer1 e he h htag
      rw [hcount] at hle
      obtain ⟨resp, hresp, hiff⟩ := executeTx_noHeader_iff pr hi.source.installed hto hdata
      refine ⟨_, state, resp, hdata, hresp, ?_⟩
      rw [ne_eq, hiff, not_not, hinter inter hconn,
        hasHeader_iff hi.counted hi.climbing hone hle]
      exact ⟨fun hstart => ⟨rfl, hstart⟩, fun hstart => hstart.2⟩
  | @layer2 _ root =>
      obtain ⟨hto, t, state, hdata⟩ := htyped
      have hone := hi.layered.source e he h root htag
      have hmiss := not_hasHeader hi.source (no_synced hi.net hno) hone
      obtain ⟨resp, hresp, hiff⟩ := executeTx_noHeader_iff pr hi.source.installed hto hdata
      refine ⟨t, state, resp, hdata, hresp, fun hne => absurd (hiff.mpr hmiss) hne, fun hlayer => ?_⟩
      cases hlayer.1

end Net

end TorSim
