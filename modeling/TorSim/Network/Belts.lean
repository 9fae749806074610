/-
  TorSim.Network.Belts — the belts between the relayers and their destinations.

  Listening loads a belt, taking from `queue_xtx` takes from it, and sending delivers:
  nothing else touches it.

  Main results:
    * `step_moves` — **every step moves every belt**, unless a task ends.
    * `run_books` — in every run where no task ended, all belts are whole.
-/
import TorSim.Network.Parcels

namespace TorSim

open TorSim.Lib

variable {ι : Type}

namespace Net

variable [DecidableEq ι] [Contracts] [Sha256]

variable {dep : Deployment ι} {mode : Mode} {paras : List Int} {n n' : Net ι} {a : Action ι}

/-! ## §1. Steps. -/

/-- No task that listens or passes transactions on has ended. -/
structure Alive (n : Net ι) : Prop where
  listens : ∀ r, (n.relayers r).listen ≠ .stopped
  deals : ∀ r d, (n.dst r d).xtxTask.alive = true

/-- A relayer starts before a cross-chain transaction is committed on its source chain,
and clients submit ordinary and `CTX-SRC` transactions only. -/
structure Orderly (dep : Deployment ι) (paras : List Int) (n : Net ι) (a : Action ι) : Prop where
  early : ∀ r link, a = .start r link → ∀ b ∈ (n.chains (dep.relayer r).src.pid).history,
    ∀ s ∈ b.slots, s.tx.kept.memo "type" ≠ some (.str TranMemo.ctxSrc)
      ∧ s.tx.kept.memo "type" ≠ some (.str TranMemo.ctxInter)
  clients : ∀ p time tag tx, a = .chain p (.submit time tag tx) →
    FromOutside paras p (tx.kept.memo "type") (tx.kept.memo "dst")

omit [Contracts] [Sha256] in
/-- A round of `listen_block` leaves the task of a destination alone. -/
theorem filterBlock_task {cfg : RelayerConfig} {time : Nat → PyFloat} {tag : Nat → Root}
    {block : Block} {header : Json} {ds ds' : Int → DstTool Root} {res : Except Exn Nat}
    (h : RelayerUnix.filterBlock cfg time tag block header ds = (res, ds')) (d : Int) :
    (ds' d).xtxTask = (ds d).xtxTask := by
  obtain ⟨hs, fs, hd, _⟩ := (RelayerUnix.filterBlock_run h d).queues
  rw [hd]

/-- **A task that ended does not start again.** -/
theorem alive_of_step (h : step dep n a = some n') (ha : Alive n') : Alive n := by
  constructor
  · intro r hstop
    have hlive : (n'.spot r 0).listen ≠ .stopped := ha.listens r
    have hspot := step_spot h r 0
    generalize n'.spot r 0 = s' at hspot hlive
    cases hspot with
    | started hcreated => cases hcreated.symm.trans hstop
    | retry e hlisten => cases hlisten.symm.trans hstop
    | block hlisten => cases hlisten.symm.trans hstop
    | stopListen => exact hlive rfl
    | elsewhere => exact hlive hstop
    | stopHeader => exact hlive hstop
    | stopXtx => exact hlive hstop
    | dealHeader => exact hlive hstop
    | takeXtx => exact hlive hstop
    | advance => exact hlive hstop
  · intro r d
    have hlive : (n'.spot r d).tools.xtxTask.alive = true := ha.deals r d
    have hspot := step_spot h r d
    generalize n'.spot r d = s' at hspot hlive
    cases hspot with
    | block hlisten hfetch hfilter =>
        have htask := filterBlock_task hfilter d
        dsimp only at hlive
        rw [htask] at hlive
        exact hlive
    | dealHeader haction hdst halive hround =>
        cases hround with
        | stop => exact hlive
        | sent => exact hlive
        | failed => exact hlive
    | takeXtx hdst halive => exact halive
    | advance haction hdst halive => exact halive
    | elsewhere => exact hlive
    | started => exact hlive
    | retry => exact hlive
    | stopListen => exact hlive
    | stopHeader => exact hlive
    | stopXtx => exact hlive

omit [Contracts] [Sha256] in
/-- The belt depends on what was heard and delivered, on the hand and on the queue. -/
theorem beltAt_congr {r : ι} {d : Int} {rs rs' : List (Committed (Origin ι))} {s s' : Spot ι}
    (hheard : heard dep r rs' s'.listen = heard dep r rs s.listen)
    (hdelivered : delivered r s'.chain = delivered r s.chain)
    (hhand : s'.tools.xtxTask.dealing = s.tools.xtxTask.dealing)
    (hqueue : s'.tools.queueXtx = s.tools.queueXtx) :
    beltAt dep r d rs' s' = beltAt dep r d rs s := by
  unfold beltAt
  rw [hheard, hdelivered, hhand, hqueue]

omit [DecidableEq ι] [Contracts] in
/-- The transactions of a fetched block are those of the committed one. -/
theorem fetched_txs {r : ι} {k : Int} {block : Block} {header : Json} (hn : NetOk dep n)
    (hlisten : (n.relayers r).listen = .listening k)
    (hfetch : RelayerUnix.Fetched (n.chains (dep.relayer r).src.pid) k block header) :
    (∀ tx ∈ block.txs, Stamped tx.memo ∧ tx.status = .success)
      ∧ 0 ≤ k ∧ k ≤ (n.chains (dep.relayer r).src.pid).history.length
      ∧ ((k = 0 ∧ block.txs = [])
        ∨ ∃ b, 1 ≤ k ∧ (n.chains (dep.relayer r).src.pid).history[k.toNat - 1]? = some b
          ∧ block.txs = b.slots.map Executed.tx) := by
  obtain ⟨_, hinv⟩ := (hn.chains (dep.relayer r).src.pid).inv
  have h0 := (hn.listening r k hlisten).1
  obtain ⟨_, _, _, hle, hwhere⟩ := RelayerUnix.fetched_block hinv h0 hfetch
  rcases hwhere with ⟨hk, hnil⟩ | ⟨b, h1, hb, rfl⟩
  · refine ⟨fun tx htx => ?_, h0, hle, Or.inl ⟨hk, hnil⟩⟩
    rw [hnil] at htx
    cases htx
  · have hok := hinv.committed b (List.mem_of_getElem? hb)
    refine ⟨fun tx htx => ?_, h0, hle, Or.inr ⟨b, h1, hb, hok.txs⟩⟩
    rw [hok.txs] at htx
    obtain ⟨s, hs, rfl⟩ := List.mem_map.mp htx
    exact ⟨hok.memo s hs, hok.status s hs⟩

omit [DecidableEq ι] [Contracts] in
/-- **What a handled block adds to what was heard is what joins the queue.** -/
theorem block_parcels (hw : Wired dep mode paras) (hn : NetOk dep n) {r : ι} {k : Int}
    {time : Nat → PyFloat} {block : Block} {header : Json} {m : Nat} {ds : Int → DstTool Root}
    (hlisten : (n.relayers r).listen = .listening k)
    (hfetch : RelayerUnix.Fetched (n.chains (dep.relayer r).src.pid) k block header)
    (hfilter : RelayerUnix.filterBlock (dep.relayer r) time
      (slotRoot (dep.relayer r).src.pid (n.chains (dep.relayer r).src.pid) k) block header
      (n.relayers r).dsts = (.ok m, ds)) (d : Int) :
    ∃ xs, (ds d).queueXtx.filterMap (Option.map (fun e => e.2.kept.parcel e.1))
        = (n.dst r d).queueXtx.filterMap (Option.map (fun e => e.2.kept.parcel e.1)) ++ xs
      ∧ (heard dep r (n.chains (dep.relayer r).src.pid).history (.listening (k + 1))).filterMap
          (Parcel.route (dep.relayer r) d)
        = (heard dep r (n.chains (dep.relayer r).src.pid).history (.listening k)).filterMap
          (Parcel.route (dep.relayer r) d) ++ xs := by
  obtain ⟨htxs, h0, _, hwhere⟩ := fetched_txs hn hlisten hfetch
  have hpasses := (RelayerUnix.filterBlock_returns_iff (dep.relayer r) time _
    (fun tx htx => (htxs tx htx).1) header _).mp ⟨m, ds, hfilter⟩
  have hall : ∀ tx ∈ block.txs, RelayerUnix.passable (dep.relayer r) tx = true := by
    unfold RelayerUnix.passes at hpasses
    exact List.all_eq_true.mp (Bool.and_eq_true_iff.mp hpasses).2
  have hpar : ¬ (dep.relayer r).isPar = true := by
    intro h
    obtain ⟨htor, _⟩ := Bool.and_eq_true_iff.mp h
    have htor : (dep.relayer r).mode = .tor := by simpa using htor
    exact hw.direct ((hw.mode_eq r).symm.trans htor)
  obtain ⟨hs, fs, hd, _, _, hfull⟩ := (RelayerUnix.filterBlock_run hfilter d).queues
  obtain ⟨_, rfl⟩ := hfull ⟨m, rfl⟩
  unfold RelayerUnix.blockForwards at hd
  rw [if_neg hpar] at hd
  have hjoins := forwards_parcels time
    (slotRoot (dep.relayer r).src.pid (n.chains (dep.relayer r).src.pid) k) d
    (fun tx htx => (htxs tx htx).1) (fun tx htx => (htxs tx htx).2) hall 0
  refine ⟨((block.txs.zipIdx 0).map (fun p => p.1.kept.parcel (slotRoot (dep.relayer r).src.pid
    (n.chains (dep.relayer r).src.pid) k p.2))).filterMap (Parcel.route (dep.relayer r) d), ?_, ?_⟩
  · rw [hd, List.filterMap_append, List.filterMap_map, ← hjoins]
    refine congrArg (List.filterMap _ (n.dst r d).queueXtx ++ ·) ?_
    exact congrFun List.filterMap_eq_map' _
  · rcases hwhere with ⟨rfl, hnil⟩ | ⟨b, h1, hb, hslots⟩
    · rw [hnil]
      exact (List.append_nil _).symm
    · have hnext : (Listen.listening (k + 1)).behind = (k.toNat - 1) + 1 := by
        show (k + 1).toNat - 1 = _
        omega
      have hcast : (k.toNat - 1) + 1 = k.toNat := by omega
      unfold heard
      rw [hnext, firstParcels_succ hb, List.filterMap_append, hcast,
        blockParcels_eq h1 hb hslots]
      rfl

/-- The task sends what it has in hand, or keeps it. -/
theorem advance_moves {r : ι} {d : Int} {link : Link} {time put : PyFloat} {dst : Connector}
    {hand : Dealing Root} {t : XtxTask Root} {cs : Int → Chain (Origin ι)}
    {rs' : List (Committed (Origin ι))} (haction : a = .advance r d link time put)
    (hdst : (dep.relayer r).dst d = some dst) (hdeal : (n.dst r d).xtxTask.dealing = some hand)
    (hround : RelayerUnix.AdvanceCase (dep.relayer r) dst time put (xtxTags r)
      (n.dst r d).xtxTask hand n.chains t cs) (heff : ChainEffect dep n a d (cs d))
    (hheard : heard dep r rs' (n.relayers r).listen
      = heard dep r (n.chains (dep.relayer r).src.pid).history (n.relayers r).listen)
    (halive : t.alive = true) :
    Belt.Moves (belt dep n r d) (beltAt dep r d rs' { n.spot r d with
      tools := { n.dst r d with xtxTask := t }
      chain := cs d }) := by
  obtain ⟨_, hpid⟩ := dst_eq_some hdst
  -- a hand that is not ready is kept, and nothing is delivered
  have hkeep : hand.wait ≠ .ready → (∃ w, t.dealing = some { hand with wait := w }) →
      Belt.Moves (belt dep n r d) (beltAt dep r d rs' { n.spot r d with
        tools := { n.dst r d with xtxTask := t }
        chain := cs d }) := by
    intro hwait ⟨w, hw⟩
    have hdelivered : delivered r (cs d) = delivered r (n.chains d) := by
      refine delivered_effect heff fun h root tx hsend => ?_
      rw [haction] at hsend
      cases hsend with
      | xtx _ hdeal' hready _ =>
          cases hdeal.symm.trans hdeal'
          exact hwait hready
    have hsame : beltAt dep r d rs' { n.spot r d with
        tools := { n.dst r d with xtxTask := t }
        chain := cs d } = belt dep n r d := by
      unfold belt beltAt
      dsimp only
      rw [hdelivered, hw]
      show Belt.mk ((heard dep r rs' (n.relayers r).listen).filterMap _) _ _ _ = _
      rw [hheard]
      show _ = Belt.mk _ _ ((n.dst r d).xtxTask.dealing.map _) _
      rw [hdeal]
      rfl
    rw [hsame]
    exact .rest _
  have hne : ∀ {w : Wait}, w ≠ .ready → hand.wait = w → hand.wait ≠ .ready :=
    fun hw hwait => hwait ▸ hw
  cases hround with
  | interQuery hwait => exact hkeep (hne (by simp) hwait) ⟨hand.wait, hdeal⟩
  | interDone hwait => exact hkeep (hne (by simp) hwait) ⟨_, rfl⟩
  | csQuery hwait => exact hkeep (hne (by simp) hwait) ⟨_, rfl⟩
  | csCached hwait => exact hkeep (hne (by simp) hwait) ⟨_, rfl⟩
  | dstQuery hwait => exact hkeep (hne (by simp) hwait) ⟨hand.wait, hdeal⟩
  | dstDone hwait => exact hkeep (hne (by simp) hwait) ⟨_, rfl⟩
  | layer1Skip hwait => exact hkeep (hne (by simp) hwait) ⟨_, rfl⟩
  | layer1Sent hwait => exact hkeep (hne (by simp) hwait) ⟨_, rfl⟩
  | dead => cases halive
  | deadQuery => cases halive
  | deadLayer1 => cases halive
  | deadSent => cases halive
  | @sent tx hwait hmark hput =>
      rw [hpid] at hput
      have hchain : RelayerUnix.setChain dst.pid ((n.chains dst.pid).submit put
          ((xtxTags r).xtx hand.xtx.height hand.tag) (Connector.arrived tx)) n.chains d
          = (n.chains d).submit put (.xtx r hand.xtx.height hand.tag) (Connector.arrived tx) := by
        rw [hpid, RelayerUnix.setChain_self]
        rfl
      have hkept : tx.kept = hand.tx.kept := RelayerUnix.kept_markTx hmark
      have hdelivered : delivered r ((n.chains d).submit put (.xtx r hand.xtx.height hand.tag)
          (Connector.arrived tx)) = delivered r (n.chains d) ++ [hand.tx.kept.parcel hand.tag] := by
        rcases Chain.submit_cases put (.xtx r hand.xtx.height hand.tag) (Connector.arrived tx)
          (n.chains d) with ⟨_, hacc⟩ | ⟨hrefused, _⟩
        · rw [delivered_append hacc, sentBy, if_pos rfl, ← hkept]
          rfl
        · exact absurd hput hrefused
      have hhand : (belt dep n r d).hand = some (hand.tx.kept.parcel hand.tag) := by
        show (n.dst r d).xtxTask.dealing.map _ = _
        rw [hdeal]
        rfl
      have hnext : beltAt dep r d rs' { n.spot r d with
          tools := { n.dst r d with xtxTask := { (n.dst r d).xtxTask with dealing := none } }
          chain := (n.chains d).submit put (.xtx r hand.xtx.height hand.tag)
            (Connector.arrived tx) }
          = { belt dep n r d with
            delivered := (belt dep n r d).delivered ++ [hand.tx.kept.parcel hand.tag]
            hand := none } := by
        unfold belt beltAt
        dsimp only
        rw [hdelivered]
        show Belt.mk ((heard dep r rs' (n.relayers r).listen).filterMap _) _ _ _ = _
        rw [hheard]
        rfl
      rw [hchain, hnext]
      exact .deliver hhand

omit [Contracts] [Sha256] in
/-- The task takes what comes first. -/
theorem takeXtx_moves {r : ι} {d : Int} {dst : Connector} {tools : DstTool Root}
    {rs' : List (Committed (Origin ι))} (hnone : (n.dst r d).xtxTask.dealing = none)
    (hround : RelayerUnix.TakeCase (dep.relayer r) dst (n.dst r d) tools)
    (hheard : heard dep r rs' (n.relayers r).listen
      = heard dep r (n.chains (dep.relayer r).src.pid).history (n.relayers r).listen)
    (halive : tools.xtxTask.alive = true) :
    Belt.Moves (belt dep n r d) (beltAt dep r d rs' { n.spot r d with tools := tools }) := by
  cases hround with
  | stop => cases halive
  | failed => cases halive
  | @taken tag xtx rest hand hqueue hprep =>
      have hparcel : hand.tx.kept.parcel hand.tag = xtx.kept.parcel tag := by
        rw [hprep.tag_eq]
        exact parcel_congr tag hprep.memo
      have hhand : (belt dep n r d).hand = none := by
        show (n.dst r d).xtxTask.dealing.map _ = none
        rw [hnone]
        rfl
      have hfirst : (belt dep n r d).queue = xtx.kept.parcel tag
          :: rest.filterMap (Option.map (fun e => e.2.kept.parcel e.1)) := by
        show (n.dst r d).queueXtx.filterMap _ = _
        rw [hqueue]
        rfl
      have hnext : beltAt dep r d rs' { n.spot r d with
          tools := { n.dst r d with
            queueXtx := rest
            xtxTask := { (n.dst r d).xtxTask with dealing := some hand } } }
          = { belt dep n r d with
            hand := some (xtx.kept.parcel tag)
            queue := rest.filterMap (Option.map (fun e => e.2.kept.parcel e.1)) } := by
        unfold belt beltAt
        dsimp only [Option.map_some]
        rw [hparcel]
        show Belt.mk ((heard dep r rs' (n.relayers r).listen).filterMap _) _ _ _ = _
        rw [hheard]
        rfl
      rw [hnext]
      exact .take hhand hfirst

/-- A relayer begins to listen only by its own start. -/
theorem start_of_listening (h : step dep n a = some n') {r : ι} {k : Int}
    (hcreated : (n.relayers r).listen = .created)
    (hlisten : (n'.relayers r).listen = .listening k) : ∃ link, a = .start r link := by
  have hstays : ∀ {m : Net ι}, (m.relayers r).listen = (n.relayers r).listen →
      (m.relayers r).listen ≠ .listening k := by
    intro m hsame heq
    cases hcreated.symm.trans (hsame.symm.trans heq)
  have hother : ∀ {r' : ι} (rl : Relayer Root), r' ≠ r →
      ((n.setRelayer r' rl).relayers r).listen = (n.relayers r).listen :=
    fun rl hr => congrArg Relayer.listen (setRelayer_ne (Ne.symm hr) rl n)
  cases step_cases h with
  | chain => exact absurd hlisten (hstays rfl)
  | @start r' link rl _ _ =>
      by_cases hr : r' = r
      · exact ⟨link, by rw [hr]⟩
      · exact absurd hlisten (hstays (hother rl hr))
  | @listen r' link time j rl hlisten' _ =>
      by_cases hr : r' = r
      · subst hr
        cases hcreated.symm.trans hlisten'
      · exact absurd hlisten (hstays (hother rl hr))
  | stopListen r' =>
      by_cases hr : r' = r
      · subst hr
        rw [setRelayer_self] at hlisten
        cases hlisten
      · exact absurd hlisten (hstays (hother _ hr))
  | stopHeader r' p => exact absurd hlisten (hstays (setDst_listen r' p _ n r).1)
  | stopXtx r' p => exact absurd hlisten (hstays (setDst_listen r' p _ n r).1)
  | @dealHeader r' p link time put dst d c _ _ _ =>
      exact absurd hlisten (hstays (setDst_listen r' p d n r).1)
  | @takeXtx r' p link time dst d _ _ _ _ =>
      exact absurd hlisten (hstays (setDst_listen r' p d n r).1)
  | @advance r' p link time put dst hand t cs _ _ _ _ =>
      exact absurd hlisten (hstays (setDst_listen r' p _ n r).1)

omit [DecidableEq ι] [Contracts] [Sha256] in
/-- Ordinary transactions are routed nowhere. -/
theorem route_ordinary {cfg : RelayerConfig} {pid : Int} {rs : List (Committed (Origin ι))}
    (h : ∀ b ∈ rs, ∀ s ∈ b.slots, s.tx.kept.memo "type" ≠ some (.str TranMemo.ctxSrc)
      ∧ s.tx.kept.memo "type" ≠ some (.str TranMemo.ctxInter)) (k : Nat) (d : Int) :
    (firstParcels pid rs k).filterMap (Parcel.route cfg d) = [] := by
  refine List.filterMap_eq_nil_iff.mpr fun x hx => ?_
  obtain ⟨j, b, i, s, _, hb, hs, rfl⟩ := mem_firstParcels hx
  obtain ⟨hsrc, hinter⟩ := h b (List.mem_of_getElem? hb) s (List.mem_of_getElem? hs)
  unfold Parcel.route
  rw [Kept.parcel_type, hopOf_ordinary hsrc hinter]

omit [Contracts] in
/-- An exception in a round of `listen_block` ends the task. -/
theorem block_error (hw : Wired dep mode paras) (hn : NetOk dep n) (hb : Books dep mode paras n)
    {r : ι} {k : Int} {time : Nat → PyFloat} {tag : Nat → Root} {block : Block} {header : Json}
    {e : Exn} {ds : Int → DstTool Root} (hlisten : (n.relayers r).listen = .listening k)
    (hfetch : RelayerUnix.Fetched (n.chains (dep.relayer r).src.pid) k block header)
    (hfilter : RelayerUnix.filterBlock (dep.relayer r) time tag block header (n.relayers r).dsts
      = (.error e, ds)) : RelayerUnix.afterError k e = .stopped := by
  obtain ⟨htxs, _, _, hwhere⟩ := fetched_txs hn hlisten hfetch
  refine RelayerUnix.filterBlock_error (fun tx htx => (htxs tx htx).1) (fun tx htx => ?_) hfilter k
  rcases hwhere with ⟨_, hnil⟩ | ⟨b, _, hb', hslots⟩
  · rw [hnil] at htx
    cases htx
  · rw [hslots] at htx
    obtain ⟨s, hs, rfl⟩ := List.mem_map.mp htx
    exact (slot_goes hw hn hb r (List.mem_of_getElem? hb') hs).addressed

/-- **Every step moves every belt**, unless a task ends. -/
theorem step_moves (hw : Wired dep mode paras) (hn : NetOk dep n) (hb : Books dep mode paras n)
    (ho : Orderly dep paras n a) (h : step dep n a = some n') (ha : Alive n') (r : ι) (d : Int) :
    Belt.Moves (belt dep n r d) (belt dep n' r d) := by
  have hspot := step_spot h r d
  have heff : ChainEffect dep n a d (n'.spot r d).chain := step_chain h d
  have hlive : (n'.spot r d).listen ≠ .stopped := ha.listens r
  have halive : (n'.spot r d).tools.xtxTask.alive = true := ha.deals r d
  have hext := step_extends h (dep.relayer r).src.pid
  have hearly : ∀ k, (n.relayers r).listen = .created → (n'.spot r d).listen = .listening k →
      ∀ j, (firstParcels (dep.relayer r).src.pid (n.chains (dep.relayer r).src.pid).history
        j).filterMap (Parcel.route (dep.relayer r) d) = [] := by
    intro k hcreated hlisten j
    obtain ⟨link, hstart⟩ := start_of_listening h hcreated hlisten
    exact route_ordinary (ho.early r link hstart) j d
  unfold belt
  generalize (n'.chains (dep.relayer r).src.pid).history = rs' at hext
  generalize n'.spot r d = s' at hspot heff hlive halive hearly
  -- what was heard stays what it is, however the source chain grows
  have hheard : ∀ l : Listen, l.behind ≤ (n.chains (dep.relayer r).src.pid).history.length →
      heard dep r rs' l = heard dep r (n.chains (dep.relayer r).src.pid).history l :=
    fun l hl => firstParcels_prefix hext hl
  have hbehind : (n.relayers r).listen.behind
      ≤ (n.chains (dep.relayer r).src.pid).history.length := by
    cases hl : (n.relayers r).listen with
    | created => exact Nat.zero_le _
    | stopped => exact Nat.zero_le _
    | listening k =>
        have hk := hn.listening r k hl
        show k.toNat - 1 ≤ _
        omega
  have hstay := hheard _ hbehind
  have hrest : ∀ {s : Spot ι}, s.listen = (n.relayers r).listen →
      delivered r s.chain = delivered r (n.chains d) →
      s.tools.xtxTask.dealing = (n.dst r d).xtxTask.dealing →
      s.tools.queueXtx.filterMap (Option.map (fun e => e.2.kept.parcel e.1))
        = (n.dst r d).queueXtx.filterMap (Option.map (fun e => e.2.kept.parcel e.1)) →
      Belt.Moves (belt dep n r d) (beltAt dep r d rs' s) := by
    intro s hl hdelivered hhand hqueue
    have hsame : beltAt dep r d rs' s = belt dep n r d := by
      unfold belt beltAt
      rw [hl, hstay, hdelivered, hhand, hqueue]
      rfl
    rw [hsame]
    exact .rest _
  cases hspot with
  | elsewhere hnot =>
      refine hrest rfl (delivered_effect heff fun h root tx hsend => ?_) rfl rfl
      cases hsend with
      | xtx => exact hnot ⟨rfl, rfl⟩
  | @started l st hcreated hstart =>
      rcases hstart with ⟨rfl, _⟩ | ⟨rfl, rfl⟩
      · exact absurd rfl hlive
      · -- nothing behind the listener goes anywhere
        have hnil := hearly _ hcreated rfl
        obtain ⟨_, hinv⟩ := (hn.chains (dep.relayer r).src.pid).inv
        have hlatest : (Listen.listening (n.chains (dep.relayer r).src.pid).blocks.blockNum).behind
            ≤ (n.chains (dep.relayer r).src.pid).history.length := by
          show (n.chains (dep.relayer r).src.pid).blocks.blockNum.toNat - 1 ≤ _
          rw [hinv.blockNum]
          omega
        have hsame : beltAt dep r d rs' { n.spot r d with
            listen := .listening (n.chains (dep.relayer r).src.pid).blocks.blockNum
            startbn := (n.chains (dep.relayer r).src.pid).blocks.blockNum } = belt dep n r d := by
          unfold belt beltAt
          dsimp only
          rw [hheard _ hlatest]
          unfold heard
          rw [hnil, hnil]
        rw [hsame]
        exact .rest _
  | @retry k e hlisten =>
      rcases RelayerUnix.afterError_cases k e with he | he
      · exact hrest (he.trans hlisten.symm) rfl rfl rfl
      · exact absurd he hlive
  | @block k time block header res ds hlisten hfetch hfilter =>
      cases res with
      | error e => exact absurd (block_error hw hn hb hlisten hfetch hfilter) hlive
      | ok m =>
          obtain ⟨xs, hqueue, hentered⟩ := block_parcels hw hn hlisten hfetch hfilter d
          obtain ⟨_, h0, hle, _⟩ := fetched_txs hn hlisten hfetch
          have hnext : (Listen.listening (k + 1)).behind
              ≤ (n.chains (dep.relayer r).src.pid).history.length := by
            show (k + 1).toNat - 1 ≤ _
            omega
          have hload : beltAt dep r d rs' { n.spot r d with
              listen := listenAfter k (.ok m)
              tools := ds d }
              = { belt dep n r d with
                entered := (belt dep n r d).entered ++ xs
                queue := (belt dep n r d).queue ++ xs } := by
            unfold belt beltAt
            dsimp only [listenAfter]
            rw [hheard _ hnext, hqueue, hentered, filterBlock_task hfilter d]
            show _ = Belt.mk ((heard dep r _ (n.relayers r).listen).filterMap _ ++ xs) _ _ _
            rw [hlisten]
            rfl
          rw [hload]
          exact .load _ xs
  | stopListen => exact absurd rfl hlive
  | stopHeader => exact hrest rfl rfl rfl rfl
  | stopXtx =>
      refine hrest rfl rfl rfl ?_
      rw [List.filterMap_append]
      exact List.append_nil _
  | @dealHeader link time put dst tools c haction hdst hheader hround =>
      have hdelivered : delivered r c = delivered r (n.chains d) := by
        refine delivered_effect heff fun h root tx hsend => ?_
        rw [haction] at hsend
        cases hsend
      cases hround with
      | stop => exact hrest rfl hdelivered rfl rfl
      | sent => exact hrest rfl hdelivered rfl rfl
      | failed => exact hrest rfl hdelivered rfl rfl
  | takeXtx hdst _ hnone hround => exact takeXtx_moves hnone hround hstay halive
  | advance haction hdst _ hdeal hround =>
      exact advance_moves haction hdst hdeal hround heff hstay halive

/-! ## §2. Runs. -/

omit [DecidableEq ι] [Contracts] [Sha256] in
/-- A transaction of another type may come from outside. -/
theorem fromOutside_of_type {p : Int} {ty dst : Option Json} {t : String} (hty : ty = some (.str t))
    (hno : t ≠ TranMemo.ctxSrc ∧ t ≠ TranMemo.ctxInter ∧ t ≠ TranMemo.ctxDst) :
    FromOutside paras p ty dst := by
  subst hty
  obtain ⟨hsrc, hinter, hdst⟩ := hno
  exact ⟨fun h => absurd h (type_ne hsrc), type_ne hinter, type_ne hdst⟩

omit [Contracts] in
/-- What a relayer sends is admissible where it sends it. -/
theorem sends_admissible (hw : Wired dep mode paras) (hn : NetOk dep n)
    (hb : Books dep mode paras n) {p : Int} {tag : Origin ι} {tx : Transaction}
    (h : Sends dep n p a tag tx) :
    Admissible mode paras p (some tag) (Connector.arrived tx).kept := by
  have htyped := sends_typed hn h
  cases h with
  | header =>
      obtain ⟨_, _, _, _, _, _, htype⟩ := htyped
      exact fromOutside_of_type htype (by decide)
  | layer1 =>
      obtain ⟨_, _, _, _, _, htype⟩ := htyped
      exact fromOutside_of_type htype (by decide)
  | @xtx r dst link time put hand tx hdst hdeal hwait hmark =>
      have hkept : tx.kept = hand.tx.kept := RelayerUnix.kept_markTx hmark
      have hhand : hand.tx.kept.parcel hand.tag ∈ (belt dep n r p).at_ .hand := by
        show _ ∈ ((n.dst r p).xtxTask.dealing.map _).toList
        rw [hdeal]
        exact List.mem_singleton_self _
      have hrelayed := entered_relayed hw hn hb ((hb.whole r p).mem_iff.mpr ⟨_, hhand⟩)
      rw [Kept.parcel_type, Kept.parcel_dst, ← hkept] at hrelayed
      exact hrelayed

theorem step_accepts (hw : Wired dep mode paras) (hn : NetOk dep n) (hb : Books dep mode paras n)
    (ho : Orderly dep paras n a) (h : step dep n a = some n') (p : Int) :
    ∀ e ∈ (n'.chains p).accepted, Admissible mode paras p (some e.1) e.2.kept := by
  have hold := hb.accepted p
  have heff := step_chain h p
  generalize n'.chains p = c at heff
  cases heff with
  | @own b c haction hclient hstep =>
      cases Chain.step_move hstep with
      | quiet _ _ _ hacc => exact hacc ▸ hold
      | generate _ _ _ _ hacc => exact hacc ▸ hold
      | execute _ _ _ _ hacc => exact hacc ▸ hold
      | crash _ _ _ _ _ hacc _ => exact hacc ▸ hold
      | @accept time tag tx c _ _ _ hacc =>
          have htag : tag = .client := of_decide_eq_true hclient
          rw [hacc]
          intro e he
          rcases List.mem_append.mp he with he | he
          · exact hold e he
          · rw [List.mem_singleton.mp he]
            subst htag
            exact ho.clients p time .client tx haction
  | queried hq =>
      obtain ⟨st, rfl⟩ := hq.exists_store
      exact hold
  | @relayed put tag tx hsend =>
      rcases Chain.submit_cases put tag (Connector.arrived tx) (n.chains p) with
        ⟨_, hacc⟩ | ⟨_, hsame⟩
      · rw [hacc]
        intro e he
        rcases List.mem_append.mp he with he | he
        · exact hold e he
        · rw [List.mem_singleton.mp he]
          exact sends_admissible hw hn hb hsend
      · rw [hsame]
        exact hold

/-- The books after a step, unless a task ends. -/
theorem step_books (hw : Wired dep mode paras) (hn : NetOk dep n) (hb : Books dep mode paras n)
    (ho : Orderly dep paras n a) (h : step dep n a = some n') (ha : Alive n') :
    Books dep mode paras n' where
  whole r d := (step_moves hw hn hb ho h ha r d).whole (hb.whole r d)
  accepted := step_accepts hw hn hb ho h

omit [Contracts] [Sha256] in
theorem Started.books (h : Started n)
    (hpool : ∀ p, ∀ e ∈ (n.chains p).accepted,
      FromOutside paras p (e.2.kept.memo "type") (e.2.kept.memo "dst")) :
    Books dep mode paras n where
  whole r d := by
    have hrelayer := h.relayers r
    have hnothing : delivered r (n.chains d) = [] := by
      refine List.filterMap_eq_nil_iff.mpr fun e he => ?_
      rw [h.clients d e he]
      rfl
    have hempty : belt dep n r d = {} := by
      unfold belt beltAt spot dst
      dsimp only
      rw [hrelayer, hnothing]
      rfl
    rw [hempty]
    rfl
  accepted p e he := by
    have hclient := h.clients p e he
    show Admissible mode paras p (some e.1) e.2.kept
    rw [hclient]
    exact hpool p e he

/-- **In every run where no task ended the books are in order.** -/
theorem run_books (hw : Wired dep mode paras) {n0 : Net ι} {acts : List (Action ι)}
    (h0 : Started n0)
    (hpool : ∀ p, ∀ e ∈ (n0.chains p).accepted,
      FromOutside paras p (e.2.kept.memo "type") (e.2.kept.memo "dst"))
    (halong : Along (step dep) (Orderly dep paras) n0 acts)
    (hrun : runFrom (step dep) n0 acts = some n) (ha : Alive n) : Books dep mode paras n := by
  have hstep : ∀ m a m', NetOk dep m ∧ (Alive m → Books dep mode paras m) → Orderly dep paras m a →
      step dep m a = some m' → NetOk dep m' ∧ (Alive m' → Books dep mode paras m') :=
    fun m a m' hok ho h => ⟨step_netOk hok.1 h, fun hlive =>
      step_books hw hok.1 (hok.2 (alive_of_step h hlive)) ho h hlive⟩
  exact (run_invariant_along hstep acts halong hrun
    ⟨h0.netOk dep, fun _ => h0.books hpool⟩).2 ha

end Net

end TorSim
