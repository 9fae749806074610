/-
  TorSim.Network.Verified — what the light clients of ToR mode vouch for.

  A gateway between parachains asks the relay chain in which of its blocks a source
  header was executed, waits for this block's header at the destination, and sends the
  state to be verified under it.  So a first-layer verification names a block of the
  relay chain that confirmed the transaction's own block, whatever became of the entry
  it was read from.  A light client keeps no other states than relayers brought: each is
  the state of a transaction committed on the chain it came from.

  Main results:
    * `step_layer1Inv` — every step keeps what is waited for confirmed.
    * `first_layer_confirmed` — **a first-layer verification is of a confirmed block**.
    * `step_statesInv` — every step keeps the states those of committed transactions.
    * `query_state_genuine` — **so `query_state` answers with such a state**.
-/
import TorSim.Network.Mirrors
import TorSim.Vm.VerifiedStates

namespace TorSim

open TorSim.Lib

/-! ## §1. The height of the confirming block. -/

namespace Connector

variable {τ : Type} [Contracts]

/-- The height is read off the record of the header. -/
theorem queryHeaderCsHeight_text {cn : Connector} {link : Link} {pid height k : Int}
    {c c' : Chain τ} (hto : cn.to_ = "lightclient") (hc : Executor.Installed c.store)
    (h : queryHeaderCsHeight cn link pid height c = (.ok k, c')) :
    ∃ text, c.store.get (CtrLightClient.headerKey (.int pid) (.int height)) = some text
      ∧ CtrLightClient.csHeight text = .ok k := by
  rw [queryHeaderCsHeight_eq] at h
  rcases hcall : callLightClient cn link "query_header" [.int pid, .int height]
    "query failed! response: " c with ⟨r1, c1⟩
  obtain ⟨_, hout⟩ := callLightClient_run hto hc (by decide) (by simp [Json.wf]) hcall
  rw [hcall] at h
  cases r1 with
  | error e => cases h
  | ok v =>
      obtain ⟨out, hq, rfl⟩ := hout v rfl
      replace hq : CtrLightClient.queryHeader c.store (.int pid) (.int height) = .ok out := hq
      unfold CtrLightClient.queryHeader at hq
      split at hq
      next text hget =>
          cases hq
          exact ⟨text, hget, (Prod.mk.inj h).1⟩
      next => cases hq

end Connector

variable {ι : Type} [Contracts] [Sha256]

namespace Net

open CtrLightClient

variable {dep : Deployment ι} {n n' : Net ι} {r : ι} {d pid : Int}

/-- The relay chain confirmed the header of height `h` of the relayer's source in its
block `k`. -/
def Endorsed (dep : Deployment ι) (r : ι) (cs : Int → Chain (Origin ι)) (h k : Int) : Prop :=
  ∀ inter, (dep.relayer r).inter = some inter →
    Confirmed dep (cs inter.pid) (dep.relayer r).src.pid h k

/-- What the relay chain answers is a block that confirmed the header. -/
theorem confirmed_of_query {p h k : Int} {inter : Connector} {link : Link}
    {c : Chain (Origin ι)} (hto : inter.to_ = "lightclient") (hi : MirrorInv dep p inter.pid n)
    (hpos : 1 ≤ h)
    (hquery : inter.queryHeaderCsHeight link p h (n.chains inter.pid) = (.ok k, c)) :
    Confirmed dep (n.chains inter.pid) p h k := by
  obtain ⟨text, hget, hcs⟩ := Connector.queryHeaderCsHeight_text hto hi.client.installed hquery
  obtain ⟨header, k', rfl, hwf, _, hconfirm⟩ := hi.records h text hpos hget
  have hsame : csHeight (recordText (header, k')) = .ok k' := csHeight_record hwf k'
  rw [hsame] at hcs
  cases hcs
  exact hconfirm

/-! ## §2. What is waited for. -/

/-- The transaction in hand is to be verified under block `k` of the relay chain. -/
def Awaits (cfg : RelayerConfig) (hand : Dealing Root) (k : Int) : Prop :=
  hand.wait = .layer1 k ∨ hand.wait = .dst k ∧ cfg.mode = .tor

/-- What `deal_xtx` has recorded of the relay chain is confirmed there. -/
structure TaskEndorsed (dep : Deployment ι) (r : ι) (cs : Int → Chain (Origin ι))
    (t : XtxTask Root) : Prop where
  recorded : ∀ e ∈ t.torCsHeightOnInter, Endorsed dep r cs e.1 e.2
  waits : ∀ hand k, t.dealing = some hand → Awaits (dep.relayer r) hand k →
    Endorsed dep r cs hand.xtx.height k

omit [Contracts] [Sha256] in
/-- A task that waits for another thing with the same transaction. -/
theorem TaskEndorsed.next {cs : Int → Chain (Origin ι)} {t : XtxTask Root} {hand : Dealing Root}
    (hrecorded : ∀ e ∈ t.torCsHeightOnInter, Endorsed dep r cs e.1 e.2) {w : Wait}
    (hdeal : t.dealing = some { hand with wait := w })
    (hwaits : ∀ k, w = .layer1 k ∨ w = .dst k ∧ (dep.relayer r).mode = .tor →
      Endorsed dep r cs hand.xtx.height k) : TaskEndorsed dep r cs t where
  recorded := hrecorded
  waits hand' k hd hawaits := by
    rw [hdeal] at hd
    cases hd
    exact hwaits k hawaits

omit [Contracts] [Sha256] in
theorem TaskEndorsed.free {cs : Int → Chain (Origin ι)} {t : XtxTask Root}
    (hrecorded : ∀ e ∈ t.torCsHeightOnInter, Endorsed dep r cs e.1 e.2)
    (hnone : t.dealing = none) : TaskEndorsed dep r cs t where
  recorded := hrecorded
  waits hand k hd _ := by
    rw [hnone] at hd
    cases hd

/-- **A step of `deal_xtx` waits for confirmed blocks only.** -/
theorem advance_endorsed {dst : Connector} {time put : PyFloat} {t t' : XtxTask Root}
    {hand : Dealing Root} {cs' : Int → Chain (Origin ι)}
    (hmirror : ∀ inter, (dep.relayer r).inter = some inter →
      MirrorInv dep (dep.relayer r).src.pid inter.pid n)
    (h : RelayerUnix.AdvanceCase (dep.relayer r) dst time put (xtxTags r) t hand n.chains t' cs')
    (hdeal : t.dealing = some hand) (hpos : 1 ≤ hand.xtx.height)
    (ht : TaskEndorsed dep r n.chains t) : TaskEndorsed dep r n.chains t' := by
  -- neither the source chain nor the end of the wait names a block of the relay chain
  have hvacuous : ∀ {w : Wait}, w = .csHeight ∨ w = .ready → ∀ k,
      w = .layer1 k ∨ w = .dst k ∧ (dep.relayer r).mode = .tor →
        Endorsed dep r n.chains hand.xtx.height k := by
    intro w hw k hk
    rcases hw with rfl | rfl
    · rcases hk with hk | ⟨hk, _⟩ <;> cases hk
    · rcases hk with hk | ⟨hk, _⟩ <;> cases hk
  cases h with
  | interQuery => exact ⟨ht.recorded, ht.waits⟩
  | interDone => exact .next ht.recorded rfl (hvacuous (Or.inl rfl))
  | @csQuery inter link k c hwait hinter hquery =>
      have hk : Endorsed dep r n.chains hand.xtx.height k := by
        intro inter' hinter'
        cases hinter.symm.trans hinter'
        exact confirmed_of_query (dep.lightclient r inter (Or.inr hinter)) (hmirror inter hinter)
          hpos hquery
      refine .next (fun e he => ?_) rfl (fun j hj => ?_)
      · rcases List.mem_cons.mp he with rfl | he
        · exact hk
        · exact ht.recorded e he
      · rcases hj with hj | ⟨hj, _⟩
        · cases hj
        · cases hj
          exact hk
  | csCached hwait hcached =>
      have hk := ht.recorded _ (mem_of_lookup hcached)
      refine .next ht.recorded rfl (fun j hj => ?_)
      rcases hj with hj | ⟨hj, _⟩
      · cases hj
      · cases hj
        exact hk
  | dstQuery => exact ⟨ht.recorded, ht.waits⟩
  | @dstDone height hwait hge =>
      refine .next ht.recorded rfl (fun j hj => ?_)
      by_cases hmode : (dep.relayer r).mode = .tor
      · rw [if_pos hmode] at hj
        rcases hj with hj | ⟨hj, _⟩
        · cases hj
          exact ht.waits hand height hdeal (Or.inr ⟨hwait, hmode⟩)
        · cases hj
      · rw [if_neg hmode] at hj
        exact hvacuous (Or.inr rfl) j hj
  | layer1Skip => exact .next ht.recorded rfl (hvacuous (Or.inr rfl))
  | layer1Sent => exact .next ht.recorded rfl (hvacuous (Or.inr rfl))
  | sent => exact .free ht.recorded rfl
  | dead => exact .free ht.recorded rfl
  | deadQuery => exact .free ht.recorded rfl
  | deadLayer1 => exact .free ht.recorded rfl
  | deadSent => exact .free ht.recorded rfl

omit [Contracts] [Sha256] in
theorem TaskEndorsed.mono {cs cs' : Int → Chain (Origin ι)} {t : XtxTask Root}
    (ht : TaskEndorsed dep r cs t)
    (hgrow : ∀ q k tag, (cs q).ExecutedIn k tag → (cs' q).ExecutedIn k tag) :
    TaskEndorsed dep r cs' t := by
  have hmono : ∀ {h k : Int}, Endorsed dep r cs h k → Endorsed dep r cs' h k := by
    intro h k hk inter hinter
    obtain ⟨r', hsrc, hin⟩ := hk inter hinter
    exact ⟨r', hsrc, hgrow _ _ _ hin⟩
  exact ⟨fun e he => hmono (ht.recorded e he), fun hand k hd hw => hmono (ht.waits hand k hd hw)⟩

/-! ## §3. What is sent. -/

/-- A first-layer verification: the state of a transaction of the source, under the relay
chain's block that confirmed the header of its block. -/
def FirstLayer (dep : Deployment ι) (r : ι) (n : Net ι) (k : Int) (kept : Kept) : Prop :=
  ∃ inter xtx root state, (dep.relayer r).inter = some inter
    ∧ CopyOf (n.chains (dep.relayer r).src.pid) (dep.relayer r).src.pid root xtx
    ∧ Confirmed dep (n.chains inter.pid) (dep.relayer r).src.pid xtx.height k
    ∧ RelayerUnix.ProvenState xtx state
    ∧ kept.data = .str (CtrLightClient.request .validateState
      [.int inter.pid, .str inter.paratype, .int k, .str state])

/-- **Relayer `r` and the relay chain it asks.** -/
structure Layer1Inv (dep : Deployment ι) (r : ι) (n : Net ι) : Prop where
  traces : Traces dep n
  mirror : ∀ inter, (dep.relayer r).inter = some inter →
    MirrorInv dep (dep.relayer r).src.pid inter.pid n
  task : ∀ pid, TaskEndorsed dep r n.chains (n.dst r pid).xtxTask
  accepted : ∀ pid, ∀ e ∈ (n.chains pid).accepted, ∀ k, e.1 = .layer1 r k →
    FirstLayer dep r n k e.2.kept

variable [DecidableEq ι] {a : Action ι}

/-- **Every step keeps what is waited for confirmed.** -/
theorem step_endorsed (hi : Layer1Inv dep r n) (h : step dep n a = some n') (pid : Int) :
    TaskEndorsed dep r n'.chains (n'.dst r pid).xtxTask := by
  have hspot := step_spot h r pid
  have htask := hi.task pid
  have hnew : TaskEndorsed dep r n.chains (n'.spot r pid).tools.xtxTask := by
    generalize n'.spot r pid = s' at hspot
    cases hspot with
    | elsewhere => exact htask
    | started => exact htask
    | retry => exact htask
    | stopListen => exact htask
    | stopHeader => exact htask
    | stopXtx => exact htask
    | block hk hfetch hfilter =>
        obtain ⟨hs, fs, hds, _⟩ := (RelayerUnix.filterBlock_run hfilter pid).queues
        dsimp only
        rw [hds]
        exact htask
    | dealHeader haction hdst halive hround =>
        cases hround with
        | stop => exact htask
        | sent => exact htask
        | failed => exact htask
    | takeXtx hdst halive hnone hround =>
        cases hround with
        | stop => exact .free htask.recorded hnone
        | failed => exact .free htask.recorded hnone
        | @taken tag xtx rest hand hq hprep =>
            refine ⟨htask.recorded, fun hand' k hd hw => ?_⟩
            cases hd
            -- in ToR mode the first look is at the relay chain
            have hwait := hprep.wait
            unfold RelayerUnix.firstWait at hwait
            split at hwait
            next hmode =>
                have hdst := Except.ok.inj hwait
                rcases hw with hw | ⟨_, htor⟩
                · cases hdst.trans hw
                · cases hmode.symm.trans htor
            next hmode =>
                have hdst := Except.ok.inj hwait
                rcases hw with hw | ⟨_, htor⟩
                · cases hdst.trans hw
                · cases hmode.symm.trans htor
            next =>
                split at hwait
                next =>
                    have hinter := Except.ok.inj hwait
                    rcases hw with hw | ⟨hw, _⟩
                    · cases hinter.trans hw
                    · cases hinter.trans hw
                next => cases hwait
    | advance haction hdst halive hdeal hround =>
        have hpos := (hi.traces.hands r pid _ hdeal).1.height_pos
        exact advance_endorsed hi.mirror hround hdeal hpos htask
  exact hnew.mono fun q k tag hin => step_executedIn h hin

omit [Contracts] [DecidableEq ι] in
theorem FirstLayer.mono {k : Int} {kept : Kept} (hf : FirstLayer dep r n k kept)
    (hext : Extends n n')
    (hgrow : ∀ q j tag, (n.chains q).ExecutedIn j tag → (n'.chains q).ExecutedIn j tag) :
    FirstLayer dep r n' k kept := by
  obtain ⟨inter, xtx, root, state, hinter, hcopy, ⟨r', hsrc, hin⟩, hrest⟩ := hf
  exact ⟨inter, xtx, root, state, hinter, hcopy.mono (hext _), ⟨r', hsrc, hgrow _ _ _ hin⟩, hrest⟩

/-- The clients write no headers of the source on the relay chain. -/
def RelayApart (dep : Deployment ι) (r : ι) (n : Net ι) (a : Action ι) : Prop :=
  ∀ inter, (dep.relayer r).inter = some inter →
    OthersLeaveAlone (dep.relayer r).src.pid inter.pid n a

theorem step_layer1Inv (hi : Layer1Inv dep r n) (halone : RelayApart dep r n a)
    (h : step dep n a = some n') : Layer1Inv dep r n' where
  traces := step_traces hi.traces h
  mirror inter hinter := step_mirrorInv (hi.mirror inter hinter) (halone inter hinter) h
  task pid := step_endorsed hi h pid
  accepted pid e he k htag := by
    have hmono : ∀ {kept : Kept}, FirstLayer dep r n k kept → FirstLayer dep r n' k kept :=
      fun hf => hf.mono (fun p => step_extends h p) (fun q j tag hin => step_executedIn h hin)
    rcases accepted_effect (step_chain h pid) e he with hold | hclient | ⟨tx, hsend, heq⟩
    · exact hmono (hi.accepted pid e hold k htag)
    · cases hclient.symm.trans htag
    · rw [heq]
      rw [htag] at hsend
      cases hsend with
      | @layer1 _ dst inter link time put hand _ hdst hdeal hwait hinter =>
          obtain ⟨hcopy, hstate⟩ := hi.traces.hands r pid hand hdeal
          have hk := (hi.task pid).waits hand k hdeal (Or.inl hwait) inter hinter
          exact hmono ⟨inter, hand.xtx, hand.tag, hand.state, hinter, hcopy, hk, hstate, rfl⟩

omit [DecidableEq ι] in
/-- A network as it starts, with relay chains without headers of the source. -/
theorem Started.layer1Inv (h0 : Started n)
    (hinst : ∀ inter, (dep.relayer r).inter = some inter →
      Executor.Installed (n.chains inter.pid).store)
    (hnone : ∀ inter, (dep.relayer r).inter = some inter → ∀ k : Int, 0 ≤ k →
      (n.chains inter.pid).store.get (headerKey (.int (dep.relayer r).src.pid) (.int k)) = none) :
    Layer1Inv dep r n where
  traces := h0.traces
  mirror inter hinter := h0.mirrorInv (hinst inter hinter) (hnone inter hinter)
  task pid := by
    rw [dst, h0.relayers r]
    exact .free (fun e he => by cases he) rfl
  accepted pid e he k htag := by
    cases (h0.clients pid e he).symm.trans htag

theorem run_layer1Inv {n0 : Net ι} {acts : List (Action ι)}
    (halone : Along (step dep) (RelayApart dep r) n0 acts)
    (hrun : runFrom (step dep) n0 acts = some n) (hi : Layer1Inv dep r n0) : Layer1Inv dep r n :=
  run_invariant_along (fun _ _ _ hi ha hs => step_layer1Inv hi ha hs) acts halone hrun hi

/-- **A first-layer verification is of a confirmed block.**  The relay chain starts without
headers of the source, and clients write none.  Then in every run, whatever fails: what a
relayer had any chain accept for the first layer is the state of a transaction that its
source committed, made under a block of the relay chain that executed the `header_sync` of
just the block the transaction was committed in. -/
theorem first_layer_confirmed {n0 : Net ι} {acts : List (Action ι)} (h0 : Started n0)
    (hinst : ∀ inter, (dep.relayer r).inter = some inter →
      Executor.Installed (n0.chains inter.pid).store)
    (hnone : ∀ inter, (dep.relayer r).inter = some inter → ∀ k : Int, 0 ≤ k →
      (n0.chains inter.pid).store.get (headerKey (.int (dep.relayer r).src.pid) (.int k)) = none)
    (halone : Along (step dep) (RelayApart dep r) n0 acts)
    (hrun : runFrom (step dep) n0 acts = some n) :
    ∀ d, ∀ e ∈ (n.chains d).accepted, ∀ k, e.1 = .layer1 r k → FirstLayer dep r n k e.2.kept :=
  (run_layer1Inv halone hrun (h0.layer1Inv hinst hnone)).accepted

/-! ## §4. The states at a destination. -/

/-- The state of a transaction committed in block `h` of chain `p`, or in a block of
another chain that block `h` of `p` confirmed. -/
inductive OfCommitted (dep : Deployment ι) (n : Net ι) (p h : Int) (state : String) : Prop where
  | source {xtx : Transaction} {root : Root} (hcopy : CopyOf (n.chains p) p root xtx)
      (hheight : xtx.height = h) (hstate : RelayerUnix.ProvenState xtx state) :
      OfCommitted dep n p h state
  | relay {q : Int} {xtx : Transaction} {root : Root} (hcopy : CopyOf (n.chains q) q root xtx)
      (hconfirm : Confirmed dep (n.chains p) q xtx.height h)
      (hstate : RelayerUnix.ProvenState xtx state) : OfCommitted dep n p h state

omit [Contracts] [DecidableEq ι] in
theorem OfCommitted.mono {p h : Int} {state : String} (ho : OfCommitted dep n p h state)
    (hext : Extends n n')
    (hgrow : ∀ q j tag, (n.chains q).ExecutedIn j tag → (n'.chains q).ExecutedIn j tag) :
    OfCommitted dep n' p h state := by
  cases ho with
  | source hcopy hheight hstate => exact .source (hcopy.mono (hext _)) hheight hstate
  | relay hcopy hconfirm hstate =>
      obtain ⟨r', hsrc, hin⟩ := hconfirm
      exact .relay (hcopy.mono (hext _)) ⟨r', hsrc, hgrow _ _ _ hin⟩ hstate

/-- **The light client of `d` and those of the relay chains.** -/
structure StatesInv (dep : Deployment ι) (d : Int) (n : Net ι) : Prop where
  layer1 : ∀ r, Layer1Inv dep r n
  mirror : ∀ p, MirrorInv dep p d n
  states : StatesFrom (OfCommitted dep n) (n.chains d).store

/-- What clients have executed changes no state at `d`. -/
def LeavesStates (d : Int) (n : Net ι) : Prop :=
  ∀ (pr : Proposal (Origin ι)) (tx : Transaction) (rest : List (Option (Origin ι) × Transaction)),
    (n.chains d).phase = .executing pr → pr.rest = (some .client, tx) :: rest →
      ∀ p h : Int, 1 ≤ h → SameStates p h (n.chains d).store
        ((n.chains d).executeNext pr (some .client) tx rest).store

/-- Clients write to the light client of `d` in no way, and no headers on relay chains. -/
structure WriteNothing (dep : Deployment ι) (d : Int) (n : Net ι) (a : Action ι) : Prop where
  relay : ∀ r, RelayApart dep r n a
  headers : ∀ p, OthersLeaveAlone p d n a
  states : a = .chain d .executeNext → LeavesStates d n

omit [DecidableEq ι] in
/-- **An execution brings states of committed transactions only.** -/
theorem executeNext_states (hi : StatesInv dep d n) (hheaders : ∀ p, LeavesAlone p (n.chains d))
    (hclient : LeavesStates d n) {pr : Proposal (Origin ι)} {tag : Option (Origin ι)}
    {tx : Transaction} {rest : List (Option (Origin ι) × Transaction)}
    (hphase : (n.chains d).phase = .executing pr) (hrest : pr.rest = (tag, tx) :: rest) :
    StatesFrom (OfCommitted dep n) ((n.chains d).executeNext pr tag tx rest).store := by
  have ht := (hi.mirror d).traces
  have hinst := (hi.mirror d).client.installed
  have hok := ht.net.chains d
  have hmem : (tag, tx.kept) ∈ (n.chains d).done ++ (n.chains d).waiting := by
    rw [Chain.waiting_head hphase hrest]
    exact List.mem_append_right _ List.mem_cons_self
  have hhead := typed_head hok (ht.net.accepted d) hmem
  -- a request of another kind changes no state
  have hother : ∀ {f : Func} {args : List Json}, f ≠ .validateState → (∀ a ∈ args, a.wf = true) →
      tx.kept.to_ = .str "lightclient" → tx.kept.data = .str (CtrLightClient.request f args) →
      StatesFrom (OfCommitted dep n) ((n.chains d).executeNext pr tag tx rest).store := by
    intro f args hf hargs hto hdata
    rw [(executeNext_request tag rest hphase hinst hargs hto hdata).2]
    exact hi.states.call hf _ _
  have hvalidate : ∀ {p h : Int} {t state : String}, 1 ≤ h → OfCommitted dep n p h state →
      tx.kept.to_ = .str "lightclient" →
      tx.kept.data = .str (CtrLightClient.request .validateState
        [.int p, .str t, .int h, .str state]) →
      StatesFrom (OfCommitted dep n) ((n.chains d).executeNext pr tag tx rest).store := by
    intro p h t state hpos hof hto hdata
    rw [(executeNext_request tag rest hphase hinst (by simp [Json.wf]) hto hdata).2]
    exact hi.states.validate hpos hof _
  cases tag with
  | none =>
      obtain ⟨args, hargs, hdata⟩ := hhead.data
      exact hother (by decide) hargs hhead.to_ hdata
  | some t =>
      obtain ⟨e, he, htag, hkept⟩ := hok.exists_accepted hmem
      have htraced := ht.accepted d e he
      rw [htag, hkept] at htraced
      cases t with
      | client =>
          refine hi.states.congr (hclient pr tx rest hphase hrest) fun p h hpos hhas => ?_
          have hsame := (hheaders p pr tx rest hphase hrest).1 h (by omega)
          unfold hasHeader at hhas ⊢
          rw [hsame]
          exact hhas
      | header r h =>
          obtain ⟨_, _, hto, header, hwf, hdata, _⟩ := hhead
          exact hother (by decide) (by simp [Json.wf, hwf]) hto hdata
      | layer1 r h =>
          obtain ⟨_, _, _, hto, _⟩ := hhead
          obtain ⟨inter, xtx, root, state, hinter, hcopy, hconfirm, hstate, hdata⟩ :=
            (hi.layer1 r).accepted d e he h htag
          rw [hkept] at hdata
          obtain ⟨r', hsrc, hin⟩ := hconfirm
          exact hvalidate hin.pos (.relay hcopy ⟨r', hsrc, hin⟩ hstate) hto hdata
      | xtx r h root =>
          obtain ⟨hto, _⟩ := hhead
          obtain ⟨xtx, state, t, hcopy, hheight, hstate, hdata⟩ := htraced
          have hpos := hcopy.height_pos
          rw [hheight] at hpos
          exact hvalidate hpos (.source hcopy hheight hstate) hto hdata

/-- **Every step keeps the states those of committed transactions.** -/
theorem step_statesInv (hi : StatesInv dep d n) (halone : WriteNothing dep d n a)
    (h : step dep n a = some n') : StatesInv dep d n' where
  layer1 r := step_layer1Inv (hi.layer1 r) (halone.relay r) h
  mirror p := step_mirrorInv (hi.mirror p) (halone.headers p) h
  states := by
    have hgrow : ∀ p k s, OfCommitted dep n p k s → OfCommitted dep n' p k s :=
      fun p k s ho => ho.mono (fun q => step_extends h q) (fun q j tag hin => step_executedIn h hin)
    refine StatesFrom.mono ?_ hgrow
    have hinst := (hi.mirror d).client.installed
    rcases step_execution hinst h with hsame | ⟨pr, tag, tx, rest, ha, hphase, hrest, hc'⟩
    · rw [hsame]
      exact hi.states
    · rw [hc']
      exact executeNext_states hi (fun p => halone.headers p ha) (halone.states ha) hphase hrest

theorem run_statesInv {n0 : Net ι} {acts : List (Action ι)}
    (halone : Along (step dep) (WriteNothing dep d) n0 acts)
    (hrun : runFrom (step dep) n0 acts = some n) (hi : StatesInv dep d n0) : StatesInv dep d n :=
  run_invariant_along (fun _ _ _ hi ha hs => step_statesInv hi ha hs) acts halone hrun hi

/-- The chains with the light clients that are asked: `d` and the relay chains. -/
def Asked (dep : Deployment ι) (d q : Int) : Prop :=
  q = d ∨ ∃ r inter, (dep.relayer r).inter = some inter ∧ q = inter.pid

/-- A light client as it starts, under its name and without headers. -/
structure NoHeaders (c : Chain (Origin ι)) : Prop where
  installed : Executor.Installed c.store
  headers : ∀ p k : Int, 0 ≤ k → c.store.get (headerKey (.int p) (.int k)) = none

omit [DecidableEq ι] in
theorem Started.statesInv (h0 : Started n) (hempty : ∀ q, Asked dep d q → NoHeaders (n.chains q))
    (hstates : ∀ p h i : Int, 1 ≤ h → 0 ≤ i →
      (n.chains d).store.get (stateKey (.int p) (.int h) (.int i)) = none) : StatesInv dep d n where
  layer1 r := by
    have hasked : ∀ inter, (dep.relayer r).inter = some inter → NoHeaders (n.chains inter.pid) :=
      fun inter hinter => hempty _ (Or.inr ⟨r, inter, hinter, rfl⟩)
    exact h0.layer1Inv (fun inter hinter => (hasked inter hinter).installed)
      (fun inter hinter k hk => (hasked inter hinter).headers _ k hk)
  mirror p := by
    have hd := hempty d (Or.inl rfl)
    exact h0.mirrorInv hd.installed (hd.headers p)
  states p h hpos := ⟨[], statesAt_nil (fun i hi => hstates p h i hpos hi),
    fun hne => absurd rfl hne, fun s hs => by cases hs⟩

/-! ## §5. What a state is under its header. -/

/-- The state is that of a transaction of this block, or of one of a block whose header
a `header_sync` of this block brought. -/
inductive VouchedBy (dep : Deployment ι) (n : Net ι) (b : Committed (Origin ι)) (state : String) :
    Prop where
  | source {s : Executed (Origin ι)} {xtx : Transaction} {ty : String} (hs : s ∈ b.slots)
      (hfwd : RelayerUnix.Forwarded s.tx xtx ty) (hstate : RelayerUnix.ProvenState xtx state) :
      VouchedBy dep n b state
  | relay {s : Executed (Origin ι)} {q : Int} {t : String} {header : Json} {xtx : Transaction}
      {root : Root} (hs : s ∈ b.slots)
      (hdata : s.tx.data = .str (CtrLightClient.request .headerSync
        [.int q, .str t, .int xtx.height, header]))
      (hheader : HeaderAt (n.chains q) xtx.height header) (hcopy : CopyOf (n.chains q) q root xtx)
      (hstate : RelayerUnix.ProvenState xtx state) : VouchedBy dep n b state

omit [Contracts] [DecidableEq ι] in
/-- With its block committed, the state is vouched for by it. -/
theorem OfCommitted.vouchedBy (ht : Traces dep n) {p h : Int} {state : String}
    (ho : OfCommitted dep n p h state) {b : Committed (Origin ι)}
    (hb : (n.chains p).history[h.toNat - 1]? = some b) : VouchedBy dep n b state := by
  cases ho with
  | source hcopy hheight hstate =>
      cases hcopy with
      | @slot j _ b' _ _ hb' hs _ hat hfwd =>
          have hj : j = h.toNat - 1 := by omega
          rw [hj, hb] at hb'
          cases hb'
          exact .source (List.mem_of_getElem? hs) hfwd hstate
  | relay hcopy hconfirm hstate =>
      obtain ⟨r, rfl, hin⟩ := hconfirm
      cases hin with
      | @committed i b' s _ hb' hs htag =>
          have hi : ((i + 1 : Nat) : Int).toNat - 1 = i := by omega
          rw [hi, hb'] at hb
          cases hb
          have hdone := List.mem_append_left (n.chains p).waiting
            (mem_done (List.mem_of_getElem? hb') hs)
          rw [htag] at hdone
          obtain ⟨e, he, hetag, hkept⟩ := (ht.net.chains p).exists_accepted hdone
          have htraced := ht.accepted p e he
          rw [hetag, hkept] at htraced
          obtain ⟨header, _, hat, hdata⟩ := htraced
          exact .relay hs hdata (hat hcopy.height_pos) hcopy hstate
      | inProgress =>
          -- the block in progress is not committed
          obtain ⟨hlt, _⟩ := List.getElem?_eq_some_iff.mp hb
          omega

/-- **`query_state` answers with the state of a committed transaction.**  The light clients
of `d` and of the relay chains start empty, and clients write to none of them.  Then in
every run, whatever fails and in every mode: what `d` keeps under height `h` of chain `p`
is kept under the header of the block that `p` committed at `h`, and is the state of a
transaction committed in this block, or of one committed in a block of another chain whose
header a `header_sync` of this block brought. -/
theorem query_state_genuine {n0 : Net ι} {acts : List (Action ι)} (h0 : Started n0)
    (hempty : ∀ q, Asked dep d q → NoHeaders (n0.chains q))
    (hstates : ∀ p h i : Int, 1 ≤ h → 0 ≤ i →
      (n0.chains d).store.get (stateKey (.int p) (.int h) (.int i)) = none)
    (halone : Along (step dep) (WriteNothing dep d) n0 acts)
    (hrun : runFrom (step dep) n0 acts = some n) {p h i : Int} (hpos : 1 ≤ h) (hi : 1 ≤ i)
    {answer : Json} (hquery : queryState (n.chains d).store (.int p) (.int h) (.int i) = .ok answer) :
    ∃ state header k b, answer = .str state
      ∧ queryHeader (n.chains d).store (.int p) (.int h) = .ok (.str (recordText (header, k)))
      ∧ (n.chains p).history[h.toNat - 1]? = some b ∧ b.block.header = .ok header
      ∧ VouchedBy dep n b state := by
  have hinv := run_statesInv halone hrun (h0.statesInv hempty hstates)
  obtain ⟨states, hat, hheader, hall⟩ := hinv.states p h hpos
  obtain ⟨state, hmem, rfl⟩ := hat.query hi hquery
  obtain ⟨text, hget⟩ := Option.isSome_iff_exists.mp (hheader (List.ne_nil_of_mem hmem))
  obtain ⟨header, k, rfl, _, ⟨b, hb, hblock⟩, _⟩ := (hinv.mirror p).records h text hpos hget
  have hvouched := (hall state hmem).vouchedBy (hinv.mirror p).traces hb
  refine ⟨state, header, k, b, rfl, ?_, hb, hblock, hvouched⟩
  unfold queryHeader
  rw [hget]

/-! ## §6. Where clients are silent. -/

omit [Contracts] [Sha256] [DecidableEq ι] in
/-- The chain a client submits to. -/
def submitsTo : Action ι → Option Int
  | .chain p (.submit _ _ _) => some p
  | _ => none

/-- **Clients write nothing where they submit nothing.** -/
theorem along_writeNothing {acts : List (Action ι)}
    (hsilent : ∀ q, Asked dep d q → q ∉ acts.filterMap submitsTo) (hn : NetOk dep n)
    (hno : ∀ q, Asked dep d q → ∀ e ∈ (n.chains q).accepted, e.1 ≠ .client) :
    Along (step dep) (WriteNothing dep d) n acts := by
  -- no client's transaction is there to be executed
  have hnone : ∀ n : Net ι, NetOk dep n →
      (∀ q, Asked dep d q → ∀ e ∈ (n.chains q).accepted, e.1 ≠ .client) → ∀ q, Asked dep d q →
      ∀ pr tx rest, (n.chains q).phase = .executing pr → pr.rest ≠ (some .client, tx) :: rest := by
    intro n hn hno q hq pr tx rest hphase hrest
    have hmem : (some Origin.client, tx.kept) ∈ (n.chains q).done ++ (n.chains q).waiting := by
      rw [Chain.waiting_head hphase hrest]
      exact List.mem_append_right _ List.mem_cons_self
    obtain ⟨e, he, htag, _⟩ := (hn.chains q).exists_accepted hmem
    exact hno q hq e he htag
  refine along_of_invariant (P := fun n => NetOk dep n ∧
    ∀ q, Asked dep d q → ∀ e ∈ (n.chains q).accepted, e.1 ≠ .client) ?_ ?_ ⟨hn, hno⟩
  · intro n a hq
    have habsurd := hnone n hq.1 hq.2
    constructor
    · intro r inter hinter _ pr tx rest hphase hrest
      exact absurd hrest (habsurd _ (Or.inr ⟨r, inter, hinter, rfl⟩) pr tx rest hphase)
    · intro p _ pr tx rest hphase hrest
      exact absurd hrest (habsurd d (Or.inl rfl) pr tx rest hphase)
    · intro _ pr tx rest hphase hrest
      exact absurd hrest (habsurd d (Or.inl rfl) pr tx rest hphase)
  · intro a ha n n' hq h
    refine ⟨step_netOk hq.1 h, fun q hasked e he => ?_⟩
    rcases accepted_new h he with hold | ⟨_, time, haction⟩ | ⟨tx, hsend, _⟩
    · exact hq.2 q hasked e hold
    · have hmem : q ∈ acts.filterMap submitsTo := by
        apply List.mem_filterMap.mpr
        refine ⟨a, ha, ?_⟩
        rw [haction]
        rfl
      exact absurd hmem (hsilent q hasked)
    · intro hclient
      rw [hclient] at hsend
      cases hsend

/-! ## §7. A run. -/

section Sample

omit [DecidableEq ι] [Contracts] [Sha256]

/-- The gateways of two parachains, over chains that close a block with its first
transaction. -/
def briskDeployment : Deployment (Gateway twoHosts.para) :=
  twoHosts.deployment (fun _ => { blockSize := 1 })

/-- A block of one transaction. -/
def blockActions (p : Int) : List (Action (Gateway twoHosts.para)) := [
  .chain p (.propose PyFloat.zero (fun _ => (0, PyFloat.zero))), .chain p (.takeTx PyFloat.zero)]

/-- A gateway takes a block, and brings its header to chain `p`. -/
def relayHeader (r : Gateway twoHosts.para) (p : Int) : List (Action (Gateway twoHosts.para)) := [
  .start r .delivered, .listen r .delivered (fun _ => PyFloat.zero),
  .dealHeader r p .delivered PyFloat.zero PyFloat.zero]

/-- A client's transaction is committed on parachain `0`, the header of its block on the
relay chain, and the header of that block executed on parachain `1`. -/
def headerHops : List (Action (Gateway twoHosts.para)) :=
  [.chain 0 (.submit PyFloat.zero .client sampleXtx)] ++ blockActions 0
    ++ [.chain 0 .executeNext, .chain 0 (.commit PyFloat.zero)]
    ++ relayHeader (.par ⟨0, by decide⟩) interPid ++ blockActions interPid
    ++ [.chain interPid .executeNext, .chain interPid (.commit PyFloat.zero)]
    ++ relayHeader .inter 1 ++ blockActions 1 ++ [.chain 1 .executeNext]

/-- The gateway between the parachains sends the first-layer verification, which is about to
be executed. -/
def layerActions : List (Action (Gateway twoHosts.para)) :=
  headerHops ++ [
    .start (.pap ⟨0, by decide⟩) .delivered,
    .listen (.pap ⟨0, by decide⟩) .delivered (fun _ => PyFloat.zero),
    .takeXtx (.pap ⟨0, by decide⟩) 1 .delivered PyFloat.zero]
  ++ List.replicate 6 (.advance (.pap ⟨0, by decide⟩) 1 .delivered PyFloat.zero PyFloat.zero)
  ++ [.chain 1 (.commit PyFloat.zero)] ++ blockActions 1

/-- The first-layer verification of parachain `0` under block `1` of the relay chain. -/
def isFirstLayer : Origin (Gateway twoHosts.para) → Bool
  | .layer1 (.pap p) k => decide (p.1 = 0) && decide (k = 1)
  | _ => false

/-- It is the next transaction to be executed. -/
def awaitsFirstLayer (c : Chain (Origin (Gateway twoHosts.para))) : Bool :=
  match c.phase with
  | .executing pr =>
      match pr.rest with
      | (some tag, _) :: _ => isFirstLayer tag
      | _ => false
  | _ => false

theorem layerActions_run :
    ∃ n, runFrom (@step _ _ Contracts.plain Sha256.plain briskDeployment) twoNet layerActions = some n
      ∧ awaitsFirstLayer (n.chains 1) = true
      ∧ hasHeader (n.chains 1).store (.int interPid) (.int 1) = true := by
  have hview : (runFrom (@quickStep Sha256.plain _ _ Contracts.plain briskDeployment) twoNet
      layerActions).map (fun n => (awaitsFirstLayer (n.chains 1),
        hasHeader (n.chains 1).store (.int interPid) (.int 1))) = some (true, true) := by
    decide +kernel
  obtain ⟨n, hn, hsee⟩ := Option.map_eq_some_iff.mp hview
  obtain ⟨hawaits, hhas⟩ := Prod.mk.inj hsee
  exact ⟨n, @quickRun_sound Sha256.plain _ _ Contracts.plain briskDeployment n twoNet layerActions
    twoNet_started hn, hawaits, hhas⟩

theorem awaits_layer1 {c : Chain (Origin (Gateway twoHosts.para))}
    (h : awaitsFirstLayer c = true) : ∃ pr tx rest, c.phase = .executing pr
      ∧ pr.rest = (some (.layer1 (.pap ⟨0, by decide⟩) 1), tx) :: rest := by
  unfold awaitsFirstLayer at h
  split at h
  next pr hphase =>
      split at h
      next tag tx rest hrest =>
          unfold isFirstLayer at h
          split at h
          next p k =>
              obtain ⟨hp, hk⟩ := (Bool.and_eq_true _ _).mp h
              have hpid : p = ⟨0, by decide⟩ := Subtype.ext (of_decide_eq_true hp)
              rw [hpid, of_decide_eq_true hk] at hrest
              exact ⟨pr, tx, rest, hphase, hrest⟩
          next => cases h
      next => cases h
  next => cases h

theorem briskDeployment_asked {q : Int} (h : Asked briskDeployment 1 q) : q = 1 ∨ q = interPid := by
  rcases h with rfl | ⟨r, inter, hinter, rfl⟩
  · exact Or.inl rfl
  · exact Or.inr (twoHosts.relayer_inter hinter)

theorem twoNet_noHeaders (q : Int) : @NoHeaders _ Contracts.plain (twoNet.chains q) :=
  @NoHeaders.mk _ Contracts.plain _ typedStore_installed (fun _ _ _ => typedStore_noHeader _ _)

/-- Clients submit to parachain `0` only. -/
theorem layerActions_silent {acts : List (Action (Gateway twoHosts.para))}
    (h : acts.filterMap submitsTo = [0]) :
    Along (@step _ _ Contracts.plain Sha256.plain briskDeployment)
      (@WriteNothing _ Contracts.plain Sha256.plain briskDeployment 1) twoNet acts := by
  refine @along_writeNothing _ Contracts.plain Sha256.plain briskDeployment twoNet 1 _ acts
    (fun q hq hmem => ?_) (@Started.netOk _ Sha256.plain twoNet twoNet_started briskDeployment)
    (fun q _ e he => by cases he)
  rw [h] at hmem
  have hzero := List.mem_singleton.mp hmem
  rcases briskDeployment_asked hq with hq | hq
  · omega
  · rw [hq] at hzero
    revert hzero
    decide

/-- Parachain `1` has accepted a first-layer verification. -/
theorem first_layer_confirmed_sample :
    ∃ n, runFrom (@step _ _ Contracts.plain Sha256.plain briskDeployment) twoNet layerActions = some n
      ∧ ∃ e ∈ (n.chains 1).accepted, e.1 = .layer1 (.pap ⟨0, by decide⟩) 1
        ∧ @FirstLayer _ Sha256.plain briskDeployment (.pap ⟨0, by decide⟩) n 1 e.2.kept := by
  let _ : Contracts := Contracts.plain
  let _ : Sha256 := Sha256.plain
  obtain ⟨n, hrun, hawaits, _⟩ := layerActions_run
  obtain ⟨pr, tx, rest, hphase, hrest⟩ := awaits_layer1 hawaits
  have hn := run_netOk twoNet_started hrun
  have hmem : (some (Origin.layer1 (.pap ⟨0, by decide⟩) 1), tx.kept)
      ∈ (n.chains 1).done ++ (n.chains 1).waiting := by
    rw [Chain.waiting_head hphase hrest]
    exact List.mem_append_right _ List.mem_cons_self
  obtain ⟨e, he, htag, _⟩ := (hn.chains 1).exists_accepted hmem
  have halone : Along (step briskDeployment) (RelayApart briskDeployment (.pap ⟨0, by decide⟩))
      twoNet layerActions :=
    along_mono (fun n a h => h.relay (.pap ⟨0, by decide⟩)) layerActions (layerActions_silent rfl)
  refine ⟨n, hrun, e, he, htag, ?_⟩
  exact first_layer_confirmed twoNet_started (fun inter _ => (twoNet_noHeaders inter.pid).installed)
    (fun inter _ => (twoNet_noHeaders inter.pid).headers _) halone hrun 1 e he 1 htag

theorem typedStore_noState (p h i : Json) : typedStore.get (stateKey p h i) = none := by
  have hstore : typedStore = ((timings.foldl (fun st kv => st.set kv.1 kv.2)
      (BaseStore.empty.set "base" (hex [0]))).set "lightclient" (hex [1])).set "paratype"
        "Ethereum" := rfl
  have hne : ∀ {key : String}, key.toList.head? ≠ some 's' → stateKey p h i ≠ key :=
    fun hk => (stateKey_ne hk p h i).symm
  rw [hstore, BaseStore.get_set_ne (hne (by decide)), BaseStore.get_set_ne (hne (by decide))]
  simp only [timings, List.foldl_cons, List.foldl_nil]
  repeat rw [BaseStore.get_set_ne (hne (by decide))]
  rfl

/-- Once it is executed, parachain `1` answers with its state. -/
theorem query_state_genuine_sample :
    ∃ n, runFrom (@step _ _ Contracts.plain Sha256.plain briskDeployment) twoNet
        (layerActions ++ [.chain 1 .executeNext]) = some n
      ∧ ∃ i state, queryState (n.chains 1).store (.int interPid) (.int 1) (.int i) = .ok (.str state)
        ∧ ∃ b ∈ (n.chains interPid).history, @VouchedBy _ Sha256.plain briskDeployment n b state := by
  let _ : Contracts := Contracts.plain
  let _ : Sha256 := Sha256.plain
  obtain ⟨n, hrun, hawaits, hhas⟩ := layerActions_run
  obtain ⟨pr, tx, rest, hphase, hrest⟩ := awaits_layer1 hawaits
  have hempty : ∀ q, Asked briskDeployment 1 q → NoHeaders (twoNet.chains q) :=
    fun q _ => twoNet_noHeaders q
  have hstates : ∀ p h i : Int, 1 ≤ h → 0 ≤ i →
      (twoNet.chains 1).store.get (stateKey (.int p) (.int h) (.int i)) = none :=
    fun p h i _ _ => typedStore_noState _ _ _
  have hinv := run_statesInv (layerActions_silent rfl) hrun (twoNet_started.statesInv hempty hstates)
  -- the request about to be executed, and where it goes
  have hn := (hinv.mirror 1).traces.net
  have hmem : (some (Origin.layer1 (.pap ⟨0, by decide⟩) 1), tx.kept)
      ∈ (n.chains 1).done ++ (n.chains 1).waiting := by
    rw [Chain.waiting_head hphase hrest]
    exact List.mem_append_right _ List.mem_cons_self
  obtain ⟨e, he, htag, hkept⟩ := (hn.chains 1).exists_accepted hmem
  obtain ⟨_, _, _, hto, _⟩ := typed_head (hn.chains 1) (hn.accepted 1) hmem
  obtain ⟨inter, _, _, state, hinter, _, _, _, hdata⟩ :=
    (hinv.layer1 (.pap ⟨0, by decide⟩)).accepted 1 e he 1 htag
  rw [hkept, twoHosts.relayer_inter hinter] at hdata
  have hstore := (executeNext_request (some (Origin.layer1 (.pap ⟨0, by decide⟩) 1)) rest hphase
    (hinv.mirror 1).client.installed (by simp [Json.wf]) hto hdata).2
  have hstep : step briskDeployment n (.chain 1 .executeNext)
      = some (n.setChain 1 ((n.chains 1).executeNext pr (some (.layer1 (.pap ⟨0, by decide⟩) 1)) tx
        rest)) := by
    simp only [step, fromClient, Chain.step, hphase, hrest, if_true]
    rfl
  have hrun' := runFrom_append layerActions _ hrun (runFrom_one hstep)
  obtain ⟨states, hat, _⟩ := hinv.states interPid 1 (le_refl _)
  have hat' := hat.validate (le_refl _) hhas (.str inter.paratype) state
  have hquery : queryState ((n.setChain 1 ((n.chains 1).executeNext pr
      (some (.layer1 (.pap ⟨0, by decide⟩) 1)) tx rest)).chains 1).store (.int interPid) (.int 1)
      (.int ((states.length + 1 : Nat) : Int)) = .ok (.str state) := by
    have hself : ∀ c, (n.setChain 1 c).chains 1 = c := fun c => by simp
    have hentry := hat'.entries states.length
    rw [List.getElem?_concat_length] at hentry
    rw [hself, hstore]
    dsimp only [queryState, call]
    rw [hentry]
  have hone : (1 : Int) ≤ ((states.length + 1 : Nat) : Int) := by omega
  obtain ⟨_, _, _, b, hanswer, _, hb, _, hvouched⟩ := query_state_genuine twoNet_started hempty
    hstates (layerActions_silent rfl) hrun' (le_refl 1) hone hquery
  cases hanswer
  exact ⟨_, hrun', _, state, hquery, b, List.mem_of_getElem? hb, hvouched⟩

end Sample

end Net

end TorSim
