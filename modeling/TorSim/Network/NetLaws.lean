/-
  TorSim.Network.NetLaws — what holds of every reachable network.

  Main results:
    * `run_netOk` — **in every run** the chains keep their books, every relayed
      submission is the request its origin says, and every queued header is one
      of a block of the source.
-/
import TorSim.Network.Spot

namespace TorSim

open TorSim.Lib

variable {τ ι : Type} [DecidableEq ι] [Contracts] [Sha256]

omit [Sha256] in
theorem Connector.Queried.exists_store {c c' : Chain τ} (h : Connector.Queried c c') :
    ∃ st, c' = { c with store := st } := ⟨c'.store, h.frame⟩

namespace Net

/-! ## §1. Chains. -/

/-- The books of one chain. -/
structure ChainOk (cfg : Config) (c : Chain (Origin ι)) : Prop where
  inv : ∃ time, Chain.ChainInv [Chain.genesisBlock time] c
  flow : Chain.Flow c
  proposed : Chain.Proposed c
  untagged : Chain.Untagged cfg c

omit [DecidableEq ι] in
theorem step_chainOk {cfg : Config} {c c' : Chain (Origin ι)} {b : Chain.Action (Origin ι)}
    (hc : ChainOk cfg c) (h : Chain.step cfg c b = some c') : ChainOk cfg c' := by
  obtain ⟨time, hinv⟩ := hc.inv
  exact ⟨⟨time, Chain.step_chainInv hinv h⟩, Chain.step_flow hc.flow h,
    Chain.step_proposed hc.proposed h, Chain.step_untagged hc.untagged h⟩

omit [DecidableEq ι] [Contracts] in
theorem chainOk_store {cfg : Config} {c : Chain (Origin ι)} (hc : ChainOk cfg c)
    (st : BaseStore) : ChainOk cfg { c with store := st } := by
  obtain ⟨time, hinv⟩ := hc.inv
  exact ⟨⟨time, hinv.blocks, hinv.aligned, hinv.committed⟩, hc.flow, hc.proposed, hc.untagged⟩

/-! ## §2. Submissions of relayers. -/

/-- A queued header: a document that tells a height. -/
structure HeaderOk (header : Json) : Prop where
  wf : header.wf = true
  height : header.getItem "height" = .ok (.int (headerHeight header))
  nonneg : 0 ≤ headerHeight header

/-- What a submission is, by its origin. -/
def Typed (dep : Deployment ι) (pid : Int) (tag : Origin ι) (k : Kept) : Prop :=
  match tag with
  | .client => True
  | .header r h => 0 ≤ h ∧ pid ∈ RelayerUnix.headerTargets (dep.relayer r)
      ∧ k.to_ = .str "lightclient" ∧ ∃ header : Json, header.wf = true
        ∧ k.data = .str (CtrLightClient.request .headerSync
          [.int (dep.relayer r).src.pid, .str (dep.relayer r).src.paratype, .int h, header])
        ∧ k.memo "type" = some (.str TranMemo.ctxHdr)
  | .layer1 r h => ∃ inter state, (dep.relayer r).inter = some inter
      ∧ k.to_ = .str "lightclient"
      ∧ k.data = .str (CtrLightClient.request .validateState
          [.int inter.pid, .str inter.paratype, .int h, .str state])
      ∧ k.memo "type" = some (.str TranMemo.ctxDstL1)
  | .xtx r h _ => k.to_ = .str "lightclient" ∧ ∃ t state,
      k.data = .str (CtrLightClient.request .validateState
          [.int (dep.relayer r).src.pid, .str t, .int h, .str state])

/-- What `deal_xtx` has in hand is the request about its transaction. -/
structure HandOk (cfg : RelayerConfig) (hand : Dealing Root) : Prop where
  to_ : hand.tx.to_ = .str "lightclient"
  data : ∃ t, hand.tx.data = .str (CtrLightClient.request .validateState
    [.int cfg.src.pid, .str t, .int hand.xtx.height, .str hand.state])

/-- **What holds of every reachable network.** -/
structure NetOk (dep : Deployment ι) (n : Net ι) : Prop where
  chains : ∀ p, ChainOk (dep.chainCfg p) (n.chains p)
  accepted : ∀ p, ∀ e ∈ (n.chains p).accepted, Typed dep p e.1 e.2.kept
  listening : ∀ r k, (n.relayers r).listen = .listening k →
    0 ≤ k ∧ k ≤ (n.chains (dep.relayer r).src.pid).history.length + 1
  headers : ∀ r pid header, some header ∈ (n.dst r pid).queueHeader →
    HeaderOk header ∧ pid ∈ RelayerUnix.headerTargets (dep.relayer r)
  hands : ∀ r pid hand, (n.dst r pid).xtxTask.dealing = some hand → HandOk (dep.relayer r) hand

omit [DecidableEq ι] [Contracts] in
/-- What a relayer sends is what its origin says. -/
theorem sends_typed {dep : Deployment ι} {n : Net ι} {a : Action ι} {pid : Int} {tag : Origin ι}
    {tx : Transaction} (hn : NetOk dep n) (h : Sends dep n pid a tag tx) :
    Typed dep pid tag (Connector.arrived tx).kept := by
  cases h with
  | @header r dst link time put header rest tx hdst hqueue htx =>
      obtain ⟨hok, htarget⟩ := hn.headers r pid header (by rw [hqueue]; exact List.mem_cons_self)
      have hto := dep.lightclient r dst (Or.inl (dst_eq_some hdst).1)
      obtain ⟨height, hheight, htx⟩ := except_bind_ok htx
      rw [hok.height] at hheight
      cases hheight
      cases htx
      refine ⟨hok.nonneg, htarget, by rw [← hto]; rfl, header, hok.wf, rfl, ?_⟩
      show (if "type" = "ts" then none else memoField (memoOf _) "type") = _
      rw [if_neg (by decide), memoField_memoOf]
      · rfl
      · rw [Json.wf_obj_iff]
        refine ⟨by simp, ?_⟩
        simp [Json.wf, Json.wfFields]
  | @layer1 r dst inter link time put hand k hdst hdeal hwait hinter =>
      have hto := dep.lightclient r dst (Or.inl (dst_eq_some hdst).1)
      refine ⟨inter, hand.state, hinter, by rw [← hto]; rfl, rfl, ?_⟩
      show (if "type" = "ts" then none else memoField (memoOf _) "type") = _
      rw [if_neg (by decide), memoField_memoOf]
      · rfl
      · rw [Json.wf_obj_iff]
        refine ⟨by simp, ?_⟩
        simp [Json.wf, Json.wfFields]
  | @xtx r dst link time put hand tx hdst hdeal hwait hmark =>
      obtain ⟨hto, t, hdata⟩ := hn.hands r pid hand hdeal
      have hkept := RelayerUnix.kept_markTx hmark
      have h1 : tx.to_ = hand.tx.to_ := congrArg Kept.to_ hkept
      have h2 : tx.data = hand.tx.data := congrArg Kept.data hkept
      exact ⟨h1.trans hto, t, hand.state, h2.trans hdata⟩

/-- What a chain has accepted after a step: what it had, a client's submission, or
what a relayer sends. -/
theorem accepted_effect {dep : Deployment ι} {n : Net ι} {a : Action ι} {p : Int}
    {c : Chain (Origin ι)} (h : ChainEffect dep n a p c) :
    ∀ e ∈ c.accepted, e ∈ (n.chains p).accepted ∨ e.1 = .client
      ∨ ∃ tx, Sends dep n p a e.1 tx ∧ e.2 = Connector.arrived tx := by
  cases h with
  | @own b c haction hclient hstep =>
      cases Chain.step_move hstep with
      | quiet _ _ _ hacc => exact fun e he => Or.inl (hacc ▸ he)
      | generate _ _ _ _ hacc => exact fun e he => Or.inl (hacc ▸ he)
      | execute _ _ _ _ hacc => exact fun e he => Or.inl (hacc ▸ he)
      | crash _ _ _ _ _ hacc _ => exact fun e he => Or.inl (hacc ▸ he)
      | @accept time tag tx c _ _ _ hacc =>
          rw [hacc]
          intro e he
          rcases List.mem_append.mp he with he | he
          · exact Or.inl he
          · rw [List.mem_singleton.mp he]
            exact Or.inr (Or.inl (of_decide_eq_true hclient))
  | queried hq =>
      obtain ⟨st, rfl⟩ := hq.exists_store
      exact fun e he => Or.inl he
  | @relayed put tag tx hsend =>
      intro e he
      rcases Chain.submit_cases put tag (Connector.arrived tx) (n.chains p) with
        ⟨_, hacc⟩ | ⟨_, hsame⟩
      · rw [hacc] at he
        rcases List.mem_append.mp he with he | he
        · exact Or.inl he
        · rw [List.mem_singleton.mp he]
          exact Or.inr (Or.inr ⟨tx, hsend, rfl⟩)
      · rw [hsame] at he
        exact Or.inl he

theorem step_accepted {dep : Deployment ι} {n n' : Net ι} {a : Action ι} (hn : NetOk dep n)
    (h : step dep n a = some n') (p : Int) :
    ∀ e ∈ (n'.chains p).accepted, Typed dep p e.1 e.2.kept := by
  intro e he
  rcases accepted_effect (step_chain h p) e he with hold | hclient | ⟨tx, hsend, heq⟩
  · exact hn.accepted p e hold
  · rw [hclient]
    trivial
  · rw [heq]
    exact sends_typed hn hsend

/-! ## §3. Every step, every run. -/

theorem step_extends {dep : Deployment ι} {n n' : Net ι} {a : Action ι}
    (h : step dep n a = some n') (p : Int) : (n.chains p).history <+: (n'.chains p).history := by
  refine chain_rule (fun b c hs => Chain.step_grows hs) (fun c hq => ?_) (step_chain h p)
  obtain ⟨st, rfl⟩ := hq.exists_store
  exact List.prefix_rfl

theorem step_listening {dep : Deployment ι} {n n' : Net ι} {a : Action ι} (hn : NetOk dep n)
    (h : step dep n a = some n') (r : ι) (k : Int) (hk : (n'.relayers r).listen = .listening k) :
    0 ≤ k ∧ k ≤ (n'.chains (dep.relayer r).src.pid).history.length + 1 := by
  have hgrow := (step_extends h (dep.relayer r).src.pid).length_le
  have hold : ∀ j, (n.relayers r).listen = .listening j →
      0 ≤ j ∧ j ≤ (n'.chains (dep.relayer r).src.pid).history.length + 1 := by
    intro j hj
    obtain ⟨h0, h1⟩ := hn.listening r j hj
    omega
  have hspot := step_spot h r 0
  have hlisten : (n'.spot r 0).listen = .listening k := hk
  generalize n'.spot r 0 = sp at hspot hlisten
  cases hspot with
  | elsewhere => exact hold k hlisten
  | started hcreated hstart =>
      rcases hstart with ⟨rfl, _⟩ | ⟨rfl, _⟩
      · cases hlisten
      · cases hlisten
        obtain ⟨time, hinv⟩ := (hn.chains (dep.relayer r).src.pid).inv
        rw [hinv.blockNum]
        omega
  | @retry j e hj =>
      rcases RelayerUnix.afterError_cases j e with he | he
      · obtain rfl : j = k := by
          rw [he] at hlisten
          exact Listen.listening.inj hlisten
        exact hold j hj
      · rw [he] at hlisten
        cases hlisten
  | @block j time block header res ds hj hfetch hfilter =>
      obtain ⟨time, hinv⟩ := (hn.chains (dep.relayer r).src.pid).inv
      obtain ⟨h0, h1⟩ := hn.listening r j hj
      obtain ⟨_, _, _, hle, _⟩ := RelayerUnix.fetched_block hinv h0 hfetch
      cases res with
      | ok m =>
          cases hlisten
          omega
      | error e =>
          rcases RelayerUnix.afterError_cases j e with he | he
          · obtain rfl : j = k := by
              dsimp only [listenAfter] at hlisten
              rw [he] at hlisten
              exact Listen.listening.inj hlisten
            exact hold j hj
          · dsimp only [listenAfter] at hlisten
            rw [he] at hlisten
            cases hlisten
  | stopListen => cases hlisten
  | stopHeader => exact hold k hlisten
  | stopXtx => exact hold k hlisten
  | dealHeader => exact hold k hlisten
  | takeXtx => exact hold k hlisten
  | advance => exact hold k hlisten

theorem step_headers {dep : Deployment ι} {n n' : Net ι} {a : Action ι} (hn : NetOk dep n)
    (h : step dep n a = some n') (r : ι) (pid : Int) (header : Json)
    (hmem : some header ∈ (n'.dst r pid).queueHeader) :
    HeaderOk header ∧ pid ∈ RelayerUnix.headerTargets (dep.relayer r) := by
  have hspot := step_spot h r pid
  have hqueue : some header ∈ (n'.spot r pid).tools.queueHeader := hmem
  generalize n'.spot r pid = sp at hspot hqueue
  cases hspot with
  | @block j time block hd res ds hj hfetch hfilter =>
      obtain ⟨hs, fs, hds, hhs, _, _⟩ := (RelayerUnix.filterBlock_run hfilter pid).queues
      dsimp only at hqueue
      rw [hds] at hqueue
      rcases List.mem_append.mp hqueue with hold | hnew
      · exact hn.headers r pid header hold
      · obtain ⟨hd', hhd', heq⟩ := List.mem_map.mp hnew
        cases heq
        rcases hhs with rfl | ⟨htarget, rfl⟩
        · cases hhd'
        · obtain ⟨time, hinv⟩ := (hn.chains (dep.relayer r).src.pid).inv
          have h0 := (hn.listening r j hj).1
          obtain ⟨hwf, hitem, _⟩ := RelayerUnix.fetched_block hinv h0 hfetch
          rw [List.mem_singleton.mp hhd']
          have hheight : headerHeight hd = j := by rw [headerHeight, hitem]
          exact ⟨⟨hwf, by rw [hheight, hitem], by rw [hheight]; exact h0⟩, htarget⟩
  | stopHeader =>
      rcases List.mem_append.mp hqueue with hold | hnew
      · exact hn.headers r pid header hold
      · cases List.mem_singleton.mp hnew
  | dealHeader haction hdst halive hround =>
      have hrest : ∀ {x : Option Json} {rest : List (Option Json)},
          (n.dst r pid).queueHeader = x :: rest → some header ∈ rest →
          HeaderOk header ∧ pid ∈ RelayerUnix.headerTargets (dep.relayer r) := by
        intro x rest hq hmem
        exact hn.headers r pid header (by rw [hq]; exact List.mem_cons_of_mem _ hmem)
      cases hround with
      | stop hq => exact hrest hq hqueue
      | sent hq _ _ => exact hrest hq hqueue
      | failed hq _ => exact hrest hq hqueue
  | takeXtx hdst halive hnone hround =>
      cases hround with
      | stop => exact hn.headers r pid header hqueue
      | taken => exact hn.headers r pid header hqueue
      | failed => exact hn.headers r pid header hqueue
  | elsewhere => exact hn.headers r pid header hqueue
  | started => exact hn.headers r pid header hqueue
  | retry => exact hn.headers r pid header hqueue
  | stopListen => exact hn.headers r pid header hqueue
  | stopXtx => exact hn.headers r pid header hqueue
  | advance => exact hn.headers r pid header hqueue

omit [DecidableEq ι] [Sha256] in
/-- Only the wait changes of what is in hand. -/
theorem advance_hand {cfg : RelayerConfig} {dst : Connector} {time put : PyFloat} {r : ι}
    {t t' : XtxTask Root} {hand hand' : Dealing Root} {cs cs' : Int → Chain (Origin ι)}
    (h : RelayerUnix.AdvanceCase cfg dst time put (xtxTags r) t hand cs t' cs')
    (hdeal : t.dealing = some hand) (hdeal' : t'.dealing = some hand') :
    ∃ w, hand' = { hand with wait := w } := by
  cases h with
  | interQuery => exact ⟨hand.wait, (Option.some.inj (hdeal.symm.trans hdeal')).symm⟩
  | dstQuery => exact ⟨hand.wait, (Option.some.inj (hdeal.symm.trans hdeal')).symm⟩
  | interDone => exact ⟨_, (Option.some.inj hdeal').symm⟩
  | csQuery => exact ⟨_, (Option.some.inj hdeal').symm⟩
  | csCached => exact ⟨_, (Option.some.inj hdeal').symm⟩
  | dstDone => exact ⟨_, (Option.some.inj hdeal').symm⟩
  | layer1Skip => exact ⟨_, (Option.some.inj hdeal').symm⟩
  | layer1Sent => exact ⟨_, (Option.some.inj hdeal').symm⟩
  | sent => cases hdeal'
  | dead => cases hdeal'
  | deadQuery => cases hdeal'
  | deadLayer1 => cases hdeal'
  | deadSent => cases hdeal'

theorem step_hands {dep : Deployment ι} {n n' : Net ι} {a : Action ι} (hn : NetOk dep n)
    (h : step dep n a = some n') (r : ι) (pid : Int) (hand : Dealing Root)
    (hdeal : (n'.dst r pid).xtxTask.dealing = some hand) : HandOk (dep.relayer r) hand := by
  have hspot := step_spot h r pid
  have htools : (n'.spot r pid).tools.xtxTask.dealing = some hand := hdeal
  generalize n'.spot r pid = sp at hspot htools
  cases hspot with
  | @block j time block hd res ds hj hfetch hfilter =>
      obtain ⟨hs, fs, hds, _⟩ := (RelayerUnix.filterBlock_run hfilter pid).queues
      dsimp only at htools
      rw [hds] at htools
      exact hn.hands r pid hand htools
  | dealHeader haction hdst halive hround =>
      cases hround with
      | stop => exact hn.hands r pid hand htools
      | sent => exact hn.hands r pid hand htools
      | failed => exact hn.hands r pid hand htools
  | @takeXtx dst d hdst halive hnone hround =>
      cases hround with
      | stop => exact hn.hands r pid hand htools
      | failed => exact hn.hands r pid hand htools
      | taken hqueue hprep =>
          cases htools
          have hto := dep.lightclient r dst (Or.inl (dst_eq_some hdst).1)
          refine ⟨by rw [hprep.to_, hto], RelayerUnix.srcType (dep.relayer r) dst, ?_⟩
          rw [hprep.data, hprep.xtx_eq]
  | advance haction hdst halive hold hround =>
      obtain ⟨w, rfl⟩ := advance_hand hround hold htools
      obtain ⟨hto, hdata⟩ := hn.hands r pid _ hold
      exact ⟨hto, hdata⟩
  | elsewhere => exact hn.hands r pid hand htools
  | started => exact hn.hands r pid hand htools
  | retry => exact hn.hands r pid hand htools
  | stopListen => exact hn.hands r pid hand htools
  | stopHeader => exact hn.hands r pid hand htools
  | stopXtx => exact hn.hands r pid hand htools

theorem step_netOk {dep : Deployment ι} {n n' : Net ι} {a : Action ι} (hn : NetOk dep n)
    (h : step dep n a = some n') : NetOk dep n' where
  chains p := by
    refine chain_rule (fun b c hs => step_chainOk (hn.chains p) hs) (fun c hq => ?_) (step_chain h p)
    obtain ⟨st, rfl⟩ := hq.exists_store
    exact chainOk_store (hn.chains p) st
  accepted := step_accepted hn h
  listening := step_listening hn h
  headers := step_headers hn h
  hands := step_hands hn h

/-- Before the first step: chains with only clients' submissions in their pools,
and relayers that have done nothing. -/
structure Started (n : Net ι) : Prop where
  fresh : ∀ p, Chain.Fresh (n.chains p)
  clients : ∀ p, ∀ e ∈ (n.chains p).accepted, e.1 = .client
  relayers : ∀ r, n.relayers r = {}

omit [DecidableEq ι] [Contracts] in
theorem Started.netOk {n : Net ι} (h : Started n) (dep : Deployment ι) : NetOk dep n where
  chains p := by
    have hf := h.fresh p
    obtain ⟨time, hb⟩ := hf.blocks
    exact ⟨⟨time, hb ▸ hf.chainInv⟩, hf.flow, hf.proposed, hf.untagged _⟩
  accepted p e he := by
    rw [h.clients p e he]
    trivial
  listening r k hk := by
    rw [h.relayers r] at hk
    cases hk
  headers r pid header hmem := by
    rw [dst, h.relayers r] at hmem
    cases hmem
  hands r pid hand hdeal := by
    rw [dst, h.relayers r] at hdeal
    cases hdeal

/-- **In every run** the books are in order. -/
theorem run_netOk {dep : Deployment ι} {n0 n : Net ι} {acts : List (Action ι)} (h0 : Started n0)
    (h : runFrom (step dep) n0 acts = some n) : NetOk dep n :=
  run_invariant (fun _ _ _ hn hs => step_netOk hn hs) acts h (h0.netOk dep)

end Net

end TorSim
