/-
  TorSim.Network.Waiting — the wait of `deal_xtx` for a header.

  In NoR and AoR mode a cross-chain transaction of height `h` is held back until
  the greatest height synchronised at its destination is `h` at least.  That
  height is cached from transaction to transaction and says nothing about `h`
  itself.  It is enough nevertheless: headers arrive as a ladder from the first
  block the relayer took, and no transaction is older than that block.

  Main results:
    * `step_waiting` — the cached height is never too great.
    * `validate_finds_header` — **a state is sent only when its header is there**.
-/
import TorSim.Network.Headers
import TorSim.Relayer.Statuses

namespace TorSim

open TorSim.Lib

variable {ι : Type} [Contracts] [Sha256]

namespace Net

open CtrLightClient

/-! ## §1. Heights. -/

/-- A height of a block the relayer took, none of them the genesis block. -/
def Taken (start h : Int) : Prop := 1 ≤ h ∧ start ≤ h

omit [Contracts] in
/-- What a block puts into the queues has the height of the block. -/
theorem forwards_height {dep : Deployment ι} {n : Net ι} {r : ι} {pid k : Int}
    {time : Nat → PyFloat} {tag : Nat → Root} {block : Block} {header : Json}
    (hn : NetOk dep n) (hk : (n.relayers r).listen = .listening k)
    (hfetch : RelayerUnix.Fetched (n.chains (dep.relayer r).src.pid) k block header)
    {e : Root × Transaction}
    (he : e ∈ RelayerUnix.blockForwards (dep.relayer r) time tag pid block.txs) :
    1 ≤ k ∧ e.2.height = k := by
  obtain ⟨_, hinv⟩ := (hn.chains (dep.relayer r).src.pid).inv
  have h0 := (hn.listening r k hk).1
  obtain ⟨_, _, hat, _, hwhere⟩ := RelayerUnix.fetched_block hinv h0 hfetch
  unfold RelayerUnix.blockForwards at he
  split at he
  next => cases he
  next =>
      obtain ⟨tx, htx, ty, _, hfwd⟩ := RelayerUnix.mem_forwards _ 0 he
      rcases hwhere with ⟨_, hnil⟩ | ⟨rec, h1, hr, rfl⟩
      · rw [hnil] at htx
        cases htx
      · have hok := hinv.committed rec (List.mem_of_getElem? hr)
        rw [hok.txs] at htx
        obtain ⟨s, hs, rfl⟩ := List.mem_map.mp htx
        exact ⟨h1, by rw [hfwd.height, hok.height s hs, hat]⟩

/-- **The cached height is never too great.** -/
def Cached (dep : Deployment ι) (r : ι) (s : Spot ι) : Prop :=
  s.tools.xtxTask.syncedHeight
    ≤ peak 0 (synced dep (RelayerUnix.countedPid (dep.relayer r)) s.chain)

omit [Contracts] [Sha256] in
/-- Outside ToR mode the headers counted are those of the source. -/
theorem countedPid_src {cfg : RelayerConfig} (hmode : cfg.mode ≠ .tor) :
    RelayerUnix.countedPid cfg = cfg.src.pid := by
  unfold RelayerUnix.countedPid
  split
  next hm _ => exact absurd hm hmode
  next => rfl

/-- Every transaction on its way was taken from a block of the ladder, and waits
for its own height. -/
structure Waiting (dep : Deployment ι) (r : ι) (pid : Int) (s : Spot ι) : Prop where
  created : s.listen = .created → (∀ e, some e ∉ s.tools.queueXtx)
    ∧ s.tools.xtxTask.dealing = none
    ∧ ∀ e ∈ s.chain.accepted, ∀ h root, e.1 ≠ .xtx r h root
  listening : ∀ k, s.listen = .listening k → s.startbn ≤ k
  queue : ∀ e, some e ∈ s.tools.queueXtx → Taken s.startbn e.2.height
  hand : ∀ hand, s.tools.xtxTask.dealing = some hand → Taken s.startbn hand.xtx.height
    ∧ (hand.wait = .dst hand.xtx.height
      ∨ hand.wait = .ready ∧ hand.xtx.height ≤ s.tools.xtxTask.syncedHeight)
  accepted : ∀ e ∈ s.chain.accepted, ∀ h root, e.1 = .xtx r h root → Taken s.startbn h
    ∧ h ≤ peak 0 (synced dep (dep.relayer r).src.pid s.chain)

variable [DecidableEq ι]

/-- A step of anybody only adds to the executed headers. -/
theorem synced_effect {dep : Deployment ι} {n : Net ι} {a : Action ι} {p pid : Int}
    {c : Chain (Origin ι)} (h : ChainEffect dep n a pid c) :
    peak 0 (synced dep p (n.chains pid)) ≤ peak 0 (synced dep p c) := by
  have hpre : synced dep p (n.chains pid) <+: synced dep p c := by
    refine chain_rule (fun b c hs => step_synced dep p hs) (fun c hq => ?_) h
    obtain ⟨st, rfl⟩ := hq.exists_store
    exact List.prefix_rfl
  obtain ⟨ws, hws⟩ := hpre
  rw [← hws]
  exact peak_le_append 0 _ ws

/-- The accepted transactions of the relayer: the old ones, and the one in hand
when it is ready. -/
theorem accepted_xtx {dep : Deployment ι} {n : Net ι} {a : Action ι} {r : ι} {pid : Int}
    {c : Chain (Origin ι)} (heff : ChainEffect dep n a pid c) :
    ∀ e ∈ c.accepted, ∀ h root, e.1 = .xtx r h root → e ∈ (n.chains pid).accepted
      ∨ ∃ hand, (n.dst r pid).xtxTask.dealing = some hand ∧ hand.wait = .ready
        ∧ hand.xtx.height = h := by
  intro e he h root htag
  rcases accepted_effect heff e he with hold | hclient | ⟨tx, hsend, _⟩
  · exact Or.inl hold
  · rw [hclient] at htag
    cases htag
  · rw [htag] at hsend
    cases hsend with
    | xtx hdst hdeal hwait hmark => exact Or.inr ⟨_, hdeal, hwait, rfl⟩

omit [Contracts] [Sha256] [DecidableEq ι] in
/-- A step that adds nothing to the queue and leaves the task alone. -/
theorem Waiting.keep {dep : Deployment ι} {r : ι} {pid : Int} {s s' : Spot ι}
    (hw : Waiting dep r pid s)
    (hacc : ∀ e ∈ s'.chain.accepted, ∀ h root, e.1 = .xtx r h root → Taken s.startbn h
      ∧ h ≤ peak 0 (synced dep (dep.relayer r).src.pid s'.chain))
    (hno : s.listen = .created → ∀ e ∈ s'.chain.accepted, ∀ h root, e.1 ≠ .xtx r h root)
    (hqueue : ∀ e, some e ∈ s'.tools.queueXtx → some e ∈ s.tools.queueXtx)
    (hdeal : s'.tools.xtxTask.dealing = none ∨ s'.tools.xtxTask = s.tools.xtxTask)
    (hstart : s'.startbn = s.startbn)
    (hlisten : s'.listen = s.listen ∨ s'.listen = .stopped) : Waiting dep r pid s' := by
  have hl : ∀ l, l ≠ .stopped → s'.listen = l → s.listen = l := by
    intro l hl h
    rcases hlisten with hsame | hstop
    · exact hsame.symm.trans h
    · exact absurd (h.symm.trans hstop) hl
  refine ⟨fun h => ?_, fun k hk => ?_, fun e he => ?_, fun hand hd => ?_, ?_⟩
  · have hcreated := hl _ (by decide) h
    obtain ⟨hq, hnone, _⟩ := hw.created hcreated
    refine ⟨fun e he => hq e (hqueue e he), ?_, hno hcreated⟩
    rcases hdeal with hd | hd
    · exact hd
    · rw [hd]
      exact hnone
  · rw [hstart]
    exact hw.listening k (hl _ (by simp) hk)
  · rw [hstart]
    exact hw.queue e (hqueue e he)
  · rcases hdeal with hnone | hsame
    · rw [hnone] at hd
      cases hd
    · rw [hsame] at hd ⊢
      rw [hstart]
      exact hw.hand hand hd
  · rw [hstart]
    exact hacc

/-! ## §2. Every step. -/

omit [Sha256] [DecidableEq ι] in
/-- A query at the destination reads the greatest executed height. -/
theorem query_cached {dep : Deployment ι} {n : Net ι} {r : ι} {pid : Int} {dst : Connector}
    {link : Link} {m : Int} {c : Chain (Origin ι)} (hdst : (dep.relayer r).dst pid = some dst)
    (hclient : ClientAt dep (RelayerUnix.countedPid (dep.relayer r)) (n.chains pid))
    (hquery : dst.queryMaxXbn link (RelayerUnix.countedPid (dep.relayer r)) (n.chains dst.pid)
      = (.ok m, c)) :
    m = peak 0 (synced dep (RelayerUnix.countedPid (dep.relayer r)) (n.chains pid)) := by
  obtain ⟨hmem, hpid⟩ := dst_eq_some hdst
  rw [hpid] at hquery
  exact (Connector.queryMaxXbn_run (dep.lightclient r dst (Or.inl hmem)) hclient.installed
    hquery).2 m _ rfl hclient.headers

theorem step_cached {dep : Deployment ι} {n n' : Net ι} {a : Action ι} {r : ι} {pid : Int}
    (hclient : ClientAt dep (RelayerUnix.countedPid (dep.relayer r)) (n.chains pid))
    (hc : Cached dep r (n.spot r pid)) (h : step dep n a = some n') :
    Cached dep r (n'.spot r pid) := by
  have hspot := step_spot h r pid
  have hgrow : peak 0 (synced dep (RelayerUnix.countedPid (dep.relayer r)) (n.chains pid))
      ≤ peak 0 (synced dep (RelayerUnix.countedPid (dep.relayer r)) (n'.spot r pid).chain) :=
    synced_effect (step_chain h pid)
  have hkeep : (n'.spot r pid).tools.xtxTask.syncedHeight
      = (n.dst r pid).xtxTask.syncedHeight → Cached dep r (n'.spot r pid) := by
    intro hsame
    rw [Cached, hsame]
    exact le_trans hc hgrow
  generalize n'.spot r pid = s' at hspot hgrow hkeep ⊢
  cases hspot with
  | block hk hfetch hfilter =>
      obtain ⟨hs, fs, hds, _⟩ := (RelayerUnix.filterBlock_run hfilter pid).queues
      refine hkeep ?_
      dsimp only
      rw [hds]
      rfl
  | dealHeader haction hdst halive hround =>
      cases hround with
      | stop => exact hkeep rfl
      | sent => exact hkeep rfl
      | failed => exact hkeep rfl
  | takeXtx hdst halive hnone hround =>
      cases hround with
      | stop => exact hkeep rfl
      | taken => exact hkeep rfl
      | failed => exact hkeep rfl
  | advance haction hdst halive hdeal hround =>
      cases hround with
      | dstQuery hwait hlt hquery =>
          rw [Cached]
          refine le_trans (le_of_eq ?_) hgrow
          exact query_cached hdst hclient hquery
      | interQuery => exact hkeep rfl
      | interDone => exact hkeep rfl
      | csQuery => exact hkeep rfl
      | csCached => exact hkeep rfl
      | dstDone => exact hkeep rfl
      | layer1Skip => exact hkeep rfl
      | layer1Sent => exact hkeep rfl
      | sent => exact hkeep rfl
      | dead => exact hkeep rfl
      | deadQuery => exact hkeep rfl
      | deadLayer1 => exact hkeep rfl
      | deadSent => exact hkeep rfl
  | elsewhere => exact hkeep rfl
  | started => exact hkeep rfl
  | retry => exact hkeep rfl
  | stopListen => exact hkeep rfl
  | stopHeader => exact hkeep rfl
  | stopXtx => exact hkeep rfl

omit [Sha256] [DecidableEq ι] in
/-- What a step with a transaction in hand leaves of it, outside ToR mode. -/
theorem advance_waiting {cfg : RelayerConfig} {dst : Connector} {time put : PyFloat} {r : ι}
    {t t' : XtxTask Root} {hand hand' : Dealing Root} {cs cs' : Int → Chain (Origin ι)}
    (hmode : cfg.mode ≠ .tor)
    (h : RelayerUnix.AdvanceCase cfg dst time put (xtxTags r) t hand cs t' cs')
    (hdeal : t.dealing = some hand) (hdeal' : t'.dealing = some hand')
    (hwait : hand.wait = .dst hand.xtx.height
      ∨ hand.wait = .ready ∧ hand.xtx.height ≤ t.syncedHeight) :
    hand'.xtx = hand.xtx ∧ (hand'.wait = .dst hand'.xtx.height
      ∨ hand'.wait = .ready ∧ hand'.xtx.height ≤ t'.syncedHeight) := by
  have hwrong : ∀ w : Wait, hand.wait = w → (∀ k, w ≠ .dst k) → w ≠ .ready → False := by
    intro w hw hd hr
    rcases hwait with hdst | ⟨hready, _⟩
    · exact hd _ (hw.symm.trans hdst)
    · exact hr (hw.symm.trans hready)
  cases h with
  | dstQuery hw =>
      cases hdeal.symm.trans hdeal'
      rcases hwait with hdst | ⟨hready, _⟩
      · exact ⟨rfl, Or.inl hdst⟩
      · rw [hw] at hready
        cases hready
  | @dstDone height hw hge =>
      cases hdeal'
      rcases hwait with hdst | ⟨hready, _⟩
      · rw [hw] at hdst
        cases hdst
        exact ⟨rfl, Or.inr ⟨if_neg hmode, hge⟩⟩
      · rw [hw] at hready
        cases hready
  | sent => cases hdeal'
  | dead => cases hdeal'
  | deadQuery => cases hdeal'
  | deadLayer1 => cases hdeal'
  | deadSent => cases hdeal'
  | interQuery hw => exact (hwrong _ hw (by simp) (by simp)).elim
  | interDone hw => exact (hwrong _ hw (by simp) (by simp)).elim
  | csQuery hw => exact (hwrong _ hw (by simp) (by simp)).elim
  | csCached hw => exact (hwrong _ hw (by simp) (by simp)).elim
  | layer1Skip hw => exact (hwrong _ hw (by simp) (by simp)).elim
  | layer1Sent hw => exact (hwrong _ hw (by simp) (by simp)).elim

theorem step_waiting {dep : Deployment ι} {n n' : Net ι} {a : Action ι} {r : ι} {pid : Int}
    (hmode : (dep.relayer r).mode ≠ .tor) (hn : NetOk dep n)
    (hcached : Cached dep r (n.spot r pid)) (hw : Waiting dep r pid (n.spot r pid))
    (h : step dep n a = some n') : Waiting dep r pid (n'.spot r pid) := by
  have hspot := step_spot h r pid
  have hcount := countedPid_src hmode
  have hgrow : peak 0 (synced dep (dep.relayer r).src.pid (n.chains pid))
      ≤ peak 0 (synced dep (dep.relayer r).src.pid (n'.spot r pid).chain) :=
    synced_effect (step_chain h pid)
  have hpeak : (n.dst r pid).xtxTask.syncedHeight
      ≤ peak 0 (synced dep (dep.relayer r).src.pid (n.chains pid)) := hcount ▸ hcached
  -- whatever is accepted from this relayer was ready, so its height was counted
  have haccepted : ∀ e ∈ (n'.spot r pid).chain.accepted, ∀ h root, e.1 = .xtx r h root →
      Taken (n.relayers r).startbn h
        ∧ h ≤ peak 0 (synced dep (dep.relayer r).src.pid (n'.spot r pid).chain) := by
    intro e he k root htag
    rcases accepted_xtx (step_chain h pid) e he k root htag with hold | ⟨hand, hdeal, hready, rfl⟩
    · obtain ⟨htaken, hle⟩ := hw.accepted e hold k root htag
      exact ⟨htaken, hle.trans hgrow⟩
    · obtain ⟨htaken, hwait⟩ := hw.hand hand hdeal
      refine ⟨htaken, ?_⟩
      rcases hwait with hdst | ⟨_, hle⟩
      · rw [hready] at hdst
        cases hdst
      · exact (le_trans hle hpeak).trans hgrow
  have hno : (n.relayers r).listen = .created →
      ∀ e ∈ (n'.spot r pid).chain.accepted, ∀ h root, e.1 ≠ .xtx r h root := by
    intro hcreated e he k root htag
    obtain ⟨_, hnone, hno⟩ := hw.created hcreated
    rcases accepted_xtx (step_chain h pid) e he k root htag with hold | ⟨hand, hdeal, _⟩
    · exact hno e hold k root htag
    · have hnone' : (n.dst r pid).xtxTask.dealing = none := hnone
      rw [hnone'] at hdeal
      cases hdeal
  generalize n'.spot r pid = s' at hspot haccepted hno ⊢
  cases hspot with
  | elsewhere => exact hw.keep haccepted hno (fun e he => he) (Or.inr rfl) rfl (Or.inl rfl)
  | stopListen => exact hw.keep haccepted hno (fun e he => he) (Or.inr rfl) rfl (Or.inr rfl)
  | stopHeader => exact hw.keep haccepted hno (fun e he => he) (Or.inr rfl) rfl (Or.inl rfl)
  | stopXtx =>
      refine hw.keep haccepted hno (fun e he => ?_) (Or.inr rfl) rfl (Or.inl rfl)
      rcases List.mem_append.mp he with hin | hnew
      · exact hin
      · cases List.mem_singleton.mp hnew
  | dealHeader haction hdst halive hround =>
      cases hround with
      | stop => exact hw.keep haccepted hno (fun e he => he) (Or.inr rfl) rfl (Or.inl rfl)
      | sent => exact hw.keep haccepted hno (fun e he => he) (Or.inr rfl) rfl (Or.inl rfl)
      | failed => exact hw.keep haccepted hno (fun e he => he) (Or.inr rfl) rfl (Or.inl rfl)
  | @retry k e hk =>
      have hlisten := RelayerUnix.afterError_cases k e
      rw [← hk] at hlisten
      exact hw.keep haccepted hno (fun e he => he) (Or.inr rfl) rfl hlisten
  | started hcreated hstart =>
      obtain ⟨hq, hnone, hnever⟩ := hw.created hcreated
      rcases hstart with ⟨rfl, rfl⟩ | ⟨rfl, rfl⟩
      · exact hw.keep haccepted hno (fun e he => he) (Or.inr rfl) rfl (Or.inr rfl)
      · refine ⟨(fun hl => nomatch hl), fun k hk => ?_, fun e he => absurd he (hq e),
          fun hand hd => ?_, fun e he k root htag => absurd htag (hnever e he k root)⟩
        · cases hk
          exact le_refl _
        · have hnone' : (n.dst r pid).xtxTask.dealing = none := hnone
          rw [show (n.dst r pid).xtxTask.dealing = some hand from hd] at hnone'
          cases hnone'
  | @block k time block header res ds hk hfetch hfilter =>
      obtain ⟨hs, fs, hds, _, hpre, _⟩ := (RelayerUnix.filterBlock_run hfilter pid).queues
      have hle : (n.relayers r).startbn ≤ k := hw.listening k hk
      have htask : (ds pid).xtxTask = (n.dst r pid).xtxTask := by
        rw [hds]
        rfl
      refine ⟨fun hl => absurd hl (listenAfter_ne_created k res), fun j hj => ?_, fun e he => ?_,
        fun hand hd => ?_, haccepted⟩
      · cases res with
        | ok m =>
            cases hj
            exact hle.trans (by omega)
        | error e =>
            rcases RelayerUnix.afterError_cases k e with hafter | hafter
            · dsimp only [listenAfter] at hj
              rw [hafter] at hj
              cases hj
              exact hle
            · dsimp only [listenAfter] at hj
              rw [hafter] at hj
              cases hj
      · dsimp only at he
        rw [hds] at he
        rcases List.mem_append.mp he with hin | hnew
        · exact hw.queue e hin
        · obtain ⟨e', he', heq⟩ := List.mem_map.mp hnew
          cases heq
          obtain ⟨h1, hheight⟩ := forwards_height hn hk hfetch (hpre.subset he')
          exact ⟨by omega, by rw [hheight]; exact hle⟩
      · dsimp only at hd ⊢
        rw [htask] at hd ⊢
        exact hw.hand hand hd
  | @takeXtx dst d hdst halive hnone hround =>
      have hcons : ∀ {x : Option (Root × Transaction)} {rest : List (Option (Root × Transaction))},
          (n.dst r pid).queueXtx = x :: rest → ∀ e, some e ∈ rest →
          some e ∈ (n.dst r pid).queueXtx := by
        intro x rest hq e he
        rw [hq]
        exact List.mem_cons_of_mem _ he
      cases hround with
      | stop hq => exact hw.keep haccepted hno (hcons hq) (Or.inl hnone) rfl (Or.inl rfl)
      | failed hq => exact hw.keep haccepted hno (hcons hq) (Or.inl hnone) rfl (Or.inl rfl)
      | @taken tag xtx rest hand hq hprep =>
          have hhead : some (tag, xtx) ∈ (n.dst r pid).queueXtx := by
            rw [hq]
            exact List.mem_cons_self
          refine ⟨fun hl => ?_, hw.listening, fun e he => hw.queue e (hcons hq e he),
            fun hand' hd => ?_, haccepted⟩
          · exact absurd hhead ((hw.created hl).1 _)
          · cases hd
            have htaken := hw.queue _ hhead
            have hwait : hand.wait = .dst xtx.height := by
              have hfirst := hprep.wait
              unfold RelayerUnix.firstWait at hfirst
              cases hm : (dep.relayer r).mode with
              | tor => exact absurd hm hmode
              | nor =>
                  rw [hm] at hfirst
                  exact (Except.ok.inj hfirst).symm
              | aor =>
                  rw [hm] at hfirst
                  exact (Except.ok.inj hfirst).symm
            rw [hprep.xtx_eq]
            exact ⟨htaken, Or.inl hwait⟩
  | advance haction hdst halive hdeal hround =>
      refine ⟨fun hl => ?_, hw.listening, hw.queue, fun hand' hd => ?_, haccepted⟩
      · have hnone : (n.dst r pid).xtxTask.dealing = none := (hw.created hl).2.1
        rw [hnone] at hdeal
        cases hdeal
      · obtain ⟨htaken, hwait⟩ := hw.hand _ hdeal
        obtain ⟨hxtx, hwait'⟩ := advance_waiting hmode hround hdeal hd hwait
        exact ⟨hxtx ▸ htaken, hwait'⟩

/-! ## §3. Every run. -/

/-- The header of chain `p` at height `h` is in the store of the chain. -/
def HasHeader (p h : Int) (c : Chain (Origin ι)) : Prop :=
  hasHeader c.store (.int p) (.int h) = true

/-- **What holds of a relayer and one of its destinations in every run.** -/
structure WaitInv (dep : Deployment ι) (r : ι) (pid : Int) (n : Net ι) : Prop where
  net : NetOk dep n
  client : ClientAt dep (dep.relayer r).src.pid (n.chains pid)
  climbing : Climbing dep r pid (n.spot r pid)
  cached : Cached dep r (n.spot r pid)
  waiting : Waiting dep r pid (n.spot r pid)

theorem step_waitInv {dep : Deployment ι} {n n' : Net ι} {a : Action ι} {r : ι} {pid : Int}
    (hmode : (dep.relayer r).mode ≠ .tor) (hwriter : OnlyWriter dep r pid)
    (hi : WaitInv dep r pid n) (halone : OthersLeaveAlone (dep.relayer r).src.pid pid n a)
    (h : step dep n a = some n') : WaitInv dep r pid n' where
  net := step_netOk hi.net h
  client := net_clientAt hi.net hi.client halone h
  climbing := step_climbing hi.net hwriter hi.climbing h
  cached := step_cached ((countedPid_src hmode).symm ▸ hi.client) hi.cached h
  waiting := step_waiting hmode hi.net hi.cached hi.waiting h

omit [Contracts] [Sha256] [DecidableEq ι] in
/-- Nothing was accepted but what clients submitted. -/
theorem fresh_done {c : Chain (Origin ι)} (hfresh : Chain.Fresh c)
    (hclients : ∀ e ∈ c.accepted, e.1 = .client) :
    c.done = [] ∧ ∀ e ∈ c.waiting, e.1 = some .client := by
  obtain ⟨hdone, hwaiting⟩ := hfresh.queues
  refine ⟨hdone, fun e he => ?_⟩
  rw [hwaiting] at he
  obtain ⟨x, hx, rfl⟩ := List.mem_map.mp he
  exact congrArg some (hclients x (hfresh.accepted ▸ hx))

omit [DecidableEq ι] in
theorem Started.waitInv {dep : Deployment ι} {r : ι} {pid : Int} {n : Net ι} (h : Started n)
    (hinst : Executor.Installed (n.chains pid).store)
    (hnone : ∀ k : Int, 0 ≤ k → (n.chains pid).store.get
      (headerKey (.int (dep.relayer r).src.pid) (.int k)) = none) :
    WaitInv dep r pid n := by
  obtain ⟨hdone, hwaiting⟩ := fresh_done (h.fresh pid) (h.clients pid)
  have hsynced : synced dep (dep.relayer r).src.pid (n.chains pid) = [] := by
    rw [synced, hdone]
    rfl
  have hsent : sent dep (dep.relayer r).src.pid (n.chains pid) = [] := by
    rw [sent_eq, hsynced, List.nil_append, headersOf, List.filterMap_eq_nil_iff]
    intro e he
    rw [hwaiting e he]
    rfl
  have htools : n.dst r pid = {} := by
    rw [dst, h.relayers r]
  have hrelayer : n.relayers r = {} := h.relayers r
  refine ⟨h.netOk dep, ⟨hinst, hsynced ▸ headersAt_nil hnone⟩, ?_, ?_, ?_⟩
  · refine ⟨fun _ => ⟨hsent, ?_⟩, ?_, fun _ => ?_, fun _ _ k hk => ?_⟩
    · show queued (n.dst r pid) = []
      rw [htools]
      rfl
    · show Ladder _ (sent dep _ (n.chains pid))
      rw [hsent]
      exact ladder_nil _
    · show Ladder _ (sent dep _ (n.chains pid) ++ queued (n.dst r pid))
      rw [hsent, htools]
      exact ladder_nil _
    · have hlisten : (n.relayers r).listen = .listening k := hk
      rw [hrelayer] at hlisten
      cases hlisten
  · show (n.dst r pid).xtxTask.syncedHeight ≤ _
    rw [htools]
    exact le_peak _ 0
  · have hqueue : (n.dst r pid).queueXtx = [] := by rw [htools]
    have hdeal : (n.dst r pid).xtxTask.dealing = none := by rw [htools]
    have hclient : ∀ e ∈ (n.chains pid).accepted, ∀ k root, e.1 ≠ .xtx r k root := by
      intro e he k root htag
      rw [h.clients pid e he] at htag
      cases htag
    refine ⟨fun _ => ⟨fun e he => ?_, hdeal, hclient⟩, fun k hk => ?_, fun e he => ?_,
      fun hand hd => ?_, fun e he k root htag => absurd htag (hclient e he k root)⟩
    · rw [show (n.spot r pid).tools.queueXtx = [] from hqueue] at he
      cases he
    · have hlisten : (n.relayers r).listen = .listening k := hk
      rw [hrelayer] at hlisten
      cases hlisten
    · rw [show (n.spot r pid).tools.queueXtx = [] from hqueue] at he
      cases he
    · rw [show (n.spot r pid).tools.xtxTask.dealing = none from hdeal] at hd
      cases hd

theorem run_waitInv {dep : Deployment ι} {n n' : Net ι} {acts : List (Action ι)} {r : ι}
    {pid : Int} (hmode : (dep.relayer r).mode ≠ .tor) (hwriter : OnlyWriter dep r pid)
    (halone : Along (step dep) (OthersLeaveAlone (dep.relayer r).src.pid pid) n acts)
    (h : runFrom (step dep) n acts = some n') (hi : WaitInv dep r pid n) : WaitInv dep r pid n' :=
  run_invariant_along (fun _ _ _ hi ha hs => step_waitInv hmode hwriter hi ha hs) acts halone h hi

omit [DecidableEq ι] in
/-- Up to the greatest synchronised height, no header of a taken block is missing. -/
theorem WaitInv.hasHeader {dep : Deployment ι} {r : ι} {pid : Int} {n : Net ι}
    (hi : WaitInv dep r pid n) {h : Int} (htaken : Taken (n.relayers r).startbn h)
    (hpeak : h ≤ peak 0 (synced dep (dep.relayer r).src.pid (n.chains pid))) :
    HasHeader (dep.relayer r).src.pid h (n.chains pid) := by
  obtain ⟨hpos, hstart⟩ := htaken
  rw [HasHeader, hi.client.headers.entries h (by omega)]
  exact hi.climbing.mem_synced hstart (by omega) hpeak

omit [DecidableEq ι] in
/-- The counter can stand for a header. -/
theorem WaitInv.maxn {dep : Deployment ι} {r : ι} {pid : Int} {n : Net ι}
    (hi : WaitInv dep r pid n) {h m : Int} (htaken : Taken (n.relayers r).startbn h)
    (hquery : queryHeaderMaxn (n.chains pid).store (.int (dep.relayer r).src.pid)
      = .ok (.str (toString m))) (hle : h ≤ m) :
    HasHeader (dep.relayer r).src.pid h (n.chains pid) := by
  have hread := hi.client.headers.counter_read
  rw [queryHeaderMaxn] at hquery
  rw [Json.str.inj (Except.ok.inj hquery), intOfStr_toString] at hread
  exact hi.hasHeader htaken (Except.ok.inj hread ▸ hle)

omit [DecidableEq ι] in
/-- What is ready to be sent finds its header. -/
theorem WaitInv.ready {dep : Deployment ι} {r : ι} {pid : Int} {n : Net ι}
    (hmode : (dep.relayer r).mode ≠ .tor) (hi : WaitInv dep r pid n) {hand : Dealing Root}
    (hdeal : (n.dst r pid).xtxTask.dealing = some hand) (hready : hand.wait = .ready) :
    HasHeader (dep.relayer r).src.pid hand.xtx.height (n.chains pid) := by
  obtain ⟨htaken, hwait⟩ := hi.waiting.hand hand hdeal
  rcases hwait with hdst | ⟨_, hle⟩
  · rw [hready] at hdst
    cases hdst
  · have hcached := hi.cached
    rw [Cached, countedPid_src hmode] at hcached
    exact hi.hasHeader htaken (le_trans hle hcached)

omit [DecidableEq ι] in
/-- What was accepted finds its header, now and whenever it is executed. -/
theorem WaitInv.accepted {dep : Deployment ι} {r : ι} {pid : Int} {n : Net ι}
    (hi : WaitInv dep r pid n) {e : Origin ι × Transaction} (he : e ∈ (n.chains pid).accepted)
    {h : Int} {root : Root} (htag : e.1 = .xtx r h root) :
    HasHeader (dep.relayer r).src.pid h (n.chains pid) := by
  obtain ⟨htaken, hle⟩ := hi.waiting.accepted e he h root htag
  exact hi.hasHeader htaken hle

omit [DecidableEq ι] in
/-- An execution with the header there does not miss it. -/
theorem executeTx_finds {p h : Int} {c : Chain (Origin ι)} {pr : Proposal (Origin ι)}
    {tx : Transaction} {t state : String} (hinst : Executor.Installed c.store)
    (hhas : HasHeader p h c) (hto : tx.to_ = .str "lightclient")
    (hdata : tx.data = .str (CtrLightClient.request .validateState
      [.int p, .str t, .int h, .str state])) :
    ∃ resp, (Executor.executeTx ⟨some pr.block⟩ pr.height pr.done.length tx c.store).1 = .ok resp
      ∧ resp ≠ Response.new 0 (.str (noHeader (.int p) (.int h))) := by
  rw [Executor.executeTx_request hinst (by simp [Json.wf]) _ _ _ hto hdata]
  refine ⟨_, rfl, ?_⟩
  cases hcall : (validateState (.int p) (.str t) (.int h) (.str state) c.store).1 with
  | ok out =>
      rw [call, hcall]
      intro heq
      have hcode := congrArg Response.code heq
      simp at hcode
  | error e =>
      rw [call, hcall]
      intro heq
      exact validateState_error hhas hcall (Json.str.inj (congrArg Response.out heq))

/-- **A state is sent only when its header is there.**  In NoR and AoR mode, at a
destination that starts without headers of the source and gets them from this
relayer only: whatever `deal_xtx` is about to send and whatever it has sent finds
its header, a greatest height `h` at least stands for the header of `h`, and no
execution fails for want of the header. -/
theorem validate_finds_header {dep : Deployment ι} {n0 n : Net ι} {acts : List (Action ι)} {r : ι}
    {pid : Int} (hmode : (dep.relayer r).mode ≠ .tor) (h0 : Started n0)
    (hinst : Executor.Installed (n0.chains pid).store)
    (hnone : ∀ k : Int, 0 ≤ k → (n0.chains pid).store.get
      (headerKey (.int (dep.relayer r).src.pid) (.int k)) = none)
    (hwriter : OnlyWriter dep r pid) (hrun : runFrom (step dep) n0 acts = some n)
    (halone : Along (step dep) (OthersLeaveAlone (dep.relayer r).src.pid pid) n0 acts) :
    (∀ hand, (n.dst r pid).xtxTask.dealing = some hand → hand.wait = .ready →
        HandOk (dep.relayer r) hand
          ∧ HasHeader (dep.relayer r).src.pid hand.xtx.height (n.chains pid))
      ∧ (∀ e ∈ (n.chains pid).accepted, ∀ h root, e.1 = .xtx r h root →
          Typed dep pid (.xtx r h root) e.2.kept
            ∧ HasHeader (dep.relayer r).src.pid h (n.chains pid))
      ∧ (∀ h m, Taken (n.relayers r).startbn h →
          queryHeaderMaxn (n.chains pid).store (.int (dep.relayer r).src.pid)
            = .ok (.str (toString m)) →
          h ≤ m → HasHeader (dep.relayer r).src.pid h (n.chains pid))
      ∧ (∀ pr h root tx rest, (n.chains pid).phase = .executing pr →
          pr.rest = (some (.xtx r h root), tx) :: rest →
          ∃ resp, (Executor.executeTx ⟨some pr.block⟩ pr.height pr.done.length tx
              (n.chains pid).store).1 = .ok resp
            ∧ resp ≠ Response.new 0 (.str (noHeader (.int (dep.relayer r).src.pid) (.int h)))) := by
  have hi := run_waitInv hmode hwriter halone hrun (h0.waitInv hinst hnone)
  refine ⟨fun hand hdeal hready => ⟨hi.net.hands r pid hand hdeal, hi.ready hmode hdeal hready⟩,
    fun e he h root htag => ⟨htag ▸ hi.net.accepted pid e he, hi.accepted he htag⟩,
    fun h m htaken hquery hle => hi.maxn htaken hquery hle, ?_⟩
  intro pr h root tx rest hphase hrest
  have hmem : (some (Origin.xtx r h root), tx.kept) ∈ (n.chains pid).done ++ (n.chains pid).waiting := by
    rw [Chain.waiting_head hphase hrest]
    exact List.mem_append_right _ List.mem_cons_self
  obtain ⟨hto, t, state, hdata⟩ := typed_head (hi.net.chains pid) (hi.net.accepted pid) hmem
  have hflow := Chain.mem_tagged.mpr hmem
  rw [← (hi.net.chains pid).flow] at hflow
  obtain ⟨e, he, heq⟩ := List.mem_map.mp hflow
  exact executeTx_finds hi.client.installed (hi.accepted he (Prod.mk.inj heq).1) hto hdata

/-! ## §4. A run. -/

/-- Where clients submit nothing, there is nothing of theirs to execute. -/
theorem along_noClients {dep : Deployment ι} (p : Int) {d : Int} {acts : List (Action ι)}
    (hquiet : ∀ a ∈ acts, ∀ time tag tx, a ≠ .chain d (.submit time tag tx)) :
    ∀ {n : Net ι}, NetOk dep n → (∀ e ∈ (n.chains d).accepted, e.1 ≠ .client) →
      Along (step dep) (OthersLeaveAlone p d) n acts := by
  induction acts with
  | nil => exact fun _ _ => trivial
  | cons a acts ih =>
      intro n hn hno
      refine ⟨fun _ pr tx rest hphase hrest => ?_, fun n' h => ih
        (fun b hb => hquiet b (List.mem_cons_of_mem _ hb)) (step_netOk hn h) ?_⟩
      · have hmem : (some Origin.client, tx.kept) ∈ (n.chains d).done ++ (n.chains d).waiting := by
          rw [Chain.waiting_head hphase hrest]
          exact List.mem_append_right _ List.mem_cons_self
        have hflow := Chain.mem_tagged.mpr hmem
        rw [← (hn.chains d).flow] at hflow
        obtain ⟨e, he, heq⟩ := List.mem_map.mp hflow
        exact absurd (Prod.mk.inj heq).1 (hno e he)
      · have heff := step_chain h d
        generalize n'.chains d = c at heff ⊢
        intro e he
        cases heff with
        | own haction hclient hstep =>
            cases Chain.step_move hstep with
            | quiet _ _ _ hacc => exact hno e (hacc ▸ he)
            | generate _ _ _ _ hacc => exact hno e (hacc ▸ he)
            | execute _ _ _ _ hacc => exact hno e (hacc ▸ he)
            | crash _ _ _ _ _ hacc _ => exact hno e (hacc ▸ he)
            | accept => exact absurd haction (hquiet a List.mem_cons_self _ _ _)
        | queried hq =>
            obtain ⟨st, rfl⟩ := hq.exists_store
            exact hno e he
        | @relayed put tag tx hsend =>
            rcases Chain.submit_cases put tag (Connector.arrived tx) (n.chains d) with
              ⟨_, hacc⟩ | ⟨_, hsame⟩
            · rw [hacc] at he
              rcases List.mem_append.mp he with hold | hnew
              · exact hno e hold
              · rw [List.mem_singleton.mp hnew]
                cases hsend with
                | header => exact fun ht => nomatch ht
                | layer1 => exact fun ht => nomatch ht
                | xtx => exact fun ht => nomatch ht
            · exact hno e (hsame ▸ he)

/-- One relayer from chain `0` to chain `1`. -/
def sampleDeployment : Deployment Unit where
  chainCfg := fun _ => {}
  relayer := fun _ => Chain.sampleRelayer
  lightclient := by
    rintro r d (hd | hd)
    · rw [List.mem_singleton.mp hd]
    · cases hd

/-- A started store that knows its type. -/
def typedStore : BaseStore := Executor.startStore.set "paratype" "Ethereum"

/-- Every chain has its genesis block and its contracts. -/
def sampleNet : Net Unit where
  chains := fun _ => { store := typedStore, blocks := ⟨[Chain.genesisBlock PyFloat.zero]⟩ }
  relayers := fun _ => {}

/-- Chain `0` commits an empty block, and chain `1` executes its header. -/
def headerActions : List (Action Unit) := [
  .chain 0 (.propose PyFloat.zero (fun _ => (0, PyFloat.zero))), .chain 0 (.takeTx PyFloat.zero),
  .chain 0 (.commit PyFloat.zero),
  .start () .delivered, .listen () .delivered (fun _ => PyFloat.zero),
  .dealHeader () 1 .delivered PyFloat.zero PyFloat.zero,
  .chain 1 (.propose PyFloat.zero (fun _ => (0, PyFloat.zero))), .chain 1 (.takeTx PyFloat.zero),
  .chain 1 (.takeTx PyFloat.zero), .chain 1 .executeNext]

omit [Contracts] [Sha256] in
theorem sampleNet_started : Started sampleNet where
  fresh _ := ⟨rfl, rfl, ⟨PyFloat.zero, rfl⟩, rfl, fun h => absurd h (lt_irrefl _)⟩
  clients _ _ he := nomatch he
  relayers _ := rfl

omit [Contracts] [Sha256] in
theorem typedStore_installed : @Executor.Installed Contracts.plain typedStore := by
  show @Executor.contractAt Contracts.plain typedStore _ = _
  rfl

omit [Contracts] [Sha256] in
theorem typedStore_noHeader (p k : Json) : typedStore.get (headerKey p k) = none := by
  have hne : headerKey p k ≠ "paratype" := (headerKey_ne (by decide) p k).symm
  unfold typedStore
  rw [BaseStore.get_set_ne hne]
  exact Executor.startStore_noHeader p k

omit [Contracts] [Sha256] in
/-- The header of the block is found at chain `1` once it is executed. -/
theorem validate_finds_header_sample :
    ∃ n, runFrom (@step Unit _ Contracts.plain Sha256.plain sampleDeployment) sampleNet
        headerActions = some n
      ∧ queryHeaderMaxn (n.chains 1).store (.int 0) = .ok (.str "1")
      ∧ HasHeader 0 1 (n.chains 1) := by
  have hrun : (runFrom (@step Unit _ Contracts.plain Sha256.plain sampleDeployment) sampleNet
      headerActions).map (fun n => ((n.relayers ()).startbn,
        (n.chains 1).store.get (headerKey (.int 0) (.int 0)))) = some (1, some "1") := by
    decide +kernel
  obtain ⟨n, hn, hsee⟩ := Option.map_eq_some_iff.mp hrun
  obtain ⟨hstart, hcounter⟩ := Prod.mk.inj hsee
  have hquery : queryHeaderMaxn (n.chains 1).store (.int 0) = .ok (.str "1") := by
    rw [queryHeaderMaxn, hcounter]
    rfl
  have halone := @along_noClients Unit Contracts.plain Sha256.plain _ sampleDeployment 0 1
    headerActions (by
      intro a ha time tag tx
      simp only [headerActions, List.mem_cons, List.not_mem_nil, or_false] at ha
      rcases ha with rfl | rfl | rfl | rfl | rfl | rfl | rfl | rfl | rfl | rfl <;>
        exact fun h => nomatch h) sampleNet
    (@Started.netOk Unit Sha256.plain sampleNet sampleNet_started sampleDeployment)
    (fun e he => nomatch he)
  refine ⟨n, hn, hquery, ?_⟩
  have hfinds := @validate_finds_header Unit Contracts.plain Sha256.plain _ sampleDeployment
    sampleNet n headerActions () 1 (by decide) sampleNet_started typedStore_installed
    (fun k _ => typedStore_noHeader _ _) (fun r' hr => absurd rfl hr) hn halone
  exact hfinds.2.2.1 1 1 ⟨le_refl _, le_of_eq hstart⟩ hquery (le_refl _)

end Net

end TorSim
