/-
  TorSim.Network.Mirrors — whose headers a light client keeps.

  A record of `header_sync` is a header and the height of the block it was executed in.
  Nothing in the light client checks either; both are right because only relayers send
  headers, and a relayer sends what it fetched.

  Main results:
    * `ExecutedIn.step` — what a block executed stays where it is.
    * `executeNext_traced` — what an execution is, with where its arguments come from.
    * `step_records` — **every step keeps the records genuine**.
    * `query_header_genuine` — so `query_header` answers with a committed header.
-/
import TorSim.Blockchain.Positions
import TorSim.Network.Provenance
import TorSim.Network.Gateways
import TorSim.Vm.LightClientTables

namespace TorSim

open TorSim.Lib

/-! ## §1. Where something was executed. -/

namespace Chain

variable {τ : Type}

/-- Block `k`, committed or in progress, executed what came under this tag. -/
inductive ExecutedIn (c : Chain τ) : Int → τ → Prop where
  | committed {i : Nat} {b : Committed τ} {s : Executed τ} {tag : τ} (hb : c.history[i]? = some b)
      (hs : s ∈ b.slots) (htag : s.tag = some tag) : ExecutedIn c ((i + 1 : Nat) : Int) tag
  | inProgress {s : Executed τ} {tag : τ} (hs : s ∈ c.inProgress) (htag : s.tag = some tag) :
      ExecutedIn c ((c.history.length + 1 : Nat) : Int) tag

theorem ExecutedIn.pos {c : Chain τ} {k : Int} {tag : τ} (h : c.ExecutedIn k tag) : 1 ≤ k := by
  cases h with
  | committed => omega
  | inProgress => omega

/-- The same blocks, and no less in progress. -/
theorem ExecutedIn.congr {c c' : Chain τ} {k : Int} {tag : τ} (h : c.ExecutedIn k tag)
    (hhistory : c'.history = c.history) (hprog : c.inProgress ⊆ c'.inProgress) :
    c'.ExecutedIn k tag := by
  cases h with
  | committed hb hs htag =>
      rw [← hhistory] at hb
      exact .committed hb hs htag
  | inProgress hs htag =>
      rw [← hhistory]
      exact .inProgress (hprog hs) htag

variable [Contracts] [Sha256]

/-- An execution adds to what is in progress. -/
theorem ExecutedIn.executeNext {c : Chain τ} {p : Proposal τ} {k : Int} {t : τ}
    (h : c.ExecutedIn k t) (hphase : c.phase = .executing p) (tag : Option τ) (tx : Transaction)
    (rest : List (Option τ × Transaction)) : (c.executeNext p tag tx rest).ExecutedIn k t := by
  apply h.congr (executeNext_keeps p tag tx rest c).1
  have hprog : c.inProgress = p.done := by simp only [Chain.inProgress, hphase]
  rw [hprog]
  unfold Chain.executeNext
  split
  next => exact List.subset_append_left _ _
  next => exact List.Subset.refl _

omit [Contracts] in
/-- A commit keeps the tags of what it commits. -/
theorem CommitStep.executedIn {c c' : Chain τ} {p : Proposal τ} {slots : List (Executed τ)}
    (h : CommitStep c c' p slots) {k : Int} {tag : τ} (hin : c.ExecutedIn k tag) :
    c'.ExecutedIn k tag := by
  have hext : c.history <+: c'.history := by
    rw [h.history]
    exact List.prefix_append _ _
  cases hin with
  | committed hb hs htag => exact .committed (getElem?_grown hext hb) hs htag
  | @inProgress s _ hs htag =>
      have hprog : c.inProgress = p.done := by simp only [inProgress, h.phase]
      rw [hprog] at hs
      obtain ⟨time, htxs⟩ := h.txs
      obtain ⟨s', hs', hto⟩ := forall₂_mem_left (commitTxs_eq_ok htxs) hs
      have hlast : c'.history[c.history.length]? = some ⟨p.committed slots, slots⟩ := by
        rw [h.history]
        exact List.getElem?_concat_length
      exact .committed hlast hs' (hto.tag.trans htag)

/-- **What a block executed stays where it is.** -/
theorem ExecutedIn.step {cfg : Config} {c c' : Chain τ} {a : Action τ} {k : Int} {tag : τ}
    (h : c.ExecutedIn k tag) (hstep : step cfg c a = some c') : c'.ExecutedIn k tag := by
  have hnone : c.inProgress = [] →
      ∀ c1 : Chain τ, c1.history = c.history → c1.ExecutedIn k tag := by
    intro hprog c1 hsame
    apply h.congr hsame
    rw [hprog]
    exact List.nil_subset _
  cases step_cases hstep with
  | submit time tag' tx =>
      apply h.congr (submit_keeps time tag' tx c).1
      unfold submit
      split <;> exact List.Subset.refl _
  | setMining => exact h.congr rfl (List.Subset.refl _)
  | setGenXtx => exact h.congr rfl (List.Subset.refl _)
  | setRunning => exact h.congr rfl (List.Subset.refl _)
  | propose hphase timestamp draws =>
      exact hnone (idle_queues hphase).2 _ (propose_keeps cfg timestamp draws c).1
  | @takeTx timestamp txs hphase time =>
      have hprog : c.inProgress = [] := by
        unfold Chain.inProgress
        rw [hphase]
      exact hnone hprog _ (takeTx_keeps cfg time _ _ c).1
  | executeNext hphase hrest => exact h.executeNext hphase _ _ _
  | @commit p hphase hrest time =>
      rcases commit_cases hphase hrest time with hhalt | ⟨slots, hcommit⟩
      · have hprog : c.inProgress = (c.halt (some p)).inProgress := by
          unfold Chain.inProgress
          rw [hphase]
          rfl
        have hsame : (c.halt (some p)).history = c.history := rfl
        rw [hhalt]
        apply h.congr hsame
        rw [← hprog]
        exact List.Subset.refl _
      · exact hcommit.executedIn h

/-- Only an execution changes the store. -/
theorem step_store {cfg : Config} {c c' : Chain τ} {a : Action τ} (ha : a ≠ .executeNext)
    (h : step cfg c a = some c') : c'.store = c.store := by
  cases step_move h with
  | quiet _ _ hstore _ => exact hstore
  | accept _ _ hstore _ => exact hstore
  | generate _ _ _ hstore _ => exact hstore
  | execute => exact absurd rfl ha
  | crash => exact absurd rfl ha

/-- What is executed is executed in the next block. -/
theorem executedIn_execute {c : Chain τ} {p : Proposal τ} {tag : τ} {tx : Transaction}
    {rest : List (Option τ × Transaction)} {resp : Response} {store : BaseStore}
    (hrow : InRow c) (hphase : c.phase = .executing p)
    (hx : Executor.executeTx ⟨some p.block⟩ p.height p.done.length tx c.store = (.ok resp, store)) :
    (c.executeNext p (some tag) tx rest).ExecutedIn p.height tag := by
  have hlength : (c.executeNext p (some tag) tx rest).history.length = c.history.length :=
    congrArg List.length (executeNext_keeps p (some tag) tx rest c).1
  rw [hrow.height hphase, ← hlength]
  unfold executeNext
  rw [hx]
  apply ExecutedIn.inProgress
  · exact List.mem_append_right _ (List.mem_singleton_self _)
  · rfl

end Chain

/-! ## §2. What an execution is. -/

variable {ι : Type}

namespace Net

open CtrLightClient

/-- A relayer brought the header of height `h` of chain `p`, and block `k` executed it. -/
def Confirmed (dep : Deployment ι) (c : Chain (Origin ι)) (p h k : Int) : Prop :=
  ∃ r, (dep.relayer r).src.pid = p ∧ c.ExecutedIn k (.header r h)

section Calls

variable [Sha256]

/-- The call of the light client that a transaction makes, by its origin. -/
inductive Calls (dep : Deployment ι) (n : Net ι) : Option (Origin ι) → Func → List Json → Prop where
  | appInit {args : List Json} (hargs : ∀ a ∈ args, a.wf = true) : Calls dep n none .appInit args
  | header {r : ι} {h : Int} {header : Json} (hh : 0 ≤ h) (hwf : header.wf = true)
      (hat : 1 ≤ h → HeaderAt (n.chains (dep.relayer r).src.pid) h header) :
      Calls dep n (some (.header r h)) .headerSync
        [.int (dep.relayer r).src.pid, .str (dep.relayer r).src.paratype, .int h, header]
  | layer1 {r : ι} {h : Int} {inter : Connector} {xtx : Transaction} {root : Root} {state : String}
      (hinter : (dep.relayer r).inter = some inter)
      (hcopy : CopyOf (n.chains (dep.relayer r).src.pid) (dep.relayer r).src.pid root xtx)
      (hstate : RelayerUnix.ProvenState xtx state) :
      Calls dep n (some (.layer1 r h)) .validateState
        [.int inter.pid, .str inter.paratype, .int h, .str state]
  | xtx {r : ι} {h : Int} {xtx : Transaction} {root : Root} {t state : String}
      (hcopy : CopyOf (n.chains (dep.relayer r).src.pid) (dep.relayer r).src.pid root xtx)
      (hheight : xtx.height = h) (hstate : RelayerUnix.ProvenState xtx state) :
      Calls dep n (some (.xtx r h root)) .validateState
        [.int (dep.relayer r).src.pid, .str t, .int h, .str state]

theorem Calls.wf {dep : Deployment ι} {n : Net ι} {tag : Option (Origin ι)} {f : Func}
    {args : List Json} (h : Calls dep n tag f args) : ∀ a ∈ args, a.wf = true := by
  cases h with
  | appInit hargs => exact hargs
  | header _ hwf _ => simp [Json.wf, hwf]
  | layer1 => simp [Json.wf]
  | xtx => simp [Json.wf]

end Calls

variable [Contracts] [Sha256] {dep : Deployment ι} {n : Net ι} {p d : Int}

/-- The execution of a call under this tag. -/
structure Executes (dep : Deployment ι) (n : Net ι) (d : Int) (pr : Proposal (Origin ι))
    (tag : Option (Origin ι)) (f : Func) (args : List Json) (c : Chain (Origin ι)) : Prop where
  calls : Calls dep n tag f args
  store : c.store = (call ⟨some pr.block⟩ f args (n.chains d).store).2
  executed : ∀ t, tag = some t → c.ExecutedIn pr.block.height t

/-- **What an execution is**: a client's transaction, or a call of the light client whose
arguments can be traced back. -/
theorem executeNext_traced (ht : Traces dep n) (hinst : Executor.Installed (n.chains d).store)
    {pr : Proposal (Origin ι)} {tag : Option (Origin ι)} {tx : Transaction}
    {rest : List (Option (Origin ι) × Transaction)} (hphase : (n.chains d).phase = .executing pr)
    (hrest : pr.rest = (tag, tx) :: rest) :
    tag = some .client ∨ ∃ f args,
      Executes dep n d pr tag f args ((n.chains d).executeNext pr tag tx rest) := by
  have hok := ht.net.chains d
  have hmem : (tag, tx.kept) ∈ (n.chains d).done ++ (n.chains d).waiting := by
    rw [Chain.waiting_head hphase hrest]
    exact List.mem_append_right _ List.mem_cons_self
  have hhead := typed_head hok (ht.net.accepted d) hmem
  obtain ⟨time, hinv⟩ := hok.inv
  have hrow : Chain.InRow (n.chains d) := ⟨⟨_, hinv⟩, hok.proposed⟩
  have hcall : ∀ {f : Func} {args : List Json}, tx.kept.to_ = .str "lightclient" →
      tx.kept.data = .str (CtrLightClient.request f args) → Calls dep n tag f args →
      Executes dep n d pr tag f args ((n.chains d).executeNext pr tag tx rest) := by
    intro f args hto hdata hcalls
    have hx : Executor.executeTx ⟨some pr.block⟩ pr.height pr.done.length tx (n.chains d).store = _ :=
      Executor.executeTx_request hinst hcalls.wf _ _ _ hto hdata
    refine ⟨hcalls, (Chain.executeNext_ok tag rest hphase hx).2, ?_⟩
    intro t ht
    subst ht
    exact Chain.executedIn_execute hrow hphase hx
  cases tag with
  | none =>
      obtain ⟨args, hargs, hdata⟩ := hhead.data
      exact Or.inr ⟨_, _, hcall hhead.to_ hdata (.appInit hargs)⟩
  | some t =>
      obtain ⟨e, he, htag, hkept⟩ := hok.exists_accepted hmem
      have htraced := ht.accepted d e he
      rw [htag, hkept] at htraced
      cases t with
      | client => exact Or.inl rfl
      | header r h =>
          obtain ⟨hh, _, hto, _⟩ := hhead
          obtain ⟨header, hwf, hat, hdata⟩ := htraced
          exact Or.inr ⟨_, _, hcall hto hdata (.header hh hwf hat)⟩
      | layer1 r h =>
          obtain ⟨_, _, _, hto, _⟩ := hhead
          obtain ⟨inter, xtx, root, state, hinter, hcopy, hstate, hdata⟩ := htraced
          exact Or.inr ⟨_, _, hcall hto hdata (.layer1 hinter hcopy hstate)⟩
      | xtx r h root =>
          obtain ⟨hto, _⟩ := hhead
          obtain ⟨xtx, state, t, hcopy, hheight, hstate, hdata⟩ := htraced
          exact Or.inr ⟨_, _, hcall hto hdata (.xtx hcopy hheight hstate)⟩

/-! ## §3. The records. -/

/-- What is kept under a header key of chain `p` at `c`: a header that `p` committed at this
height, and the block that executed it. -/
def Genuine (dep : Deployment ι) (source : Chain (Origin ι)) (p h : Int) (c : Chain (Origin ι))
    (text : String) : Prop :=
  ∃ header k, text = recordText (header, k) ∧ header.wf = true ∧ HeaderAt source h header
    ∧ Confirmed dep c p h k

/-- Every record of chain `p` at `d` is genuine. -/
def RecordsAt (dep : Deployment ι) (n : Net ι) (p d : Int) : Prop :=
  ∀ h text, 1 ≤ h → (n.chains d).store.get (headerKey (.int p) (.int h)) = some text →
    Genuine dep (n.chains p) p h (n.chains d) text

omit [Contracts] in
theorem Genuine.mono {source source' c c' : Chain (Origin ι)} {h : Int} {text : String}
    (hg : Genuine dep source p h c text) (hext : source.history <+: source'.history)
    (hin : ∀ k t, c.ExecutedIn k t → c'.ExecutedIn k t) : Genuine dep source' p h c' text := by
  obtain ⟨header, k, htext, hwf, hat, r, hsrc, hexec⟩ := hg
  exact ⟨header, k, htext, hwf, hat.mono hext, r, hsrc, hin k _ hexec⟩

/-- **An execution keeps the records genuine.** -/
theorem executeNext_records (ht : Traces dep n) (hc : ClientAt dep p (n.chains d))
    (hr : RecordsAt dep n p d) (halone : LeavesAlone p (n.chains d)) {pr : Proposal (Origin ι)}
    {tag : Option (Origin ι)} {tx : Transaction} {rest : List (Option (Origin ι) × Transaction)}
    (hphase : (n.chains d).phase = .executing pr) (hrest : pr.rest = (tag, tx) :: rest) {h : Int}
    {text : String} (hpos : 1 ≤ h)
    (hget : ((n.chains d).executeNext pr tag tx rest).store.get (headerKey (.int p) (.int h))
      = some text) :
    Genuine dep (n.chains p) p h ((n.chains d).executeNext pr tag tx rest) text := by
  have hold : ((n.chains d).executeNext pr tag tx rest).store.get (headerKey (.int p) (.int h))
      = (n.chains d).store.get (headerKey (.int p) (.int h)) →
      Genuine dep (n.chains p) p h ((n.chains d).executeNext pr tag tx rest) text := by
    intro hsame
    rw [hsame] at hget
    apply (hr h text hpos hget).mono List.prefix_rfl
    intro k t hin
    exact hin.executeNext hphase tag tx rest
  rcases executeNext_traced ht hc.installed hphase hrest with rfl | ⟨f, args, hexec⟩
  · exact hold ((halone pr tx rest hphase hrest).1 h (by omega))
  have hstore := hexec.store
  have hconfirm := hexec.executed
  cases hexec.calls with
  | @header r k header hk hwf hat =>
      have hread : call ⟨some pr.block⟩ .headerSync [.int (dep.relayer r).src.pid,
            .str (dep.relayer r).src.paratype, .int k, header] (n.chains d).store
          = headerSync ⟨some pr.block⟩ (.int (dep.relayer r).src.pid)
            (.str (dep.relayer r).src.paratype) (.int k) header (n.chains d).store := rfl
      rw [hread] at hstore
      by_cases hp : (dep.relayer r).src.pid = p
      · rw [hp] at hstore hat
        rw [headerSync_writes hc.headers.counter_read pr.block _ k header] at hstore
        have hne0 : headerKey (.int p) (.int h) ≠ headerKey (.int p) (.int 0) := by
          intro heq
          have := ((headerKey_inj (by omega) (by omega)).mp heq).2
          omega
        by_cases hkh : h = k
        · subst hkh
          rw [hstore, BaseStore.get_set_ne hne0, BaseStore.get_set_self] at hget
          exact ⟨header, pr.block.height, (Option.some.inj hget).symm, hwf, hat hpos,
            r, hp, hconfirm _ rfl⟩
        · apply hold
          have hne : headerKey (.int p) (.int h) ≠ headerKey (.int p) (.int k) := by
            intro heq
            exact hkh ((headerKey_inj (by omega) hk).mp heq).2
          rw [hstore, BaseStore.get_set_ne hne0, BaseStore.get_set_ne hne]
      · apply hold
        rw [hstore]
        exact sync_other (Ne.symm hp) _ _ hk _ _ h (by omega)
  | appInit => exact hold (by rw [hstore, call_keeps_headers (by decide)])
  | layer1 => exact hold (by rw [hstore, call_keeps_headers (by decide)])
  | xtx => exact hold (by rw [hstore, call_keeps_headers (by decide)])

variable [DecidableEq ι] {n' : Net ι} {a : Action ι}

/-- What a chain executed stays where it is, whatever happens. -/
theorem step_executedIn (h : step dep n a = some n') {q k : Int} {t : Origin ι}
    (hin : (n.chains q).ExecutedIn k t) : (n'.chains q).ExecutedIn k t := by
  refine chain_rule (fun b c hs => hin.step hs) (fun c hq => ?_) (step_chain h q)
  obtain ⟨st, rfl⟩ := hq.exists_store
  exact hin.congr rfl (List.Subset.refl _)

/-- The store of a chain changes only by an execution of its own. -/
theorem step_execution (hinst : Executor.Installed (n.chains d).store)
    (h : step dep n a = some n') :
    (n'.chains d).store = (n.chains d).store ∨ ∃ pr tag tx rest, a = .chain d .executeNext
      ∧ (n.chains d).phase = .executing pr ∧ pr.rest = (tag, tx) :: rest
      ∧ n'.chains d = (n.chains d).executeNext pr tag tx rest := by
  have heff := step_chain h d
  generalize n'.chains d = c' at heff ⊢
  cases heff with
  | @own b _ haction _ hstep =>
      by_cases hb : b = .executeNext
      · subst hb
        cases Chain.step_cases hstep with
        | executeNext hphase hrest => exact Or.inr ⟨_, _, _, _, haction, hphase, hrest, rfl⟩
      · exact Or.inl (Chain.step_store hb hstep)
  | queried hq => exact Or.inl (hq.store hinst)
  | @relayed put tag tx _ =>
      have hstep : Chain.step (dep.chainCfg d) (n.chains d) (.submit put tag (Connector.arrived tx))
          = some ((n.chains d).submit put tag (Connector.arrived tx)) := rfl
      exact Or.inl (Chain.step_store (by simp) hstep)

/-- **Every step keeps the records genuine.** -/
theorem step_records (ht : Traces dep n) (hc : ClientAt dep p (n.chains d))
    (hr : RecordsAt dep n p d) (halone : OthersLeaveAlone p d n a)
    (h : step dep n a = some n') : RecordsAt dep n' p d := by
  intro k text hpos hget
  have hext : (n.chains p).history <+: (n'.chains p).history := step_extends h p
  rcases step_execution hc.installed h with hsame | ⟨pr, tag, tx, rest, ha, hphase, hrest, hc'⟩
  · rw [hsame] at hget
    exact (hr k text hpos hget).mono hext fun _ _ hin => step_executedIn h hin
  · rw [hc'] at hget ⊢
    have hnew := executeNext_records ht hc hr (halone ha) hphase hrest hpos hget
    exact hnew.mono hext fun _ _ hin => hin

/-! ## §4. Every run. -/

/-- What holds of the headers of `p` at `d`. -/
structure MirrorInv (dep : Deployment ι) (p d : Int) (n : Net ι) : Prop where
  traces : Traces dep n
  client : ClientAt dep p (n.chains d)
  records : RecordsAt dep n p d

theorem step_mirrorInv (hi : MirrorInv dep p d n) (halone : OthersLeaveAlone p d n a)
    (h : step dep n a = some n') : MirrorInv dep p d n' where
  traces := step_traces hi.traces h
  client := net_clientAt hi.traces.net hi.client halone h
  records := step_records hi.traces hi.client hi.records halone h

omit [DecidableEq ι] in
/-- A network as it starts, with a light client without headers of `p`. -/
theorem Started.mirrorInv (h0 : Started n) (hinst : Executor.Installed (n.chains d).store)
    (hnone : ∀ k : Int, 0 ≤ k → (n.chains d).store.get (headerKey (.int p) (.int k)) = none) :
    MirrorInv dep p d n where
  traces := h0.traces
  client := by
    have hsynced : synced dep p (n.chains d) = [] := by
      have hdone : (n.chains d).done = [] := (h0.fresh d).queues.1
      rw [synced, hdone]
      rfl
    refine ⟨hinst, ?_⟩
    rw [hsynced]
    exact headersAt_nil hnone
  records := by
    intro k text hpos hget
    rw [hnone k (by omega)] at hget
    cases hget

theorem run_mirrorInv {n0 : Net ι} {acts : List (Action ι)}
    (halone : Along (step dep) (OthersLeaveAlone p d) n0 acts)
    (hrun : runFrom (step dep) n0 acts = some n) (hi : MirrorInv dep p d n0) :
    MirrorInv dep p d n :=
  run_invariant_along (fun _ _ _ hi ha hs => step_mirrorInv hi ha hs) acts halone hrun hi

/-- **`query_header` answers with a committed header.**  The light client of `d` starts
without headers of `p`, and clients write none.  Then in every run, whatever fails and in
every mode, its answer at a height is the record of the header that `p` committed at this
height, with the number of a block of `d` that executed its `header_sync`. -/
theorem query_header_genuine {n0 : Net ι} {acts : List (Action ι)} (h0 : Started n0)
    (hinst : Executor.Installed (n0.chains d).store)
    (hnone : ∀ k : Int, 0 ≤ k → (n0.chains d).store.get (headerKey (.int p) (.int k)) = none)
    (halone : Along (step dep) (OthersLeaveAlone p d) n0 acts)
    (hrun : runFrom (step dep) n0 acts = some n) {h : Int} (hpos : 1 ≤ h) {answer : Json}
    (hquery : queryHeader (n.chains d).store (.int p) (.int h) = .ok answer) :
    ∃ header k, answer = .str (recordText (header, k)) ∧ HeaderAt (n.chains p) h header
      ∧ Confirmed dep (n.chains d) p h k := by
  have hi := run_mirrorInv halone hrun (h0.mirrorInv hinst hnone)
  unfold queryHeader at hquery
  split at hquery
  next text hget =>
      cases hquery
      obtain ⟨header, k, rfl, _, hat, hconfirm⟩ := hi.records h text hpos hget
      exact ⟨header, k, rfl, hat, hconfirm⟩
  next => cases hquery

/-! ## §5. A run. -/

section Sample

omit [DecidableEq ι] [Contracts] [Sha256]

/-- Parachain `1` answers with the header of the relay chain's block. -/
theorem query_header_genuine_sample :
    ∃ n, runFrom (@step _ _ Contracts.plain Sha256.plain twoDeployment) twoNet relayActions = some n
      ∧ ∃ header k, queryHeader (n.chains 1).store (.int interPid) (.int 1)
          = .ok (.str (recordText (header, k)))
        ∧ @HeaderAt _ Sha256.plain (n.chains interPid) 1 header := by
  let _ : Contracts := Contracts.plain
  let _ : Sha256 := Sha256.plain
  obtain ⟨n, hrun, hstart, hcounter⟩ := relayActions_run
  have hlayers := run_gateways (q := 1) twoNet_started (fun c _ => typedStore_installed)
    (fun c _ s k _ => typedStore_noHeader _ _) (relayActions_apart ⟨0, by decide⟩) hrun
  obtain ⟨m, hmaxn, hbetween⟩ := headers_between hlayers.counted hlayers.climbing
  -- the counter is the height of the one header
  have hm : (1 : Int) = m := by
    have htext := Json.str.inj (Except.ok.inj (hcounter.symm.trans hmaxn))
    have hread := congrArg intOfStr htext
    rw [intOfStr_toString] at hread
    exact Except.ok.inj hread
  have hhas := (hbetween 1 (le_refl _)).mpr ⟨le_of_eq hstart, le_of_eq hm⟩
  obtain ⟨text, htext⟩ := Option.isSome_iff_exists.mp hhas
  have hquery : queryHeader (n.chains 1).store (.int interPid) (.int 1) = .ok (.str text) := by
    unfold queryHeader
    rw [show (n.chains 1).store.get (headerKey (.int interPid) (.int 1)) = some text from htext]
  have halone : Along (step twoDeployment) (OthersLeaveAlone interPid 1) twoNet relayActions :=
    along_mono (fun n a h => h.counted) relayActions (relayActions_apart ⟨0, by decide⟩)
  obtain ⟨header, k, hanswer, hat, _⟩ := query_header_genuine twoNet_started typedStore_installed
    (fun k _ => typedStore_noHeader _ _) halone hrun (le_refl _) hquery
  exact ⟨n, hrun, header, k, hquery.trans (congrArg _ hanswer), hat⟩

end Sample

end Net

end TorSim
