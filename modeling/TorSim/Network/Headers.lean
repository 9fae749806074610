/-
  TorSim.Network.Headers — the headers of one chain on their way to another.

  The `header_sync` submissions of a relayer reach the destination in the order
  of its queue, and are executed in that order.  Together with what is still
  queued they form a ladder: the relayer takes block after block, and where it
  takes one again, or loses what is queued, it skips none.

  Main results:
    * `step_clientAt` — **the header entries of a chain are those of the executed
      submissions**.
    * `step_climbing` — **what is sent and queued is a ladder** from the first block.
    * `Climbing.mem_synced` — up to the greatest synchronised height nothing is missing.
-/
import TorSim.Network.NetLaws

namespace TorSim

open TorSim.Lib

variable {ι : Type}

namespace Net

open CtrLightClient

/-! ## §1. The headers of one chain among the transactions of another. -/

/-- The height, if the origin is a relayer of headers of chain `p`. -/
def headerOf (dep : Deployment ι) (p : Int) : Option (Origin ι) → Option Int
  | some (.header r h) => if (dep.relayer r).src.pid = p then some h else none
  | _ => none

def headersOf (dep : Deployment ι) (p : Int) (xs : List (Option (Origin ι) × Kept)) : List Int :=
  xs.filterMap (fun e => headerOf dep p e.1)

/-- The heights whose headers were executed. -/
def synced (dep : Deployment ι) (p : Int) (c : Chain (Origin ι)) : List Int :=
  headersOf dep p c.done

/-- The heights whose headers were accepted. -/
def sent (dep : Deployment ι) (p : Int) (c : Chain (Origin ι)) : List Int :=
  headersOf dep p (c.done ++ c.waiting)

theorem headersOf_append (dep : Deployment ι) (p : Int) (xs ys : List (Option (Origin ι) × Kept)) :
    headersOf dep p (xs ++ ys) = headersOf dep p xs ++ headersOf dep p ys :=
  List.filterMap_append

theorem headersOf_singleton (dep : Deployment ι) (p : Int) (e : Option (Origin ι) × Kept) :
    headersOf dep p [e] = (headerOf dep p e.1).toList := by
  rw [headersOf, List.filterMap_cons]
  cases headerOf dep p e.1 <;> rfl

theorem headersOf_generated (dep : Deployment ι) (p : Int) (gens : List Transaction) :
    headersOf dep p (gens.map (fun tx => (none, tx.kept))) = [] := by
  induction gens with
  | nil => rfl
  | cons tx gens ih => exact ih

/-- What is executed was accepted, in the same order. -/
theorem sent_eq (dep : Deployment ι) (p : Int) (c : Chain (Origin ι)) :
    sent dep p c = synced dep p c ++ headersOf dep p c.waiting :=
  headersOf_append dep p c.done c.waiting

variable [Contracts] [Sha256]

/-- A step of a chain: only a submission changes what was accepted. -/
theorem step_sent (dep : Deployment ι) (p : Int) {cfg : Config} {c c' : Chain (Origin ι)}
    {b : Chain.Action (Origin ι)} (h : Chain.step cfg c b = some c') :
    sent dep p c' = sent dep p c
      ∨ ∃ time tag tx, b = .submit time tag tx
        ∧ sent dep p c' = sent dep p c ++ (headerOf dep p (some tag)).toList
        ∧ c'.accepted = c.accepted ++ [(tag, tx)] := by
  unfold sent
  cases Chain.step_move h with
  | quiet hd hw _ _ => exact Or.inl (by rw [hd, hw])
  | @accept time tag tx _ hd hw _ hacc =>
      refine Or.inr ⟨time, tag, tx, rfl, ?_, hacc⟩
      rw [hd, hw, ← List.append_assoc, headersOf_append _ _ (_ ++ _), headersOf_singleton]
  | generate _ hd hw _ _ =>
      refine Or.inl ?_
      rw [hd, hw]
      simp only [headersOf_append, headersOf_generated, List.nil_append]
  | execute _ _ hd hw _ => exact Or.inl (by rw [hd, hw, List.append_assoc]; rfl)
  | crash _ _ _ hd hw _ _ => exact Or.inl (by rw [hd, hw])

/-- A step of a chain executes one header at most. -/
theorem step_synced (dep : Deployment ι) (p : Int) {cfg : Config} {c c' : Chain (Origin ι)}
    {b : Chain.Action (Origin ι)} (h : Chain.step cfg c b = some c') :
    synced dep p c <+: synced dep p c' := by
  unfold synced
  cases Chain.step_move h with
  | quiet hd _ _ _ =>
      simp only [hd, List.prefix_rfl]
  | accept hd _ _ _ =>
      simp only [hd, List.prefix_rfl]
  | generate _ hd _ _ _ =>
      simp only [hd, List.prefix_rfl]
  | execute _ _ hd _ _ =>
      rw [hd, headersOf_append]
      exact List.prefix_append _ _
  | crash _ _ _ hd _ _ _ =>
      simp only [hd, List.prefix_rfl]

/-! ## §2. The entries of the light client. -/

/-- The light client of chain `c` works, and its entries of chain `p` are those of
the executed headers. -/
structure ClientAt (dep : Deployment ι) (p : Int) (c : Chain (Origin ι)) : Prop where
  installed : Executor.Installed c.store
  headers : HeadersAt c.store p (synced dep p c)

/-- The transactions of clients leave the code of the light client and its entries
of chain `p` as they are. -/
def LeavesAlone (p : Int) (c : Chain (Origin ι)) : Prop :=
  ∀ (pr : Proposal (Origin ι)) (tx : Transaction) (rest : List (Option (Origin ι) × Transaction)),
    c.phase = .executing pr → pr.rest = (some .client, tx) :: rest →
      SameHeaders p c.store (c.executeNext pr (some .client) tx rest).store
        ∧ (c.executeNext pr (some .client) tx rest).store.get "lightclient"
          = c.store.get "lightclient"

omit [Sha256] in
theorem ClientAt.congr {dep : Deployment ι} {p : Int} {c c' : Chain (Origin ι)}
    (h : ClientAt dep p c) (hsame : SameHeaders p c.store c'.store)
    (hcode : c'.store.get "lightclient" = c.store.get "lightclient")
    (hdone : synced dep p c' = synced dep p c) : ClientAt dep p c' :=
  ⟨h.installed.congr hcode, hdone ▸ h.headers.congr hsame⟩

omit [Contracts] in
/-- What the executed transaction is, by its origin. -/
theorem typed_head {dep : Deployment ι} {d : Int} {c : Chain (Origin ι)}
    (hok : ChainOk (dep.chainCfg d) c) (htyped : ∀ e ∈ c.accepted, Typed dep d e.1 e.2.kept)
    {tag : Option (Origin ι)} {k : Kept} (hmem : (tag, k) ∈ c.done ++ c.waiting) :
    match tag with
    | none => Chain.Generated (dep.chainCfg d) k
    | some t => Typed dep d t k := by
  cases tag with
  | none => exact hok.untagged k hmem
  | some t =>
      have hflow := Chain.mem_tagged.mpr hmem
      rw [← hok.flow] at hflow
      obtain ⟨e, he, heq⟩ := List.mem_map.mp hflow
      obtain ⟨rfl, rfl⟩ := Prod.mk.inj heq
      exact htyped e he

/-- An execution of a request of the installed light client. -/
theorem executeNext_request {c : Chain (Origin ι)} {pr : Proposal (Origin ι)}
    (tag : Option (Origin ι)) {tx : Transaction} (rest : List (Option (Origin ι) × Transaction))
    {f : Func} {args : List Json} (hphase : c.phase = .executing pr)
    (hinst : Executor.Installed c.store) (hargs : ∀ a ∈ args, a.wf = true)
    (hto : tx.kept.to_ = .str "lightclient")
    (hdata : tx.kept.data = .str (CtrLightClient.request f args)) :
    (c.executeNext pr tag tx rest).done = c.done ++ [(tag, tx.kept)]
      ∧ (c.executeNext pr tag tx rest).store = (call ⟨some pr.block⟩ f args c.store).2 :=
  Chain.executeNext_ok tag rest hphase
    (Executor.executeTx_request hinst hargs ⟨some pr.block⟩ pr.height pr.done.length hto hdata)

/-- **An execution keeps the entries those of the executed headers.** -/
theorem executeNext_clientAt {dep : Deployment ι} {p d : Int} {c : Chain (Origin ι)}
    {pr : Proposal (Origin ι)} {tag : Option (Origin ι)} {tx : Transaction}
    {rest : List (Option (Origin ι) × Transaction)} (hok : ChainOk (dep.chainCfg d) c)
    (htyped : ∀ e ∈ c.accepted, Typed dep d e.1 e.2.kept) (hc : ClientAt dep p c)
    (halone : LeavesAlone p c) (hphase : c.phase = .executing pr)
    (hrest : pr.rest = (tag, tx) :: rest) : ClientAt dep p (c.executeNext pr tag tx rest) := by
  have hmem : (tag, tx.kept) ∈ c.done ++ c.waiting := by
    rw [Chain.waiting_head hphase hrest]
    exact List.mem_append_right _ List.mem_cons_self
  have hhead := typed_head hok htyped hmem
  -- a request that writes no header keeps the entries, and no header is added
  have hother : ∀ {f : Func} {args : List Json}, f ≠ .headerSync → (∀ a ∈ args, a.wf = true) →
      tx.kept.to_ = .str "lightclient" →
      tx.kept.data = .str (CtrLightClient.request f args) →
      headerOf dep p tag = none → ClientAt dep p (c.executeNext pr tag tx rest) := by
    intro f args hf hargs hto hdata hnone
    obtain ⟨hdone, hstore⟩ := executeNext_request tag rest hphase hc.installed
      hargs hto hdata
    refine ⟨?_, ?_⟩
    · rw [hstore]
      exact hc.installed.call _ f args
    · have hsync : synced dep p (c.executeNext pr tag tx rest) = synced dep p c := by
        unfold synced
        rw [hdone, headersOf_append, headersOf_singleton, hnone]
        exact List.append_nil _
      rw [hstore, hsync]
      exact hc.headers.congr (fun h _ => call_keeps_headers hf _ _ _ _ _)
  cases tag with
  | none =>
      obtain ⟨args, hargs, hdata⟩ := hhead.data
      exact hother (by decide) hargs hhead.to_ hdata rfl
  | some t =>
      cases t with
      | client =>
          obtain ⟨hsame, hcode⟩ := halone pr tx rest hphase hrest
          refine hc.congr hsame hcode ?_
          rcases hx : Executor.executeTx ⟨some pr.block⟩ pr.height pr.done.length tx c.store with
            ⟨e | resp, store⟩
          · rw [synced, (Chain.executeNext_error _ _ hphase hx).1, synced]
          · rw [synced, (Chain.executeNext_ok _ _ hphase hx).1, headersOf_append,
              headersOf_singleton, synced]
            exact List.append_nil _
      | layer1 r h =>
          obtain ⟨inter, state, _, hto, hdata, _⟩ := hhead
          exact hother (by decide) (by simp [Json.wf]) hto hdata rfl
      | xtx r h root =>
          obtain ⟨hto, t, state, hdata⟩ := hhead
          exact hother (by decide) (by simp [Json.wf]) hto hdata rfl
      | header r h =>
          obtain ⟨hh, _, hto, hd, hwf, hdata, _⟩ := hhead
          obtain ⟨hdone, hstore⟩ := executeNext_request (some (.header r h)) rest
            hphase hc.installed (by simp [Json.wf, hwf]) hto hdata
          refine ⟨?_, ?_⟩
          · rw [hstore]
            exact hc.installed.call _ _ _
          · have hsync : synced dep p (c.executeNext pr (some (.header r h)) tx rest)
                = synced dep p c ++ (headerOf dep p (some (.header r h))).toList := by
              unfold synced
              rw [hdone, headersOf_append, headersOf_singleton]
            rw [hstore, hsync]
            by_cases hp : (dep.relayer r).src.pid = p
            · have hheight : 1 ≤ pr.block.height := by
                obtain ⟨time, hinv⟩ := hok.inv
                have hnext := hok.proposed pr hphase
                rw [hinv.blockNum] at hnext
                show 1 ≤ pr.height
                omega
              simp only [headerOf, if_pos hp, Option.toList_some]
              rw [hp]
              exact hc.headers.sync hheight _ hh hwf
            · simp only [headerOf, if_neg hp, Option.toList_none, List.append_nil]
              exact hc.headers.congr (sync_other (Ne.symm hp) _ _ hh _ _)

/-- **The header entries of a chain are those of the executed submissions**, in
every step of the chain that leaves them to the relayers. -/
theorem step_clientAt {dep : Deployment ι} {p d : Int} {c c' : Chain (Origin ι)}
    {b : Chain.Action (Origin ι)} (hok : ChainOk (dep.chainCfg d) c)
    (htyped : ∀ e ∈ c.accepted, Typed dep d e.1 e.2.kept) (hc : ClientAt dep p c)
    (halone : b = .executeNext → LeavesAlone p c)
    (h : Chain.step (dep.chainCfg d) c b = some c') : ClientAt dep p c' := by
  by_cases hb : b = .executeNext
  · subst hb
    cases Chain.step_cases h with
    | executeNext hphase hrest =>
        exact executeNext_clientAt hok htyped hc (halone rfl) hphase hrest
  · have hsame : c'.done = c.done ∧ c'.store = c.store := by
      cases Chain.step_move h with
      | quiet hd _ hs _ => exact ⟨hd, hs⟩
      | accept hd _ hs _ => exact ⟨hd, hs⟩
      | generate _ hd _ hs _ => exact ⟨hd, hs⟩
      | execute => exact absurd rfl hb
      | crash => exact absurd rfl hb
    refine hc.congr (fun k _ => by rw [hsame.2]) (by rw [hsame.2]) ?_
    rw [synced, hsame.1, synced]

variable [DecidableEq ι]

/-- A condition on the steps of a run: whatever clients make chain `d` execute
leaves the light client's code and its entries of chain `p` as they are. -/
def OthersLeaveAlone (p d : Int) (n : Net ι) (a : Action ι) : Prop :=
  a = .chain d .executeNext → LeavesAlone p (n.chains d)

theorem net_clientAt {dep : Deployment ι} {p d : Int} {n n' : Net ι} {a : Action ι}
    (hn : NetOk dep n) (hc : ClientAt dep p (n.chains d)) (halone : OthersLeaveAlone p d n a)
    (h : step dep n a = some n') : ClientAt dep p (n'.chains d) := by
  have heff := step_chain h d
  generalize n'.chains d = c' at heff ⊢
  cases heff with
  | @own b c haction _ hstep =>
      exact step_clientAt (hn.chains d) (hn.accepted d) hc
        (fun hb => halone (by rw [haction, hb])) hstep
  | queried hq =>
      have hstore := hq.store hc.installed
      refine hc.congr (fun k _ => by rw [hstore]) (by rw [hstore]) ?_
      obtain ⟨st, hst⟩ := hq.exists_store
      rw [hst]
      rfl
  | @relayed put tag tx _ =>
      exact step_clientAt (b := .submit put tag (Connector.arrived tx)) (hn.chains d)
        (hn.accepted d) hc (fun hb => nomatch hb) rfl

/-! ## §3. What is sent and queued. -/

/-- No other relayer forwards headers of the same chain to `pid`. -/
def OnlyWriter (dep : Deployment ι) (r : ι) (pid : Int) : Prop :=
  ∀ r', r' ≠ r → (dep.relayer r').src.pid = (dep.relayer r).src.pid →
    pid ∉ RelayerUnix.headerTargets (dep.relayer r')

/-- The heights of the queued headers. -/
def queued (d : DstTool Root) : List Int := d.queueHeader.filterMap (fun x => x.map headerHeight)

/-- **What is sent and queued is a ladder** from the first block, and while
`deal_header` lives every block up to the next one is on it. -/
structure Climbing (dep : Deployment ι) (r : ι) (pid : Int) (s : Spot ι) : Prop where
  created : s.listen = .created →
    sent dep (dep.relayer r).src.pid s.chain = [] ∧ queued s.tools = []
  ladder : Ladder s.startbn (sent dep (dep.relayer r).src.pid s.chain)
  queue : s.tools.headerAlive = true →
    Ladder s.startbn (sent dep (dep.relayer r).src.pid s.chain ++ queued s.tools)
  next : s.tools.headerAlive = true → pid ∈ RelayerUnix.headerTargets (dep.relayer r) →
    ∀ k, s.listen = .listening k → s.startbn ≤ k ∧ ∀ y, s.startbn ≤ y → y < k →
      y ∈ sent dep (dep.relayer r).src.pid s.chain ++ queued s.tools

omit [Contracts] [Sha256] [DecidableEq ι] in
/-- A step that moves no header and does not listen. -/
theorem Climbing.keep {dep : Deployment ι} {r : ι} {pid : Int} {s s' : Spot ι}
    (hc : Climbing dep r pid s)
    (hsent : sent dep (dep.relayer r).src.pid s'.chain = sent dep (dep.relayer r).src.pid s.chain)
    (hqueue : queued s'.tools = queued s.tools)
    (halive : s'.tools.headerAlive = s.tools.headerAlive) (hstart : s'.startbn = s.startbn)
    (hlisten : s'.listen = s.listen ∨ s'.listen = .stopped) : Climbing dep r pid s' := by
  have hl : ∀ l, l ≠ .stopped → s'.listen = l → s.listen = l := by
    intro l hl h
    rcases hlisten with hsame | hstop
    · exact hsame.symm.trans h
    · exact absurd (h.symm.trans hstop) hl
  refine ⟨fun h => ?_, ?_, fun h => ?_, fun h ht k hk => ?_⟩
  · rw [hsent, hqueue]
    exact hc.created (hl _ (by decide) h)
  · rw [hsent, hstart]
    exact hc.ladder
  · rw [hsent, hqueue, hstart]
    exact hc.queue (halive ▸ h)
  · rw [hsent, hqueue, hstart]
    exact hc.next (halive ▸ h) ht k (hl _ (by simp) hk)

omit [DecidableEq ι] in
/-- An accepted submission is the last one sent. -/
theorem submit_sent (dep : Deployment ι) (p : Int) {time : PyFloat} {tag : Origin ι}
    {tx : Transaction} {c : Chain (Origin ι)} (h : (c.pool.putTx time tag tx).1 = .ok true) :
    sent dep p (c.submit time tag tx) = sent dep p c ++ (headerOf dep p (some tag)).toList := by
  have hacc : (c.submit time tag tx).accepted = c.accepted ++ [(tag, tx)] := by
    rcases Chain.submit_cases time tag tx c with ⟨_, hacc⟩ | ⟨hne, _⟩
    · exact hacc
    · exact absurd h hne
  unfold sent
  cases Chain.submit_move {} c time tag tx with
  | quiet _ _ _ hsame =>
      rw [hsame] at hacc
      have hlen := congrArg List.length hacc
      simp at hlen
  | accept hd hw _ _ =>
      rw [hd, hw, ← List.append_assoc, headersOf_append _ _ (_ ++ _), headersOf_singleton]

/-- No step but the relayer's own `deal_header` changes what it has sent. -/
theorem sent_effect {dep : Deployment ι} {n : Net ι} {a : Action ι} {r : ι} {pid : Int}
    {c : Chain (Origin ι)} (hn : NetOk dep n) (hw : OnlyWriter dep r pid)
    (hnot : ∀ link time put, a ≠ .dealHeader r pid link time put)
    (h : ChainEffect dep n a pid c) :
    sent dep (dep.relayer r).src.pid c = sent dep (dep.relayer r).src.pid (n.chains pid) := by
  cases h with
  | own haction hclient hstep =>
      rcases step_sent dep (dep.relayer r).src.pid hstep with
        hsame | ⟨time, tag, tx, rfl, hsent, _⟩
      · exact hsame
      · have htag : tag = .client := of_decide_eq_true hclient
        rw [hsent, htag]
        exact List.append_nil _
  | queried hq =>
      obtain ⟨st, rfl⟩ := hq.exists_store
      rfl
  | @relayed put tag tx hsend =>
      have hnone : headerOf dep (dep.relayer r).src.pid (some tag) = none := by
        cases hsend with
        | layer1 => rfl
        | xtx => rfl
        | @header r' dst link time put' header rest tx hdst hqueue htx =>
            have htarget := (hn.headers r' pid header (by rw [hqueue]; exact List.mem_cons_self)).2
            by_cases hr : r' = r
            · subst hr
              exact absurd rfl (hnot link time put')
            · exact if_neg (fun hsrc => hw r' hr hsrc htarget)
      rcases Chain.submit_cases put tag (Connector.arrived tx) (n.chains pid) with
        ⟨hput, _⟩ | ⟨_, hsame⟩
      · rw [submit_sent dep _ hput, hnone]
        exact List.append_nil _
      · rw [hsame]

omit [Contracts] [Sha256] [DecidableEq ι] in
theorem queued_pushed (d : DstTool Root) (hs : List Json) :
    (d.queueHeader ++ hs.map some).filterMap (fun x => x.map headerHeight)
      = queued d ++ hs.map headerHeight := by
  simp [queued]

omit [Contracts] [Sha256] [DecidableEq ι] in
theorem listenAfter_ne_created (k : Int) (res : Except Exn Nat) : listenAfter k res ≠ .created := by
  cases res with
  | ok m =>
      intro hl
      cases hl
  | error e =>
      rcases RelayerUnix.afterError_cases k e with he | he <;>
        (rw [listenAfter, he]; intro hl; cases hl)

omit [Contracts] [DecidableEq ι] in
/-- A block: its header is the next rung, or is on the ladder already. -/
theorem climbing_block {dep : Deployment ι} {n : Net ι} {r : ι} {pid k : Int}
    {time : Nat → PyFloat} {tag : Nat → Root} {block : Block} {header : Json}
    {res : Except Exn Nat} {ds : Int → DstTool Root} (hn : NetOk dep n)
    (hc : Climbing dep r pid (n.spot r pid)) (hk : (n.relayers r).listen = .listening k)
    (hfetch : RelayerUnix.Fetched (n.chains (dep.relayer r).src.pid) k block header)
    (hfilter : RelayerUnix.filterBlock (dep.relayer r) time tag block header (n.relayers r).dsts
      = (res, ds)) :
    Climbing dep r pid { n.spot r pid with listen := listenAfter k res, tools := ds pid } := by
  obtain ⟨hs, fs, hds, hhs, _, hfull⟩ := (RelayerUnix.filterBlock_run hfilter pid).queues
  obtain ⟨_, hinv⟩ := (hn.chains (dep.relayer r).src.pid).inv
  have hheight : headerHeight header = k := by
    rw [headerHeight, (RelayerUnix.fetched_block hinv (hn.listening r k hk).1 hfetch).2.1]
  have hqueue : queued (ds pid) = queued (n.dst r pid) ++ hs.map headerHeight := by
    rw [queued, hds]
    exact queued_pushed _ hs
  have halive : (ds pid).headerAlive = (n.dst r pid).headerAlive := by
    rw [hds]
    rfl
  refine ⟨fun hl => absurd hl (listenAfter_ne_created k res), hc.ladder, fun hal => ?_,
    fun hal ht j hj => ?_⟩
  · show Ladder _ (sent dep _ (n.chains pid) ++ queued (ds pid))
    have hold := hc.queue (halive ▸ hal)
    rcases hhs with rfl | ⟨ht, rfl⟩
    · rw [hqueue, List.map_nil, List.append_nil]
      exact hold
    · rw [hqueue, List.map_singleton, hheight, ← List.append_assoc, ladder_snoc]
      exact ⟨hold, hc.next (halive ▸ hal) ht k hk⟩
  · obtain ⟨hle, hall⟩ := hc.next (halive ▸ hal) ht k hk
    show _ ≤ j ∧ ∀ y, _ ≤ y → y < j → y ∈ sent dep _ (n.chains pid) ++ queued (ds pid)
    rw [hqueue, ← List.append_assoc]
    cases res with
    | ok m =>
        cases hj
        rw [(hfull ⟨m, rfl⟩).1 ht, List.map_singleton, hheight]
        refine ⟨hle.trans (by omega), fun y h1 h2 => ?_⟩
        rcases lt_or_eq_of_le (Int.lt_add_one_iff.mp h2) with hlt | rfl
        · exact List.mem_append_left _ (hall y h1 hlt)
        · exact List.mem_append_right _ List.mem_cons_self
    | error e =>
        rcases RelayerUnix.afterError_cases k e with he | he
        · obtain rfl : k = j := by
            dsimp only [listenAfter] at hj
            rw [he] at hj
            exact Listen.listening.inj hj
          exact ⟨hle, fun y h1 h2 => List.mem_append_left _ (hall y h1 h2)⟩
        · dsimp only [listenAfter] at hj
          rw [he] at hj
          cases hj

omit [DecidableEq ι] in
/-- A round of `deal_header`: the first queued header is the next one sent, or the
task is dead and what was sent is a part of the ladder. -/
theorem climbing_dealHeader {dep : Deployment ι} {n : Net ι} {r : ι} {pid : Int}
    {dst : Connector} {time put : PyFloat} {d : DstTool Root} {c : Chain (Origin ι)}
    (hc : Climbing dep r pid (n.spot r pid)) (halive : (n.dst r pid).headerAlive = true)
    (hround : RelayerUnix.HeaderCase (dep.relayer r) dst time put
      (fun header => .header r (headerHeight header)) (n.dst r pid) (n.chains pid) d c) :
    Climbing dep r pid { n.spot r pid with tools := d, chain := c } := by
  have hladder : Ladder (n.relayers r).startbn
      (sent dep (dep.relayer r).src.pid (n.chains pid) ++ queued (n.dst r pid)) := hc.queue halive
  have hcreated : (n.relayers r).listen = .created →
      sent dep (dep.relayer r).src.pid (n.chains pid) = [] ∧ queued (n.dst r pid) = [] := hc.created
  -- what an accepted header adds to what is sent
  have haccepted : ∀ {header : Json} {tx : Transaction},
      ((n.chains pid).pool.putTx put (.header r (headerHeight header)) tx).1 = .ok true →
      sent dep (dep.relayer r).src.pid
          ((n.chains pid).submit put (.header r (headerHeight header)) tx)
        = sent dep (dep.relayer r).src.pid (n.chains pid) ++ [headerHeight header] := by
    intro header tx hput
    rw [submit_sent dep _ hput, headerOf, if_pos rfl]
    rfl
  have hsome : ∀ {header : Json} {rest : List (Option Json)},
      (n.dst r pid).queueHeader = some header :: rest →
      queued (n.dst r pid) = headerHeight header :: rest.filterMap (fun x => x.map headerHeight) := by
    intro header rest hq
    simp [queued, hq]
  cases hround with
  | @stop rest hq =>
      have hrest : queued (n.dst r pid) = rest.filterMap (fun x => x.map headerHeight) := by
        simp [queued, hq]
      refine ⟨fun hl => ?_, hc.ladder, (fun hal => nomatch hal), (fun hal => nomatch hal)⟩
      obtain ⟨hsent, hqueue⟩ := hcreated hl
      exact ⟨hsent, hrest.symm.trans hqueue⟩
  | @sent header rest tx hq htx hput =>
      have hrest := hsome hq
      have hsame : sent dep (dep.relayer r).src.pid
            ((n.chains pid).submit put (.header r (headerHeight header)) (Connector.arrived tx))
          ++ rest.filterMap (fun x => x.map headerHeight)
        = sent dep (dep.relayer r).src.pid (n.chains pid) ++ queued (n.dst r pid) := by
        rw [haccepted hput, hrest, List.append_assoc]
        rfl
      refine ⟨fun hl => ?_, ?_, fun _ => ?_, fun _ ht k hk => ?_⟩
      · rw [(hcreated hl).2] at hrest
        cases hrest
      · show Ladder _ (sent dep _ (Chain.submit _ _ _ _))
        rw [← hsame] at hladder
        exact hladder.of_append
      · show Ladder _ (sent dep _ (Chain.submit _ _ _ _) ++ queued _)
        rw [queued, hsame]
        exact hladder
      · obtain ⟨hle, hall⟩ := hc.next halive ht k hk
        refine ⟨hle, fun y h1 h2 => ?_⟩
        show y ∈ sent dep _ (Chain.submit _ _ _ _) ++ queued _
        rw [queued, hsame]
        exact hall y h1 h2
  | @failed header rest c hq hchain =>
      have hrest := hsome hq
      refine ⟨fun hl => ?_, ?_, (fun hal => nomatch hal), (fun hal => nomatch hal)⟩
      · rw [(hcreated hl).2] at hrest
        cases hrest
      · show Ladder (n.relayers r).startbn (sent dep _ c)
        rcases hchain with rfl | ⟨tx, _, rfl⟩
        · exact hc.ladder
        · rcases Chain.submit_cases put (.header r (headerHeight header)) (Connector.arrived tx)
            (n.chains pid) with ⟨hput, _⟩ | ⟨_, hsame⟩
          · rw [haccepted hput]
            rw [hrest, List.append_cons] at hladder
            exact hladder.of_append
          · rw [hsame]
            exact hc.ladder

/-- **What is sent and queued stays a ladder.** -/
theorem step_climbing {dep : Deployment ι} {n n' : Net ι} {a : Action ι} {r : ι} {pid : Int}
    (hn : NetOk dep n) (hw : OnlyWriter dep r pid) (hc : Climbing dep r pid (n.spot r pid))
    (h : step dep n a = some n') : Climbing dep r pid (n'.spot r pid) := by
  have hspot := step_spot h r pid
  have heff : ChainEffect dep n a pid (n'.spot r pid).chain := step_chain h pid
  generalize n'.spot r pid = s' at hspot heff
  cases hspot with
  | elsewhere hnot heff' =>
      refine hc.keep (sent_effect hn hw ?_ heff') rfl rfl rfl (Or.inl rfl)
      rintro link time put rfl
      exact hnot ⟨rfl, rfl⟩
  | started hcreated hstart =>
      obtain ⟨hsent, hqueue⟩ := hc.created hcreated
      rcases hstart with ⟨rfl, rfl⟩ | ⟨rfl, rfl⟩
      · exact hc.keep rfl rfl rfl rfl (Or.inr rfl)
      · refine ⟨(fun hl => nomatch hl), ?_, fun _ => ?_, fun _ _ k hk => ?_⟩
        · show Ladder _ (sent dep _ (n.spot r pid).chain)
          rw [hsent]
          exact ladder_nil _
        · show Ladder _ (sent dep _ (n.spot r pid).chain ++ queued (n.spot r pid).tools)
          rw [hsent, hqueue]
          exact ladder_nil _
        · cases hk
          exact ⟨le_refl _, fun y h1 h2 => absurd h2 (not_lt.mpr h1)⟩
  | @retry k e hk =>
      rcases RelayerUnix.afterError_cases k e with he | he
      · exact hc.keep rfl rfl rfl rfl (Or.inl (he.trans hk.symm))
      · exact hc.keep rfl rfl rfl rfl (Or.inr he)
  | stopListen => exact hc.keep rfl rfl rfl rfl (Or.inr rfl)
  | stopHeader =>
      refine hc.keep rfl ?_ rfl rfl (Or.inl rfl)
      show queued { n.dst r pid with queueHeader := (n.dst r pid).queueHeader ++ [none] } = _
      simp [queued, spot]
  | stopXtx => exact hc.keep rfl rfl rfl rfl (Or.inl rfl)
  | takeXtx hdst halive hnone hround =>
      cases hround with
      | stop => exact hc.keep rfl rfl rfl rfl (Or.inl rfl)
      | taken => exact hc.keep rfl rfl rfl rfl (Or.inl rfl)
      | failed => exact hc.keep rfl rfl rfl rfl (Or.inl rfl)
  | advance haction =>
      refine hc.keep (sent_effect hn hw ?_ heff) rfl rfl rfl (Or.inl rfl)
      intro link time put heq
      rw [haction] at heq
      cases heq
  | block hk hfetch hfilter => exact climbing_block hn hc hk hfetch hfilter
  | dealHeader haction hdst halive hround => exact climbing_dealHeader hc halive hround

omit [Contracts] [Sha256] [DecidableEq ι] in
/-- **Up to the greatest synchronised height nothing is missing.** -/
theorem Climbing.mem_synced {dep : Deployment ι} {r : ι} {pid : Int} {s : Spot ι}
    (hc : Climbing dep r pid s) {h : Int} (hstart : s.startbn ≤ h) (hpos : 0 < h)
    (hpeak : h ≤ peak 0 (synced dep (dep.relayer r).src.pid s.chain)) :
    h ∈ synced dep (dep.relayer r).src.pid s.chain := by
  have hladder := hc.ladder
  rw [sent_eq] at hladder
  exact hladder.of_append.mem_of_le_peak hstart hpos hpeak

end Net

end TorSim
