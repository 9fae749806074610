/-
  TorSim.Relayer.AsyncLocalHeaders — the headers a local relayer brings to its destination.

  While every header finds room in the pool, what `deal_header` has sent, has in hand and
  finds in its queue is a ladder, and the light client stores what was executed of it.  A
  header that finds no room is missing for good: the next one goes through, and `wait_header`
  looks at the greatest height only.

  Main results:
    * `step_client` — the header entries at the destination are those of the executed
      submissions.
    * `step_climbing` — **what is sent and queued is a ladder** as long as there is room.
    * `none_dropped` — **nothing is dropped exactly where every sending finds room**, and
      then the stored headers have no gap.
    * `full_pool_drops` — a pool with one place, and a gap.
-/
import TorSim.Relayer.AsyncLocalLaws

namespace TorSim

open TorSim.Lib

namespace AsyncLocalRelayer

open AsyncRelayer (putsHeader)
open BlockStorage (numbered_nil)
open CtrLightClient (HeadersAt SameHeaders hasHeader)

/-! ## §1. What the submissions carry. -/

/-- What a submission calls, by its origin. -/
def Carries (cfg : AsyncRelayerConfig) : LocalOrigin → Json × Json × Json → Prop
  | .client, _ => True
  | .header bn, body => 0 ≤ bn ∧ body.2.1 = .str "lightclient" ∧ ∃ header : Json,
      header.wf = true ∧ body.2.2 = .str (CtrLightClient.request .headerSync
        [.int cfg.src.pid, .str cfg.src.paratype, .int bn, header])
  | _, body => body.2.1 = .str "lightclient" ∧ ∃ args : List Json,
      (∀ a ∈ args, a.wf = true)
        ∧ body.2.2 = .str (CtrLightClient.request .validateState args)

/-- What holds of the chains and of what is on its way. -/
structure InOrder (cfg : AsyncRelayerConfig) (s : State) : Prop where
  chains : ∀ role, Blockchain.Numbered (s.chains role)
  flow : Blockchain.Flow (s.chains .dst)
  carries : ∀ e ∈ (s.chains .dst).accepted, Carries cfg e.1 e.2.body
  hands : ∀ d, s.xtxTask.dealing = some d → ∀ tx : Transaction, tx.kept = d.tx.kept →
    ∀ root, Carries cfg (.xtx root) tx.body
  listening : ∀ k, s.listen = .listening k → 0 ≤ k
  headers : ∀ bn header, HasHeader s bn header →
    0 ≤ bn ∧ header.getItem "height" = .ok (.int bn)

/-- Two lists with the same labels carry alike. -/
theorem carries_of_flow {cfg : AsyncRelayerConfig} {c : Blockchain LocalOrigin}
    (hflow : Blockchain.Flow c) (hc : ∀ e ∈ c.accepted, Carries cfg e.1 e.2.body)
    {e : LocalOrigin × Transaction} (he : e ∈ c.popped ∨ e ∈ c.pool.items) :
    Carries cfg e.1 e.2.body := by
  have hmem : Blockchain.label e ∈ c.accepted.map Blockchain.label := by
    rw [hflow]
    rcases he with he | he
    · exact List.mem_append_left _ (List.mem_map_of_mem he)
    · exact List.mem_append_right _ (List.mem_map_of_mem he)
  obtain ⟨e', he', heq⟩ := List.mem_map.mp hmem
  obtain ⟨htag, hbody⟩ := Prod.mk.inj heq
  rw [← htag, ← hbody]
  exact hc e' he'

/-- What was accepted of the headers was executed or waits. -/
theorem headersIn_flow {c : Blockchain LocalOrigin} (hflow : Blockchain.Flow c) :
    headersIn c.accepted = headersIn c.popped ++ headersIn c.pool.items := by
  have hlabel : ∀ xs : List (LocalOrigin × Transaction),
      headersIn xs = (xs.map Blockchain.label).filterMap (fun e => headerOf e.1) := by
    intro xs
    rw [List.filterMap_map]
    rfl
  rw [hlabel, hflow, List.filterMap_append, ← hlabel, ← hlabel]

/-! ## §2. The entries of the light client. -/

section Client

variable [Contracts] [Sha256]

/-- The light client of the destination works, and its entries of the source chain are the
first ones and those of the executed headers. -/
structure Client (cfg : AsyncRelayerConfig) (hs : List Int) (c : Blockchain LocalOrigin) :
    Prop where
  installed : Executor.Installed c.store
  entries : HeadersAt c.store cfg.src.pid (hs ++ headersIn c.popped)

omit [Sha256] in
theorem Client.congr {cfg : AsyncRelayerConfig} {hs : List Int} {c c' : Blockchain LocalOrigin}
    (h : Client cfg hs c) (hsame : SameHeaders cfg.src.pid c.store c'.store)
    (hcode : c'.store.get "lightclient" = c.store.get "lightclient")
    (hpop : headersIn c'.popped = headersIn c.popped) : Client cfg hs c' := by
  refine ⟨h.installed.congr hcode, ?_⟩
  rw [hpop]
  exact h.entries.congr hsame

/-- What a client makes the destination execute leaves the code of the light client and its
entries of the source chain as they are. -/
def LeavesAlone (ccfg : Config) (p : Int) (c : Blockchain LocalOrigin) (time : PyFloat)
    (timedOut : Bool) : Prop :=
  ∀ (block : Block) (txs : List Transaction) (tx : Transaction)
    (rest : List (LocalOrigin × Transaction)),
    c.loop = .executing block txs → c.pool.items = (.client, tx) :: rest →
      SameHeaders p c.store (c.round ccfg time timedOut block txs).store
        ∧ (c.round ccfg time timedOut block txs).store.get "lightclient"
          = c.store.get "lightclient"

/-- The store behind a request of the light client. -/
theorem store_request {st : BaseStore} (h : Executor.Installed st) {f : CtrLightClient.Func}
    {args : List Json} (hargs : ∀ a ∈ args, a.wf = true) (ctx : Context) (height idx : Int)
    {tx : Transaction} (hto : tx.to_ = .str "lightclient")
    (hdata : tx.data = .str (CtrLightClient.request f args)) :
    (Executor.executeTx ctx height idx { tx with status := .proposing } st).2
      = (CtrLightClient.call ctx f args st).2 := by
  have hrun := Executor.executeTx_request h hargs ctx height idx
    (show ({ tx with status := .proposing } : Transaction).to_ = .str "lightclient" from hto) hdata
  rw [hrun]

/-- **A round keeps the entries those of the executed headers.** -/
theorem round_client {ccfg : Config} {cfg : AsyncRelayerConfig} {hs : List Int}
    {c : Blockchain LocalOrigin} {time : PyFloat} {timedOut : Bool} {block : Block}
    {txs : List Transaction} (hflow : Blockchain.Flow c)
    (hcarries : ∀ e ∈ c.accepted, Carries cfg e.1 e.2.body) (hheight : 1 ≤ block.height)
    (hloop : c.loop = .executing block txs) (hc : Client cfg hs c)
    (halone : LeavesAlone ccfg cfg.src.pid c time timedOut) :
    Client cfg hs (c.round ccfg time timedOut block txs) := by
  cases hitems : c.pool.items with
  | nil =>
      unfold Blockchain.round
      rw [SyncMemPool.popTx_nil time hitems]
      exact hc.congr (fun _ _ => rfl) rfl rfl
  | cons e rest =>
      obtain ⟨tag, tx⟩ := e
      have ht := Blockchain.round_takes ccfg time timedOut block txs hitems
      obtain ⟨tx', hbody, hpop, hstore⟩ := ht.popped
      have hmem : (tag, tx) ∈ c.pool.items := by
        rw [hitems]
        exact List.mem_cons_self
      have hcarry : Carries cfg tag tx'.body := by
        rw [hbody]
        exact carries_of_flow hflow hcarries (Or.inr hmem)
      have hheaders : headersIn (c.round ccfg time timedOut block txs).popped
          = headersIn c.popped ++ (headerOf tag).toList := by
        rw [hpop, headersIn_append]
        show _ ++ List.filterMap _ [(tag, tx')] = _
        rw [List.filterMap_cons]
        cases headerOf tag <;> rfl
      -- a request that validates a state writes no header
      have hvalidates : ∀ args : List Json, (∀ a ∈ args, a.wf = true) →
          tx'.to_ = .str "lightclient" →
          tx'.data = .str (CtrLightClient.request .validateState args) →
          headerOf tag = none → Client cfg hs (c.round ccfg time timedOut block txs) := by
        intro args hargs hto hdata hnone
        rw [store_request hc.installed hargs _ _ _ hto hdata] at hstore
        refine ⟨?_, ?_⟩
        · rw [hstore]
          exact hc.installed.call _ _ _
        · rw [hstore, hheaders, hnone, Option.toList_none, List.append_nil]
          exact hc.entries.congr
            (fun h _ => CtrLightClient.call_keeps_headers (by decide) _ _ _ _ _)
      cases tag with
      | client =>
          obtain ⟨hsame, hcode⟩ := halone block txs tx rest hloop hitems
          refine hc.congr hsame hcode ?_
          rw [hheaders]
          exact List.append_nil _
      | layer1 n =>
          obtain ⟨hto, args, hargs, hdata⟩ := hcarry
          exact hvalidates args hargs hto hdata rfl
      | xtx root =>
          obtain ⟨hto, args, hargs, hdata⟩ := hcarry
          exact hvalidates args hargs hto hdata rfl
      | header bn =>
          obtain ⟨hbn, hto, header, hwf, hdata⟩ := hcarry
          rw [store_request hc.installed (by simp [Json.wf, hwf]) _ _ _ hto hdata] at hstore
          refine ⟨?_, ?_⟩
          · rw [hstore]
            exact hc.installed.call _ _ _
          · rw [hstore, hheaders, ← List.append_assoc]
            exact hc.entries.sync hheight _ hbn hwf

/-- A condition on the steps of a run: whatever clients make the destination execute leaves
the light client's code and its entries of the source chain as they are. -/
def OthersLeaveAlone (ccfg : Role → Config) (cfg : AsyncRelayerConfig) (s : State) :
    Action → Prop
  | .chain .dst (.round time timedOut) =>
      LeavesAlone (ccfg .dst) cfg.src.pid (s.chains .dst) time timedOut
  | _ => True

/-- They do so where nothing of theirs waits. -/
theorem othersLeaveAlone_noClient {ccfg : Role → Config} {cfg : AsyncRelayerConfig} {s : State}
    (h : ∀ e ∈ (s.chains .dst).pool.items, e.1 ≠ .client) {a : Action} :
    OthersLeaveAlone ccfg cfg s a := by
  unfold OthersLeaveAlone
  split
  · intro block txs tx rest _ hitems
    rw [hitems] at h
    exact absurd rfl (h _ List.mem_cons_self)
  · trivial

/-! ## §3. What a step does to a chain. -/

/-- What happens to one chain: a step of its own, a query, or a submission of the relayer. -/
inductive ChainEffect (ccfg : Role → Config) (cfg : AsyncRelayerConfig) (s : State)
    (a : Action) (role : Role) (c' : Blockchain LocalOrigin) : Prop where
  | own {b : Blockchain.Action LocalOrigin} (haction : a = .chain role b)
      (hclient : byClient b = true)
      (hstep : Blockchain.step (ccfg role) (s.chains role) b = some c')
  | queried (hq : AsyncLocalConnector.Queried (s.chains role) c')
  | put {put : PyFloat} {tag : LocalOrigin} {tx : Transaction} {r : Except Exn Bool}
      (hrole : role = .dst) (hcarry : Carries cfg tag tx.body)
      (hput : Blockchain.PutCase put tag tx (s.chains role) r c')

theorem ChainEffect.same (ccfg : Role → Config) (cfg : AsyncRelayerConfig) (s : State)
    (a : Action) (role : Role) : ChainEffect ccfg cfg s a role (s.chains role) :=
  .queried ⟨rfl, fun _ => rfl⟩

omit [Sha256] [Contracts] in
/-- What `deal_header` sends is what its origin says. -/
theorem carries_header {cfg : AsyncRelayerConfig} (hcfg : AsksLightClients cfg)
    {time : PyFloat} {bn : Int} {header : Json} {tx : Transaction} (hbn : 0 ≤ bn)
    (hwf : header.wf = true) (hitem : header.getItem "height" = .ok (.int bn))
    (h : headerTx cfg time header = .ok tx) : Carries cfg (.header bn) tx.body := by
  unfold headerTx at h
  rw [hitem] at h
  cases h
  refine ⟨hbn, ?_, header, hwf, rfl⟩
  show Json.str cfg.dst.to_ = _
  rw [hcfg.dst]

omit [Sha256] [Contracts] in
theorem carries_layer1 {cfg : AsyncRelayerConfig} (hcfg : AsksLightClients cfg)
    (inter : Connector) (time : PyFloat) (n : Int) (state : String) :
    Carries cfg (.layer1 n) (layer1Tx cfg inter time n state).body := by
  refine ⟨?_, _, ?_, rfl⟩
  · show Json.str cfg.dst.to_ = _
    rw [hcfg.dst]
  · simp [Json.wf]

/-- One chain after the step of another. -/
theorem setChain_effect {ccfg : Role → Config} {cfg : AsyncRelayerConfig} {s : State}
    {a : Action} {role : Role} {c : Blockchain LocalOrigin}
    (h : ChainEffect ccfg cfg s a role c) (role' : Role) :
    ChainEffect ccfg cfg s a role' (Function.update s.chains role c role') := by
  by_cases hrole : role' = role
  · subst hrole
    rw [Function.update_self]
    exact h
  · rw [Function.update_of_ne hrole]
    exact .same ccfg cfg s a role'

/-- **What a step does to a chain.** -/
theorem step_chain {ccfg : Role → Config} {cfg : AsyncRelayerConfig}
    (hcfg : AsksLightClients cfg) {s s' : State} {a : Action} (hs : Books s) (ho : InOrder cfg s)
    (h : StepCase ccfg cfg s a s') (role : Role) :
    ChainEffect ccfg cfg s a role (s'.chains role) := by
  cases h with
  | chain hclient hstep => exact setChain_effect (.own rfl hclient hstep) role
  | startFailed _ hq => exact setChain_effect (.queried hq) role
  | started _ hq _ => exact setChain_effect (.queried hq) role
  | listened => exact .same _ _ _ _ _
  | stopListen => exact .same _ _ _ _ _
  | stopHeader => exact .same _ _ _ _ _
  | stopXtx => exact .same _ _ _ _ _
  | headerSignal => exact .same _ _ _ _ _
  | headerTaken => exact .same _ _ _ _ _
  | headerUnbuilt => exact .same _ _ _ _ _
  | @headerSent time put bn header tx r c halive hhand htx hput =>
      obtain ⟨hbn, hitem⟩ := ho.headers bn header (Or.inr hhand)
      have hwf := (hs.headers bn header (Or.inr hhand)).1
      exact setChain_effect (.put rfl (carries_header hcfg hbn hwf hitem htx) hput) role
  | xtxSignal => exact .same _ _ _ _ _
  | xtxSkipped => exact .same _ _ _ _ _
  | xtxFailed => exact .same _ _ _ _ _
  | xtxTaken => exact .same _ _ _ _ _
  | @advanced time put h r cs halive hdeal hcase =>
      cases hcase with
      | waits => exact .same _ _ _ _ _
      | unmarked => exact .same _ _ _ _ _
      | broken => exact .same _ _ _ _ _
      | asked _ hq _ => exact setChain_effect (.queried hq) role
      | layer1 _ _ hput => exact setChain_effect (.put rfl (carries_layer1 hcfg _ _ _ _) hput) role
      | sent _ hmark hput =>
          have hcarry := ho.hands h hdeal _ (RelayerUnix.kept_markTx hmark) h.root
          exact setChain_effect (.put rfl hcarry hput) role

theorem ChainEffect.numbered {ccfg : Role → Config} {cfg : AsyncRelayerConfig} {s : State}
    {a : Action} {role : Role} {c' : Blockchain LocalOrigin}
    (h : ChainEffect ccfg cfg s a role c') (hc : Blockchain.Numbered (s.chains role)) :
    Blockchain.Numbered c' := by
  cases h with
  | own haction hclient hstep => exact Blockchain.step_numbered hstep hc
  | queried hq =>
      rw [hq.frame]
      exact hc.congr rfl rfl
  | put hrole hcarry hput => exact hput.numbered hc

theorem ChainEffect.flow {ccfg : Role → Config} {cfg : AsyncRelayerConfig} {s : State}
    {a : Action} {role : Role} {c' : Blockchain LocalOrigin}
    (h : ChainEffect ccfg cfg s a role c') (hc : Blockchain.Flow (s.chains role)) :
    Blockchain.Flow c' := by
  cases h with
  | own haction hclient hstep => exact Blockchain.step_flow hstep hc
  | queried hq =>
      rw [hq.frame]
      exact hc
  | put hrole hcarry hput => exact hput.flow hc

/-- What is accepted is a client's, or carries what its origin says. -/
theorem ChainEffect.carries {ccfg : Role → Config} {cfg : AsyncRelayerConfig} {s : State}
    {a : Action} {role : Role} {c' : Blockchain LocalOrigin}
    (h : ChainEffect ccfg cfg s a role c')
    (hc : ∀ e ∈ (s.chains role).accepted, Carries cfg e.1 e.2.body) :
    ∀ e ∈ c'.accepted, Carries cfg e.1 e.2.body := by
  have hlast : ∀ {put : PyFloat} {tag : LocalOrigin} {tx : Transaction} {r : Except Exn Bool}
      {c' : Blockchain LocalOrigin}, Carries cfg tag tx.body →
      Blockchain.PutCase put tag tx (s.chains role) r c' →
      ∀ e ∈ c'.accepted, Carries cfg e.1 e.2.body := by
    intro put tag tx r c' hcarry hput e he
    rcases hput.ends with ⟨_, _, hacc⟩ | ⟨_, _, rfl⟩ | ⟨_, _, rfl⟩
    · rw [hacc] at he
      rcases List.mem_append.mp he with he | he
      · exact hc e he
      · rw [List.mem_singleton.mp he]
        exact hcarry
    · exact hc e he
    · exact hc e he
  cases h with
  | own haction hclient hstep =>
      cases Blockchain.step_cases hstep with
      | @submitted time tag tx r _ hput =>
          have htag := of_decide_eq_true hclient
          subst htag
          exact hlast (show Carries cfg .client tx.body from trivial) hput
      | taken _ _ ht =>
          rw [ht.accepted]
          exact hc
      | committed _ hframe =>
          rw [hframe.accepted]
          exact hc
      | mining => exact hc
      | running => exact hc
      | proposed => exact hc
      | emptied => exact hc
  | queried hq =>
      rw [hq.frame]
      exact hc
  | put hrole hcarry hput => exact hlast hcarry hput

/-- Where `listen_block` stands after a step. -/
theorem step_listening {ccfg : Role → Config} {cfg : AsyncRelayerConfig} {s s' : State}
    {a : Action} (h : StepCase ccfg cfg s a s') {k' : Int} (hk' : s'.listen = .listening k') :
    s.listen = .listening k' ∨ s.listen = .listening (k' - 1)
      ∨ s.listen = .created ∧ ∃ maxbn c, k' = firstBlock maxbn s
        ∧ AsyncLocalConnector.queryMaxXbn cfg.dst cfg.src.pid (s.chains .dst)
          = (.ok maxbn, c) := by
  cases h with
  | started hcreated hq hmax =>
      cases hk'
      exact Or.inr (Or.inr ⟨hcreated, _, _, rfl, hmax⟩)
  | startFailed => cases hk'
  | stopListen => cases hk'
  | @listened time k l q hk hround =>
      have hafter : ∀ e, AsyncRelayer.afterError k e = .listening k' →
          s.listen = .listening k' := by
        intro e he
        rcases afterError_cases k e with hsame | hstop
        · rw [← he, hsame, hk]
        · rw [hstop] at he
          cases he
      cases hround with
      | retry e => exact Or.inl (hafter e hk')
      | @block block header res q hget hheader hput =>
          cases res with
          | error e => exact Or.inl (hafter e hk')
          | ok u =>
              cases hk'
              rw [hk, Int.add_sub_cancel]
              exact Or.inr (Or.inl rfl)
  | chain => exact Or.inl hk'
  | stopHeader => exact Or.inl hk'
  | stopXtx => exact Or.inl hk'
  | headerSignal => exact Or.inl hk'
  | headerTaken => exact Or.inl hk'
  | headerUnbuilt => exact Or.inl hk'
  | headerSent => exact Or.inl hk'
  | xtxSignal => exact Or.inl hk'
  | xtxSkipped => exact Or.inl hk'
  | xtxFailed => exact Or.inl hk'
  | xtxTaken => exact Or.inl hk'
  | advanced => exact Or.inl hk'

omit [Contracts] [Sha256] in
/-- The first block is behind the greatest synchronised one, or the latest of the source. -/
theorem firstBlock_spec {maxbn : Int} {s : State} (hmax : 0 ≤ maxbn)
    (hsrc : 0 ≤ (s.chains .src).blocks.blockNum) :
    0 ≤ firstBlock maxbn s ∧ (0 < maxbn → firstBlock maxbn s = maxbn + 1) := by
  unfold firstBlock
  split <;> omega

/-- **What is in order stays in order.** -/
theorem step_inOrder {ccfg : Role → Config} {cfg : AsyncRelayerConfig}
    (hcfg : AsksLightClients cfg) {s s' : State} {a : Action} (hs : Books s) (ho : InOrder cfg s)
    (hpeak : ∀ maxbn c, s.listen = .created →
      AsyncLocalConnector.queryMaxXbn cfg.dst cfg.src.pid (s.chains .dst) = (.ok maxbn, c) →
      0 ≤ maxbn)
    (h : StepCase ccfg cfg s a s') : InOrder cfg s' where
  chains role := (step_chain hcfg hs ho h role).numbered (ho.chains role)
  flow := (step_chain hcfg hs ho h .dst).flow ho.flow
  carries := (step_chain hcfg hs ho h .dst).carries ho.carries
  hands d' hd' tx htx root := by
    rcases step_dealing h hd' with ⟨d, w, hd, rfl⟩ | ⟨root', xtx, hprep⟩
    · exact ho.hands d hd tx htx root
    · have hto : tx.to_ = d'.tx.to_ := congrArg Kept.to_ htx
      have hdata : tx.data = d'.tx.data := congrArg Kept.data htx
      refine ⟨?_, _, ?_, hdata.trans hprep.data⟩
      · show tx.to_ = _
        rw [hto, hprep.to_, hcfg.dst]
      · simp [Json.wf]
  listening k hk := by
    rcases step_listening h hk with hold | hold | ⟨hcreated, maxbn, c, rfl, hmax⟩
    · exact ho.listening k hold
    · have hnext := ho.listening _ hold
      omega
    · exact (firstBlock_spec (hpeak maxbn c hcreated hmax) (ho.chains .src).genesis).1
  headers bn header hh := by
    rcases step_hasHeader h hh with hold | ⟨hk, block, hget, hheader⟩
    · exact ho.headers bn header hold
    · -- a block of the source chain has the height it was fetched under
      have hbn := ho.listening bn hk
      have hat := BlockStorage.getBlockByHeight_eq_some hbn hget
      have hheight : block.height = bn := by
        rw [(ho.chains .src).stored bn.toNat block hat]
        omega
      refine ⟨hbn, ?_⟩
      rw [(RelayerUnix.header_height hheader).2, hheight]

/-- **The header entries of the source chain are those of the executed headers**, after
every step that leaves them to the relayer. -/
theorem step_client {ccfg : Role → Config} {cfg : AsyncRelayerConfig} {hs : List Int}
    {s : State} {a : Action} {c' : Blockchain LocalOrigin} (ho : InOrder cfg s)
    (hc : Client cfg hs (s.chains .dst)) (halone : OthersLeaveAlone ccfg cfg s a)
    (h : ChainEffect ccfg cfg s a .dst c') : Client cfg hs c' := by
  have hput : ∀ {put : PyFloat} {tag : LocalOrigin} {tx : Transaction} {r : Except Exn Bool}
      {c' : Blockchain LocalOrigin}, Blockchain.PutCase put tag tx (s.chains .dst) r c' →
      Client cfg hs c' := by
    intro put tag tx r c' hput
    cases hput <;> exact hc.congr (fun _ _ => rfl) rfl rfl
  cases h with
  | queried hq =>
      have hstore := hq.store hc.installed
      rw [hq.frame, hstore]
      exact hc.congr (fun _ _ => rfl) rfl rfl
  | put hrole hcarry hput' => exact hput hput'
  | own haction hclient hstep =>
      subst haction
      cases Blockchain.step_cases hstep with
      | submitted hput' => exact hput hput'
      | mining => exact hc.congr (fun _ _ => rfl) rfl rfl
      | running => exact hc.congr (fun _ _ => rfl) rfl rfl
      | proposed => exact hc.congr (fun _ _ => rfl) rfl rfl
      | emptied => exact hc.congr (fun _ _ => rfl) rfl rfl
      | @taken time timedOut block txs tag tx rest _ hloop hitems ht =>
          have hnum := (ho.chains .dst).next block (Or.inl ⟨txs, hloop⟩)
          have hheight : 1 ≤ block.height := by
            have hgen := (ho.chains .dst).genesis
            unfold BlockStorage.blockNum at hgen
            omega
          have hround : c' = (s.chains .dst).round (ccfg .dst) time timedOut block txs := by
            simp only [Blockchain.step, hloop] at hstep
            exact (Option.some.inj hstep).symm
          rw [hround]
          exact round_client ho.flow ho.carries hheight hloop hc halone
      | committed hloop hframe =>
          have hsame : SameHeaders cfg.src.pid (s.chains .dst).store c'.store := by
            intro h _
            rw [hframe.store]
          refine hc.congr hsame ?_ ?_
          · rw [hframe.store]
          · rw [hframe.popped]

/-! ## §4. What is sent and queued. -/

omit [Contracts] [Sha256] in
/-- The headers that were accepted at the destination. -/
def sent (s : State) : List Int := headersIn (s.chains .dst).accepted

omit [Contracts] [Sha256] in
/-- The headers in hand and in the queue. -/
def coming (s : State) : List Int :=
  (s.headerTask.hand.map Prod.fst).toList
    ++ s.queues.header.filterMap (fun x => x.map Prod.fst)

omit [Contracts] [Sha256] in
/-- **What is sent and queued is a ladder** from the first block, and while `deal_header`
lives every block up to the next one is on it.  The first block is behind those the
destination knew, up to `b`. -/
structure Climbing (cfg : AsyncRelayerConfig) (b : Int) (s : State) : Prop where
  created : s.listen = .created → sent s = [] ∧ coming s = []
  base : (sent s ++ coming s ≠ [] ∨ ∃ k, s.listen = .listening k) →
    0 ≤ s.startbn ∧ (0 < b → s.startbn = b + 1)
  ladder : Ladder s.startbn (sent s)
  queue : s.headerTask.alive = true → Ladder s.startbn (sent s ++ coming s)
  next : s.headerTask.alive = true → putsHeader cfg = true → ∀ k, s.listen = .listening k →
    s.startbn ≤ k ∧ ∀ y, s.startbn ≤ y → y < k → y ∈ sent s ++ coming s

omit [Contracts] [Sha256] in
/-- A step that moves no header and does not listen. -/
theorem Climbing.keep {cfg : AsyncRelayerConfig} {b : Int} {s s' : State} (hc : Climbing cfg b s)
    (hsent : sent s' = sent s) (hcoming : coming s' = coming s)
    (halive : s'.headerTask.alive = true → s.headerTask.alive = true)
    (hstart : s'.startbn = s.startbn)
    (hlisten : s'.listen = s.listen ∨ s'.listen = .stopped) : Climbing cfg b s' := by
  have hl : ∀ l, l ≠ .stopped → s'.listen = l → s.listen = l := by
    intro l hl h
    rcases hlisten with hsame | hstop
    · exact hsame.symm.trans h
    · exact absurd (h.symm.trans hstop) hl
  refine ⟨fun h => ?_, fun h => ?_, ?_, fun h => ?_, fun h ht k hk => ?_⟩
  · rw [hsent, hcoming]
    exact hc.created (hl _ (by decide) h)
  · rw [hsent, hcoming] at h
    rw [hstart]
    refine hc.base (h.imp id fun hk => ?_)
    obtain ⟨k, hk⟩ := hk
    exact ⟨k, hl _ (by simp) hk⟩
  · rw [hsent, hstart]
    exact hc.ladder
  · rw [hsent, hcoming, hstart]
    exact hc.queue (halive h)
  · rw [hsent, hcoming, hstart]
    exact hc.next (halive h) ht k (hl _ (by simp) hk)

omit [Contracts] [Sha256] in
/-- A step that passes a header on, from the queue to the hand or from the hand to the pool. -/
theorem Climbing.pass {cfg : AsyncRelayerConfig} {b : Int} {s s' : State} (hc : Climbing cfg b s)
    (halive : s.headerTask.alive = true)
    (hboth : sent s' ++ coming s' = sent s ++ coming s) (hstart : s'.startbn = s.startbn)
    (hlisten : s'.listen = s.listen) : Climbing cfg b s' := by
  refine ⟨fun h => ?_, fun h => ?_, ?_, fun _ => ?_, fun _ ht k hk => ?_⟩
  · rw [hlisten] at h
    obtain ⟨hsent, hcoming⟩ := hc.created h
    rw [hsent, hcoming] at hboth
    exact List.append_eq_nil_iff.mp hboth
  · rw [hboth, hlisten] at h
    rw [hstart]
    exact hc.base h
  · have hall := hc.queue halive
    rw [← hboth] at hall
    rw [hstart]
    exact hall.of_append
  · rw [hboth, hstart]
    exact hc.queue halive
  · rw [hlisten] at hk
    rw [hboth, hstart]
    exact hc.next halive ht k hk

omit [Contracts] in
/-- A block: its header is the next rung, or is on the ladder already. -/
theorem climbing_block {cfg : AsyncRelayerConfig} {b k : Int} {s : State} {l : Listen}
    {q : Queues} (hc : Climbing cfg b s) (hk : s.listen = .listening k)
    (hround : ListenCase cfg k s.queues (s.chains .src) l q) :
    Climbing cfg b { s with listen := l, queues := q } := by
  cases hround with
  | retry e =>
      rcases afterError_cases k e with hsame | hstop
      · exact hc.keep rfl rfl id rfl (Or.inl (hsame.trans hk.symm))
      · exact hc.keep rfl rfl id rfl (Or.inr hstop)
  | @block block header res q hget hheader hput =>
      have hbase := hc.base (Or.inr ⟨k, hk⟩)
      have hcoming : coming { s with listen := listenAfter k res, queues := q }
          = coming s ++ if putsHeader cfg = true then [k] else [] := by
        show _ ++ q.header.filterMap _ = _
        rw [hput, List.filterMap_append, ← List.append_assoc]
        unfold headerPut
        cases putsHeader cfg <;> rfl
      have hcreated : listenAfter k res ≠ .created := by
        cases res with
        | ok u => simp [listenAfter]
        | error e =>
            rcases afterError_cases k e with he | he <;> (rw [listenAfter, he]; simp)
      refine ⟨fun h => absurd h hcreated, fun _ => hbase, hc.ladder, fun hal => ?_,
        fun hal ht j hj => ?_⟩
      · show Ladder s.startbn (sent s ++ coming _)
        rw [hcoming, ← List.append_assoc]
        cases ht : putsHeader cfg with
        | false =>
            rw [if_neg Bool.false_ne_true, List.append_nil]
            exact hc.queue hal
        | true =>
            rw [if_pos rfl, ladder_snoc]
            exact ⟨hc.queue hal, hc.next hal ht k hk⟩
      · obtain ⟨hle, hall⟩ := hc.next hal ht k hk
        show s.startbn ≤ j ∧ ∀ y, s.startbn ≤ y → y < j → y ∈ sent s ++ coming _
        rw [hcoming, if_pos ht, ← List.append_assoc]
        have hagain : j = k → s.startbn ≤ j ∧ ∀ y, s.startbn ≤ y → y < j →
            y ∈ sent s ++ coming s ++ [k] := by
          intro hjk
          rw [hjk]
          exact ⟨hle, fun y h1 h2 => List.mem_append_left _ (hall y h1 h2)⟩
        cases res with
        | ok u =>
            have hjk : j = k + 1 := (Listen.listening.inj hj).symm
            subst hjk
            refine ⟨by omega, fun y h1 h2 => ?_⟩
            rcases lt_or_eq_of_le (Int.lt_add_one_iff.mp h2) with hlt | rfl
            · exact List.mem_append_left _ (hall y h1 hlt)
            · exact List.mem_append_right _ List.mem_cons_self
        | error e =>
            have hj' : AsyncRelayer.afterError k e = .listening j := hj
            rcases afterError_cases k e with he | he
            · rw [he] at hj'
              exact hagain (Listen.listening.inj hj').symm
            · rw [he] at hj'
              cases hj'

/-- **What is sent and queued stays a ladder** as long as the headers find room. -/
theorem step_climbing {ccfg : Role → Config} {cfg : AsyncRelayerConfig} {b : Int}
    {s s' : State} {a : Action} (hc : Climbing cfg b s) (hroom : HeaderRoom s a)
    (hsrc : 0 ≤ (s.chains .src).blocks.blockNum) (hb : 0 ≤ b)
    (hpeak : ∀ maxbn c, s.listen = .created →
      AsyncLocalConnector.queryMaxXbn cfg.dst cfg.src.pid (s.chains .dst) = (.ok maxbn, c) →
      maxbn = b)
    (h : StepCase ccfg cfg s a s') : Climbing cfg b s' := by
  cases h with
  | @chain role a c hclient hstep =>
      exact hc.keep (chain_other hclient hstep).1 rfl id rfl (Or.inl rfl)
  | @startFailed c hcreated hq =>
      refine hc.keep ?_ rfl id rfl (Or.inr rfl)
      show headersIn ((s.setChain .dst c).chains .dst).accepted = _
      rw [setChain_self, queried_other hq]
      rfl
  | @started maxbn c hcreated hq hmax =>
      obtain rfl := hpeak maxbn c hcreated hmax
      obtain ⟨hsent, hcoming⟩ := hc.created hcreated
      have hsent' : headersIn ((s.setChain .dst c).chains .dst).accepted = [] := by
        rw [setChain_self, queried_other hq]
        exact hsent
      refine ⟨fun hl => ?_, fun _ => firstBlock_spec hb hsrc, ?_, fun _ => ?_, fun _ _ k hk => ?_⟩
      · cases hl
      · show Ladder _ (headersIn ((s.setChain .dst c).chains .dst).accepted)
        rw [hsent']
        exact ladder_nil _
      · show Ladder _ (headersIn ((s.setChain .dst c).chains .dst).accepted ++ coming s)
        rw [hsent', hcoming]
        exact ladder_nil _
      · cases hk
        exact ⟨le_refl _, fun y h1 h2 => absurd h2 (not_lt.mpr h1)⟩
  | listened hk hround => exact climbing_block hc hk hround
  | stopListen hk => exact hc.keep rfl rfl id rfl (Or.inr rfl)
  | stopHeader =>
      refine hc.keep rfl ?_ id rfl (Or.inl rfl)
      show _ ++ (s.queues.header ++ [none]).filterMap _ = _
      rw [List.filterMap_append]
      exact congrArg _ (List.append_nil _)
  | stopXtx => exact hc.keep rfl rfl id rfl (Or.inl rfl)
  | @headerSignal rest halive hhand hqueue =>
      refine hc.keep rfl ?_ (fun hal => ?_) rfl (Or.inl rfl)
      · show _ ++ rest.filterMap _ = _ ++ s.queues.header.filterMap _
        rw [hqueue]
        rfl
      · cases hal
  | @headerTaken bn header rest halive hhand hqueue =>
      have hcoming : coming s = [bn] ++ rest.filterMap (fun x => x.map Prod.fst) := by
        unfold coming
        rw [hhand, hqueue]
        rfl
      refine hc.pass halive ?_ rfl rfl
      rw [hcoming]
      rfl
  | headerUnbuilt _ halive hhand htx =>
      refine hc.keep rfl rfl (fun hal => ?_) rfl (Or.inl rfl)
      cases hal
  | @headerSent time put bn header tx r c halive hhand htx hput =>
      have hcoming : coming s = [bn] ++ s.queues.header.filterMap (fun x => x.map Prod.fst) := by
        unfold coming
        rw [hhand]
        rfl
      rcases hput.ends with ⟨rfl, _, hacc⟩ | ⟨_, hfull, _⟩ | ⟨⟨e, rfl⟩, _, rfl⟩
      · have hsent : headersIn ((s.setChain .dst c).chains .dst).accepted = sent s ++ [bn] := by
          rw [setChain_self, hacc, headersIn_append]
          rfl
        refine hc.pass halive ?_ rfl rfl
        show headersIn ((s.setChain .dst c).chains .dst).accepted
          ++ ([] ++ s.queues.header.filterMap _) = _
        rw [hsent, hcoming, List.append_assoc]
        rfl
      · -- with room the pool does not refuse
        have hroom' : (s.chains .dst).pool.isFull = false := hroom
        rw [hfull] at hroom'
        cases hroom'
      · refine hc.keep ?_ rfl (fun hal => ?_) rfl (Or.inl rfl)
        · show headersIn ((s.setChain .dst (s.chains .dst)).chains .dst).accepted = _
          rw [setChain_self]
          rfl
        · cases hal
  | xtxSignal => exact hc.keep rfl rfl id rfl (Or.inl rfl)
  | xtxSkipped => exact hc.keep rfl rfl id rfl (Or.inl rfl)
  | xtxFailed => exact hc.keep rfl rfl id rfl (Or.inl rfl)
  | xtxTaken => exact hc.keep rfl rfl id rfl (Or.inl rfl)
  | advanced halive hdeal hcase => exact hc.keep hcase.headers rfl id rfl (Or.inl rfl)

/-! ## §5. Runs. -/

omit [Contracts] [Sha256] in
/-- The stored headers of chain `p` have no gap. -/
def NoGap (st : BaseStore) (p : Int) : Prop :=
  ∀ a b c : Int, 0 < a → a ≤ b → b ≤ c → hasHeader st (.int p) (.int a) = true →
    hasHeader st (.int p) (.int c) = true → hasHeader st (.int p) (.int b) = true

/-- Before the first step: a relayer that has done nothing, chains that number their blocks,
a working light client whose headers of the source have no gap, and nothing but clients'
submissions. -/
structure Started (cfg : AsyncRelayerConfig) (s : State) : Prop where
  asks : AsksLightClients cfg
  listen : s.listen = .created
  queues : s.queues = {}
  headerTask : s.headerTask = {}
  xtxTask : s.xtxTask = {}
  chains : ∀ role, Blockchain.Numbered (s.chains role)
  flow : Blockchain.Flow (s.chains .dst)
  clients : ∀ e ∈ (s.chains .dst).accepted, e.1 = .client
  installed : Executor.Installed (s.chains .dst).store
  entries : ∃ hs, HeadersAt (s.chains .dst).store cfg.src.pid hs
  noGap : NoGap (s.chains .dst).store cfg.src.pid

omit [Contracts] [Sha256] in
/-- Every header and every cross-chain transaction that was taken for the destination is in
its pool or behind it, or in hand: being dealt with, or what the task has stopped on. -/
def NoneDropped (s : State) : Prop := (headerDesk s).Balanced ∧ (xtxDesk s).Balanced

instance (s : State) : Decidable (NoneDropped s) :=
  inferInstanceAs (Decidable ((headerDesk s).Balanced ∧ (xtxDesk s).Balanced))

omit [Contracts] [Sha256] in
/-- A condition on the steps of a run: what `deal_header` and `deal_xtx` send finds a pool with
room. -/
def FindsRoom (s : State) (a : Action) : Prop := HeaderRoom s a ∧ XtxRoom s a

omit [Contracts] [Sha256] in
theorem headersIn_clients {xs : List (LocalOrigin × Transaction)}
    (h : ∀ e ∈ xs, e.1 = .client) : headersIn xs = [] ∧ rootsIn xs = [] := by
  refine ⟨List.filterMap_eq_nil_iff.mpr fun e he => ?_,
    List.filterMap_eq_nil_iff.mpr fun e he => ?_⟩
  · rw [h e he]
    rfl
  · rw [h e he]
    rfl

omit [Sha256] in
theorem Started.desks {cfg : AsyncRelayerConfig} {s : State} (h : Started cfg s) :
    headerDesk s = {} ∧ xtxDesk s = {} := by
  obtain ⟨hheaders, hroots⟩ := headersIn_clients h.clients
  refine ⟨?_, ?_⟩
  · unfold headerDesk
    rw [hheaders, h.headerTask]
    rfl
  · unfold xtxDesk
    rw [hroots, h.xtxTask]

omit [Sha256] in
theorem Started.books {cfg : AsyncRelayerConfig} {s : State} (h : Started cfg s) : Books s where
  headers bn header hh := by
    rcases hh with hq | hhand
    · rw [h.queues] at hq
      cases hq
    · rw [h.headerTask] at hhand
      cases hhand
  hand _ := by
    rw [h.xtxTask]
    rfl
  sendable d hd := by
    rw [h.xtxTask] at hd
    cases hd
  headerBooked := by
    rw [h.desks.1]
    exact List.Sublist.refl _
  xtxBooked := by
    rw [h.desks.2]
    exact List.Sublist.refl _

omit [Sha256] in
theorem Started.inOrder {cfg : AsyncRelayerConfig} {s : State} (h : Started cfg s) :
    InOrder cfg s where
  chains := h.chains
  flow := h.flow
  carries e he := by
    rw [h.clients e he]
    trivial
  hands d hd := by
    rw [h.xtxTask] at hd
    cases hd
  listening k hk := by
    rw [h.listen] at hk
    cases hk
  headers bn header hh := by
    rcases hh with hq | hhand
    · rw [h.queues] at hq
      cases hq
    · rw [h.headerTask] at hhand
      cases hhand

omit [Sha256] in
theorem Started.climbing {cfg : AsyncRelayerConfig} {s : State} (h : Started cfg s) (b : Int) :
    Climbing cfg b s := by
  have hsent : sent s = [] := (headersIn_clients h.clients).1
  have hcoming : coming s = [] := by
    unfold coming
    rw [h.headerTask, h.queues]
    rfl
  refine ⟨fun _ => ⟨hsent, hcoming⟩, fun hsome => ?_, ?_, fun _ => ?_, fun _ _ k hk => ?_⟩
  · rw [hsent, hcoming, h.listen] at hsome
    rcases hsome with hne | ⟨_, hk⟩
    · exact absurd rfl hne
    · cases hk
  · rw [hsent]
    exact ladder_nil _
  · rw [hsent, hcoming]
    exact ladder_nil _
  · rw [h.listen] at hk
    cases hk

omit [Sha256] in
theorem Started.client {cfg : AsyncRelayerConfig} {s : State} (h : Started cfg s) {hs : List Int}
    (hent : HeadersAt (s.chains .dst).store cfg.src.pid hs) : Client cfg hs (s.chains .dst) := by
  have hnil : headersIn (s.chains .dst).popped = [] := by
    have hflow := headersIn_flow h.flow
    rw [(headersIn_clients h.clients).1] at hflow
    exact (List.append_eq_nil_iff.mp hflow.symm).1
  refine ⟨h.installed, ?_⟩
  rw [hnil, List.append_nil]
  exact hent

/-- What a run keeps as long as there is room and nobody else writes headers of the source. -/
structure Synced (cfg : AsyncRelayerConfig) (hs : List Int) (s : State) : Prop where
  books : Books s
  inOrder : InOrder cfg s
  client : Client cfg hs (s.chains .dst)
  climbing : Climbing cfg (peak 0 hs) s

omit [Sha256] in
/-- When the listening starts, the greatest height is that of the first entries. -/
theorem Synced.maxbn {cfg : AsyncRelayerConfig} (hcfg : AsksLightClients cfg) {hs : List Int}
    {s : State} (h : Synced cfg hs s) {maxbn : Int} {c : Blockchain LocalOrigin}
    (hcreated : s.listen = .created)
    (hmax : AsyncLocalConnector.queryMaxXbn cfg.dst cfg.src.pid (s.chains .dst)
      = (.ok maxbn, c)) : maxbn = peak 0 hs := by
  have hnil : headersIn (s.chains .dst).popped = [] := by
    have hflow := headersIn_flow h.inOrder.flow
    have hsent : headersIn (s.chains .dst).accepted = [] := (h.climbing.created hcreated).1
    rw [hsent] at hflow
    exact (List.append_eq_nil_iff.mp hflow.symm).1
  have hent := h.client.entries
  rw [hnil, List.append_nil] at hent
  exact (AsyncLocalConnector.queryMaxXbn_run hcfg.dst hmax).2 h.client.installed maxbn hs rfl hent

theorem step_synced {ccfg : Role → Config} {cfg : AsyncRelayerConfig} {hs : List Int}
    (hcfg : AsksLightClients cfg) {s s' : State} {a : Action} (h : Synced cfg hs s)
    (hok : FindsRoom s a ∧ OthersLeaveAlone ccfg cfg s a) (hstep : step ccfg cfg s a = some s') :
    Synced cfg hs s' := by
  have hcase := step_cases hcfg hstep
  have hpeak : ∀ (maxbn : Int) (c : Blockchain LocalOrigin), s.listen = .created →
      AsyncLocalConnector.queryMaxXbn cfg.dst cfg.src.pid (s.chains .dst) = (.ok maxbn, c) →
      maxbn = peak 0 hs :=
    fun _ _ hcreated hmax => h.maxbn hcfg hcreated hmax
  have hb : 0 ≤ peak 0 hs := le_peak hs 0
  refine ⟨step_books h.books hcase, ?_, ?_, ?_⟩
  · refine step_inOrder hcfg h.books h.inOrder (fun maxbn c hl hmax => ?_) hcase
    rw [hpeak maxbn c hl hmax]
    exact hb
  · exact step_client h.inOrder h.client hok.2 (step_chain hcfg h.books h.inOrder hcase .dst)
  · exact step_climbing h.climbing hok.1.1 (h.inOrder.chains .src).genesis hb hpeak hcase

omit [Sha256] in
/-- **Behind a ladder the stored headers have no gap.** -/
theorem Synced.noGap {cfg : AsyncRelayerConfig} {hs : List Int} {s : State}
    (h : Synced cfg hs s)
    (hfirst : ∀ a b c : Int, 0 < a → a ≤ b → b ≤ c → a ∈ hs → c ∈ hs → b ∈ hs) :
    NoGap (s.chains .dst).store cfg.src.pid := by
  have hflow := headersIn_flow h.inOrder.flow
  have hladder : Ladder s.startbn (headersIn (s.chains .dst).popped) := by
    have hall : Ladder s.startbn (headersIn (s.chains .dst).accepted) := h.climbing.ladder
    rw [hflow] at hall
    exact hall.of_append
  have hstart : ∀ x ∈ headersIn (s.chains .dst).popped,
      0 < peak 0 hs → s.startbn = peak 0 hs + 1 := by
    intro x hx
    refine (h.climbing.base (Or.inl ?_)).2
    intro hnil
    have hnone := (List.append_eq_nil_iff.mp hnil).1
    have hmem : x ∈ sent s := by
      show x ∈ headersIn (s.chains .dst).accepted
      rw [hflow]
      exact List.mem_append_left _ hx
    rw [hnone] at hmem
    cases hmem
  have hle : ∀ x ∈ hs, x ≤ peak 0 hs := fun x hx => le_peak_of_mem hx 0
  intro a b c ha hab hbc hhas hhas'
  rw [h.client.entries.entries a ha] at hhas
  rw [h.client.entries.entries c (by omega)] at hhas'
  rw [h.client.entries.entries b (by omega)]
  rcases List.mem_append.mp hhas' with hc | hc
  · have hpeak := hle c hc
    rcases List.mem_append.mp hhas with ha' | ha'
    · exact List.mem_append_left _ (hfirst a b c ha hab hbc ha' hc)
    · -- the executed headers are above the first entries
      have h1 := hladder.le_of_mem ha'
      have h2 := hstart a ha' (by omega)
      omega
  · rcases List.mem_append.mp hhas with ha' | ha'
    · have hpeak := hle a ha'
      have hbase := hstart c hc (by omega)
      by_cases hlow : b < s.startbn
      · rcases peak_mem hs 0 with hp | hp
        · omega
        · exact List.mem_append_left _ (hfirst a b (peak 0 hs) ha hab (by omega) ha' hp)
      · exact List.mem_append_right _ (hladder.mem_of_le hc (by omega) hbc)
    · have h1 := hladder.le_of_mem ha'
      exact List.mem_append_right _ (hladder.mem_of_le hc (by omega) hbc)

/-- **Nothing is dropped exactly where every sending finds room**; and then, as long as nobody
else writes headers of the source, the headers stored at the destination have no gap. -/
theorem none_dropped {ccfg : Role → Config} {cfg : AsyncRelayerConfig} {s0 s : State}
    {acts : List Action} (h0 : Started cfg s0) (h : runFrom (step ccfg cfg) s0 acts = some s) :
    (NoneDropped s ↔ Along (step ccfg cfg) FindsRoom s0 acts)
      ∧ (Along (step ccfg cfg) FindsRoom s0 acts →
        Along (step ccfg cfg) (OthersLeaveAlone ccfg cfg) s0 acts →
        NoGap (s.chains .dst).store cfg.src.pid) := by
  have hcfg := h0.asks
  have hempty : NoneDropped s0 := by
    unfold NoneDropped
    rw [h0.desks.1, h0.desks.2]
    exact ⟨rfl, rfl⟩
  -- one step keeps the balance of both desks exactly where it finds room
  have hexact : NoneDropped s ↔ NoneDropped s0 ∧ Along (step ccfg cfg) FindsRoom s0 acts := by
    refine run_exact_under (fun s a s' hs hstep => step_books hs (step_cases hcfg hstep))
      (fun s a s' hs hstep => ?_) acts h0.books h
    obtain ⟨lost, hmove, hlost⟩ := step_headerDesk hs (step_cases hcfg hstep)
    obtain ⟨lost', hmove', hlost'⟩ := step_xtxDesk hs (step_cases hcfg hstep)
    unfold NoneDropped FindsRoom
    rw [hmove.balanced_iff hs.headerBooked, hmove'.balanced_iff hs.xtxBooked, hlost, hlost']
    exact and_and_and_comm
  refine ⟨hexact.trans (and_iff_right hempty), fun hroom halone => ?_⟩
  obtain ⟨hs, hent⟩ := h0.entries
  have hfirst : Synced cfg hs s0 := ⟨h0.books, h0.inOrder, h0.client hent, h0.climbing _⟩
  have hrun : Synced cfg hs s := run_invariant_along
    (fun s a s' hs hok hstep => step_synced hcfg hs hok hstep) acts
    (along_and acts hroom halone) h hfirst
  refine hrun.noGap (fun a b c ha hab hbc ha' hc' => ?_)
  rw [← hent.entries b (by omega)]
  exact h0.noGap a b c ha hab hbc ((hent.entries a ha).mpr ha')
    ((hent.entries c (by omega)).mpr hc')

end Client

/-! ## §6. A pool with room, and one that is full. -/

/-- A relayer from chain `0` to chain `2`. -/
def sampleLocal : AsyncRelayerConfig where
  src := { pid := 0, paratype := "Tendermint" }
  dst := { pid := 2, paratype := "Ethereum" }
  mode := .nor
  rlytp_iff := nor_rlytp
  pap_inter := nor_pap
  par_inter := nor_par

/-- The source has one block behind its genesis block, the pool of the destination one
place. -/
def onePlace : State where
  chains := fun role => match role with
    | .src => { blocks := { blocks := [{}, { height := 1 }] } }
    | .dst => { store := Executor.startStore, pool := { maxsize := 1 } }
    | .inter => {}

/-- The source commits an empty block, and the relayer listens to it. -/
def nextBlock : List Action := [
  .chain .src (.propose PyFloat.zero), .chain .src (.round PyFloat.zero false),
  .chain .src (.commit PyFloat.zero), .round (fun _ => PyFloat.zero)]

/-- One header: from the queue into the hand, and off. -/
def oneHeader : List Action := [.takeHeader, .sendHeader PyFloat.zero PyFloat.zero]

/-- The destination makes a block of what is in its pool. -/
def makeBlock : List Action := [
  .chain .dst (.propose PyFloat.zero), .chain .dst (.round PyFloat.zero false),
  .chain .dst (.round PyFloat.zero false), .chain .dst (.commit PyFloat.zero)]

/-- Two headers between two blocks of the destination, and a third one behind. -/
def dropActions : List Action :=
  [.start, .round (fun _ => PyFloat.zero)] ++ nextBlock ++ nextBlock
    ++ oneHeader ++ oneHeader ++ makeBlock ++ oneHeader ++ makeBlock

/-- The headers taken and accepted, whether the task lives with empty hands, and which of
the first three headers are stored. -/
def dropView (s : State) : List Int × List Int × Bool × List Bool :=
  (s.headerTask.taken, headersIn (s.chains .dst).accepted,
    s.headerTask.alive && s.headerTask.hand.isNone,
    [1, 2, 3].map (fun h => hasHeader (s.chains .dst).store (.int 0) (.int h)))

/-- Both start with nothing done, and with a light client that knows no header. -/
theorem onePlace_started : @Started Contracts.plain sampleLocal onePlace := by
  have hnone : ∀ k : Int,
      (onePlace.chains .dst).store.get (CtrLightClient.headerKey (.int 0) (.int k)) = none :=
    fun k => Executor.startStore_noHeader _ _
  refine @Started.mk Contracts.plain _ _ ?_ rfl rfl rfl rfl (fun role => ?_) rfl
    ?_ Executor.startStore_installed ⟨[], CtrLightClient.headersAt_nil fun k _ => hnone k⟩ ?_
  · refine ⟨fun inter h => ?_, rfl⟩
    cases h
  · -- the blocks of each chain are numbered, and none is being made
    have hloop : (onePlace.chains role).loop = .idle := by cases role <;> rfl
    refine ⟨?_, by cases role <;> decide, fun block hb => ?_⟩
    · have hgenesis : (BlockStorage.mk ([] ++ [({} : Block)])).Numbered :=
        numbered_nil.append rfl
      cases role with
      | src => exact hgenesis.append rfl
      | dst => exact hgenesis
      | inter => exact hgenesis
    · rw [hloop] at hb
      rcases hb with ⟨txs, hb⟩ | hb <;> cases hb
  · intro e he
    cases he
  · intro a b c _ _ _ ha
    rw [hasHeader, show sampleLocal.src.pid = 0 from rfl, hnone a] at ha
    cases ha

/-- **A full pool loses a header for good.**  The second header is refused and the task goes
on; the third one is stored, and the second is missing between them. -/
theorem full_pool_drops : ∃ s : State,
    @Started Contracts.plain sampleLocal onePlace
      ∧ runFrom (@step Contracts.plain Sha256.plain (fun _ => {}) sampleLocal) onePlace
          dropActions = some s
      ∧ ¬ NoneDropped s ∧ s.headerTask.alive = true ∧ s.headerTask.hand = none
      ∧ ¬ NoGap (s.chains .dst).store sampleLocal.src.pid := by
  have hview : (runFrom (@step Contracts.plain Sha256.plain (fun _ => {}) sampleLocal) onePlace
      dropActions).map dropView = some ([1, 2, 3], [1, 3], true, [true, false, true]) := by
    decide +kernel
  obtain ⟨s, hrun, hs⟩ := Option.map_eq_some_iff.mp hview
  obtain ⟨htaken, haccepted, htask, hstored⟩ :
      s.headerTask.taken = [1, 2, 3] ∧ headersIn (s.chains .dst).accepted = [1, 3]
        ∧ (s.headerTask.alive && s.headerTask.hand.isNone) = true
        ∧ [1, 2, 3].map (fun h : Int => hasHeader (s.chains .dst).store (.int 0) (.int h))
          = [true, false, true] := by
    unfold dropView at hs
    exact ⟨(Prod.mk.inj hs).1, (Prod.mk.inj (Prod.mk.inj hs).2).1,
      (Prod.mk.inj (Prod.mk.inj (Prod.mk.inj hs).2).2).1,
      (Prod.mk.inj (Prod.mk.inj (Prod.mk.inj hs).2).2).2⟩
  rw [Bool.and_eq_true, Option.isNone_iff_eq_none] at htask
  simp only [List.map_cons, List.map_nil, List.cons.injEq, and_true] at hstored
  refine ⟨s, onePlace_started, hrun, fun hb => ?_, htask.1, htask.2, fun hgap => ?_⟩
  · -- three were taken, two accepted, and none is in hand
    have hbal := hb.1
    unfold Lib.Desk.Balanced headerDesk at hbal
    rw [htaken, haccepted, htask.2] at hbal
    revert hbal
    decide
  · have htwo := hgap 1 2 3 (by omega) (by omega) (by omega) hstored.1 hstored.2.2
    rw [show sampleLocal.src.pid = 0 from rfl, hstored.2.1] at htwo
    cases htwo

/-- One header, and the block it gets into. -/
def keepActions : List Action :=
  [.start, .round (fun _ => PyFloat.zero)] ++ oneHeader ++ makeBlock

/-- A header that finds its place is not dropped. -/
theorem none_dropped_onePlace : ∃ s : State,
    runFrom (@step Contracts.plain Sha256.plain (fun _ => {}) sampleLocal) onePlace
        keepActions = some s
      ∧ s.headerTask.taken = [1] ∧ NoneDropped s
      ∧ NoGap (s.chains .dst).store sampleLocal.src.pid := by
  have hview : (runFrom (@step Contracts.plain Sha256.plain (fun _ => {}) sampleLocal) onePlace
      keepActions).map (fun s => (s.headerTask.taken, decide (NoneDropped s)))
      = some ([1], true) := by
    decide +kernel
  obtain ⟨s, hrun, hs⟩ := Option.map_eq_some_iff.mp hview
  have htaken : s.headerTask.taken = [1] := (Prod.mk.inj hs).1
  have hbal : NoneDropped s := of_decide_eq_true (Prod.mk.inj hs).2
  have hexact := @none_dropped Contracts.plain Sha256.plain _ _ _ _ _ onePlace_started hrun
  have halone : Along (@step Contracts.plain Sha256.plain (fun _ => {}) sampleLocal)
      (fun s _ => ∀ e ∈ (s.chains .dst).pool.items, e.1 ≠ .client) onePlace keepActions := by
    decide +kernel
  exact ⟨s, hrun, htaken, hbal, hexact.2 (hexact.1.mp hbal)
    (along_mono (fun s a hs => @othersLeaveAlone_noClient Contracts.plain Sha256.plain _ _ s hs a)
      _ halone)⟩

end AsyncLocalRelayer

end TorSim
