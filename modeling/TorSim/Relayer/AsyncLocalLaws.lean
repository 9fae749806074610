/-
  TorSim.Relayer.AsyncLocalLaws — what each step of a local relayer does, and what it
  loses.

  A task that sends to a full pool puts its item down: the submission is refused, the
  result is not looked at, and the task goes on.  No other step loses an item.

  Main results:
    * `step_cases` — **what a step does**, case by case.
    * `step_books` — what holds of every reachable state.
    * `step_headerDesk`, `step_xtxDesk` — **a step loses an item exactly where it sends
      one to a full pool**.
-/
import TorSim.Relayer.AsyncLocalRelayer
import TorSim.Relayer.TaskLaws
import TorSim.Lib.Handover

namespace TorSim

open TorSim.Lib

namespace AsyncLocalRelayer

open AsyncRelayer (isPar isPap putsHeader checkXtx)

/-! ## §1. Listening. -/

/-- Where `listen_block` stands after a block. -/
def listenAfter (k : Int) : Except Exn Unit → Listen
  | .ok _ => .listening (k + 1)
  | .error e => AsyncRelayer.afterError k e

theorem afterError_cases (k : Int) (e : Exn) :
    AsyncRelayer.afterError k e = .listening k ∨ AsyncRelayer.afterError k e = .stopped := by
  unfold AsyncRelayer.afterError
  cases e.isException with
  | true => exact Or.inl rfl
  | false => exact Or.inr rfl

/-- The header a block puts into the queue. -/
def headerPut (cfg : AsyncRelayerConfig) (bn : Int) (header : Json) : List (Option (Int × Json)) :=
  if putsHeader cfg then [some (bn, header)] else []

section Listening

variable [Sha256]

/-- The transactions of a block leave the headers alone. -/
theorem filterTx_header (time : PyFloat) (root : Int × Nat) (tx : Transaction)
    (hs : List (Option (Int × Json))) :
    Comp.Preserves (fun q : Queues => q.header = hs) (filterTx time root tx) := by
  unfold filterTx
  refine Comp.preserves_bind (Comp.preserves_lift _ _) (fun xtx => ?_)
  cases (xtx && tx.status == .success) with
  | false => exact Comp.preserves_pure _ _
  | true =>
      refine Comp.preserves_bind (Comp.preserves_lift _ _) (fun doc => ?_)
      refine Comp.preserves_bind (Comp.preserves_lift _ _) (fun tx => ?_)
      refine Comp.preserves_bind (Comp.preserves_lift _ _) (fun tx => ?_)
      exact Comp.preserves_update (fun q hq => hq)

theorem filterTxsFrom_header (time : Nat → PyFloat) (bn : Int) (hs : List (Option (Int × Json)))
    (txs : List Transaction) :
    ∀ i, Comp.Preserves (fun q : Queues => q.header = hs) (filterTxsFrom time bn i txs) := by
  induction txs with
  | nil => exact fun _ => Comp.preserves_pure _ _
  | cons tx txs ih =>
      intro i
      exact Comp.preserves_bind (filterTx_header (time i) (bn, i) tx hs) (fun _ => ih (i + 1))

/-- A block puts its header first, whatever becomes of its transactions. -/
theorem filterBlock_header (cfg : AsyncRelayerConfig) (time : Nat → PyFloat) (bn : Int)
    (block : Block) (header : Json) (q : Queues) :
    (filterBlock cfg time bn block header q).2.header = q.header ++ headerPut cfg bn header := by
  have htxs : ∀ q' : Queues, (filterTxs cfg time bn block.txs q').2.header = q'.header := by
    intro q'
    unfold filterTxs
    cases isPar cfg with
    | true => rfl
    | false => exact filterTxsFrom_header time bn q'.header block.txs 0 q' rfl
  unfold filterBlock filterHeader headerPut
  cases putsHeader cfg with
  | false => exact (htxs q).trans (List.append_nil _).symm
  | true => exact htxs (q.putHeader bn header)

/-- A round of `listen_block`: the block is not there or has no header, or it is put
into the queues as far as it goes. -/
inductive ListenCase (cfg : AsyncRelayerConfig) (k : Int) (q : Queues)
    (c : Blockchain LocalOrigin) : Listen → Queues → Prop where
  | retry (e : Exn) : ListenCase cfg k q c (AsyncRelayer.afterError k e) q
  | block {block : Block} {header : Json} {res : Except Exn Unit} {q' : Queues}
      (hget : c.blocks.getBlockByHeight k = .ok (some block)) (hheader : block.header = .ok header)
      (hput : q'.header = q.header ++ headerPut cfg k header) :
      ListenCase cfg k q c (listenAfter k res) q'

theorem listen_cases (cfg : AsyncRelayerConfig) (time : Nat → PyFloat) (k : Int) (q : Queues)
    (c : Blockchain LocalOrigin) :
    ListenCase cfg k q c (listen cfg time k q c).1 (listen cfg time k q c).2 := by
  have hfetch : ∀ (r : Except Exn (Block × Json)) (c' : Blockchain LocalOrigin),
      fetch k c = (r, c') → ∀ block header, r = .ok (block, header) →
      c.blocks.getBlockByHeight k = .ok (some block) ∧ block.header = .ok header := by
    intro r c' h block header hr
    subst hr
    obtain ⟨b, c1, hq, h⟩ := Comp.bind_eq_ok h
    obtain ⟨hd, c2, hh, h⟩ := Comp.bind_eq_ok h
    cases h
    exact ⟨(AsyncLocalConnector.queryBlock_run hq).2 block rfl, (Prod.mk.inj hh).1⟩
  unfold listen
  rcases hf : fetch k c with ⟨e | ⟨block, header⟩, c'⟩
  · exact .retry e
  · obtain ⟨hget, hheader⟩ := hfetch _ _ hf block header rfl
    have hput := filterBlock_header cfg time k block header q
    dsimp only
    rcases hr : filterBlock cfg time k block header q with ⟨e | u, q'⟩
    · rw [hr] at hput
      exact @ListenCase.block _ cfg k q c block header (.error e) q' hget hheader hput
    · rw [hr] at hput
      exact @ListenCase.block _ cfg k q c block header (.ok u) q' hget hheader hput

end Listening

/-! ## §2. `deal_xtx`. -/

/-- The task still has its transaction in hand. -/
structure Waits (t : XtxTask) (h : Dealing) (t' : XtxTask) : Prop where
  alive : t'.alive = t.alive
  hand : t'.hand = t.hand
  taken : t'.taken = t.taken
  dealing : ∃ w, t'.dealing = some { h with wait := w }

section Dealing

variable [Contracts]

/-- The steps of `deal_xtx` with a transaction in hand. -/
inductive AdvanceCase (cfg : AsyncRelayerConfig) (time put : PyFloat) (t : XtxTask) (h : Dealing)
    (cs : Role → Blockchain LocalOrigin) :
    Except Exn XtxTask → (Role → Blockchain LocalOrigin) → Prop where
  | waits {t' : XtxTask} (hwait : h.wait ≠ .ready) (ht : Waits t h t') :
      AdvanceCase cfg time put t h cs (.ok t') cs
  | asked {role : Role} {c : Blockchain LocalOrigin} {r : Except Exn XtxTask}
      (hwait : h.wait ≠ .ready) (hq : AsyncLocalConnector.Queried (cs role) c)
      (hr : ∀ t', r = .ok t' → Waits t h t') :
      AdvanceCase cfg time put t h cs r (Function.update cs role c)
  | layer1 {inter : Connector} {n : Int} {r : Except Exn Bool} {t' : XtxTask}
      {c : Blockchain LocalOrigin} (hwait : h.wait = .layer1 n) (ht : Waits t h t')
      (hput : Blockchain.PutCase put (.layer1 n) (layer1Tx cfg inter time n h.state) (cs .dst) r c) :
      AdvanceCase cfg time put t h cs (r.map (fun _ => t')) (Function.update cs .dst c)
  | unmarked (e : Exn) (hwait : h.wait = .ready)
      (hmark : RelayerUnix.markTx "send" time h.tx = .error e) :
      AdvanceCase cfg time put t h cs (.error e) cs
  | sent {tx : Transaction} {r : Except Exn Bool} {c : Blockchain LocalOrigin}
      (hwait : h.wait = .ready) (hmark : RelayerUnix.markTx "send" time h.tx = .ok tx)
      (hput : Blockchain.PutCase put (.xtx h.root) tx (cs .dst) r c) :
      AdvanceCase cfg time put t h cs (r.map (fun _ => { t with dealing := none, hand := none }))
        (Function.update cs .dst c)
  | broken (e : Exn) (hwait : h.wait ≠ .ready) : AdvanceCase cfg time put t h cs (.error e) cs

/-- The light clients are asked under their name. -/
structure AsksLightClients (cfg : AsyncRelayerConfig) : Prop where
  inter : ∀ inter, cfg.inter = some inter → inter.to_ = "lightclient"
  dst : cfg.dst.to_ = "lightclient"

omit [Contracts] in
theorem onChain_run {α : Type} (role : Role) (x : Comp (Blockchain LocalOrigin) α)
    (cs : Role → Blockchain LocalOrigin) :
    onChain role x cs = ((x (cs role)).1, Function.update cs role (x (cs role)).2) := rfl

/-- A query, and what is made of its answer. -/
theorem asked_run {cfg : AsyncRelayerConfig} {time put : PyFloat} {t : XtxTask} {h : Dealing}
    {cs : Role → Blockchain LocalOrigin} {role : Role} {x : Comp (Blockchain LocalOrigin) Int}
    {f : Int → XtxTask} (hwait : h.wait ≠ .ready) (hf : ∀ n, Waits t h (f n))
    (hx : ∀ r c, x (cs role) = (r, c) → AsyncLocalConnector.Queried (cs role) c) :
    AdvanceCase cfg time put t h cs ((do let n ← onChain role x; return f n) cs).1
      ((do let n ← onChain role x; return f n) cs).2 := by
  rw [Comp.bind_run, onChain_run]
  rcases hrun : x (cs role) with ⟨e | n, c⟩
  · refine .asked hwait (hx _ _ hrun) (fun t' ht' => ?_)
    cases ht'
  · refine .asked (r := .ok (f n)) hwait (hx _ _ hrun) (fun t' ht' => ?_)
    cases ht'
    exact hf n

omit [Contracts] in
/-- A sending, and what is made of the task then. -/
theorem sent_run {put : PyFloat} {tag : LocalOrigin} {tx : Transaction} {t' : XtxTask}
    (cs : Role → Blockchain LocalOrigin) :
    (do let _ ← onChain .dst (AsyncLocalConnector.sendTx put tag tx)
        return t' : Comp (Role → Blockchain LocalOrigin) XtxTask) cs
      = (((Blockchain.putTx put tag tx (cs .dst)).1).map (fun _ => t'),
          Function.update cs .dst (Blockchain.putTx put tag tx (cs .dst)).2) := by
  rw [Comp.bind_run, onChain_run]
  unfold AsyncLocalConnector.sendTx
  rcases Blockchain.putTx put tag tx (cs .dst) with ⟨e | b, c⟩ <;> rfl

theorem advanceDealing_cases {cfg : AsyncRelayerConfig} (hcfg : AsksLightClients cfg)
    (time put : PyFloat) {t : XtxTask} {h : Dealing} (hdeal : t.dealing = some h)
    (cs : Role → Blockchain LocalOrigin) :
    AdvanceCase cfg time put t h cs (advanceDealing cfg time put t h cs).1
      (advanceDealing cfg time put t h cs).2 := by
  have hnone : cfg.inter = none → h.wait ≠ .ready → (∀ k, h.wait ≠ .dst k) →
      AdvanceCase cfg time put t h cs (advanceDealing cfg time put t h cs).1
        (advanceDealing cfg time put t h cs).2 := by
    intro hinter hready hdst
    unfold advanceDealing
    rw [hinter]
    cases hw : h.wait with
    | dst k => exact absurd hw (hdst k)
    | ready => exact absurd hw hready
    | inter k => exact .broken _ hready
    | csHeight => exact .broken _ hready
    | layer1 k => exact .broken _ hready
  cases hw : h.wait with
  | inter synced =>
      have hready : h.wait ≠ .ready := by
        rw [hw]
        simp
      cases hinter : cfg.inter with
      | none => exact hnone hinter hready (fun k => by rw [hw]; simp)
      | some inter =>
          unfold advanceDealing
          rw [hw, hinter]
          dsimp only
          by_cases hlt : synced < h.xtx.height
          · rw [if_pos hlt]
            exact asked_run hready (fun n => ⟨rfl, rfl, rfl, _, rfl⟩)
              (fun r c hq => (AsyncLocalConnector.queryMaxXbn_run (hcfg.inter inter hinter) hq).1)
          · rw [if_neg hlt]
            exact .waits hready ⟨rfl, rfl, rfl, _, rfl⟩
  | csHeight =>
      have hready : h.wait ≠ .ready := by
        rw [hw]
        simp
      cases hinter : cfg.inter with
      | none => exact hnone hinter hready (fun k => by rw [hw]; simp)
      | some inter =>
          unfold advanceDealing
          rw [hw, hinter]
          exact asked_run hready (fun n => ⟨rfl, rfl, rfl, _, rfl⟩)
            (fun r c hq =>
              AsyncLocalConnector.queryHeaderCsHeight_queried (hcfg.inter inter hinter) hq)
  | dst height =>
      have hready : h.wait ≠ .ready := by
        rw [hw]
        simp
      unfold advanceDealing
      rw [hw]
      dsimp only
      by_cases hlt : t.syncedHeight < height
      · rw [if_pos hlt]
        exact asked_run hready (fun n => ⟨rfl, rfl, rfl, h.wait, hdeal⟩)
          (fun r c hq => (AsyncLocalConnector.queryMaxXbn_run hcfg.dst hq).1)
      · rw [if_neg hlt]
        exact .waits hready ⟨rfl, rfl, rfl, _, rfl⟩
  | layer1 n =>
      have hready : h.wait ≠ .ready := by
        rw [hw]
        simp
      cases hinter : cfg.inter with
      | none => exact hnone hinter hready (fun k => by rw [hw]; simp)
      | some inter =>
          unfold advanceDealing
          rw [hw, hinter]
          dsimp only
          by_cases hmem : h.xtx.height ∈ t.l1txSent
          · rw [if_pos hmem]
            exact .waits hready ⟨rfl, rfl, rfl, _, rfl⟩
          · rw [if_neg hmem, sent_run]
            exact .layer1 hw ⟨rfl, rfl, rfl, _, rfl⟩ (Blockchain.putTx_cases put _ _ _)
  | ready =>
      unfold advanceDealing
      rw [hw]
      dsimp only
      cases hm : RelayerUnix.markTx "send" time h.tx with
      | error e => exact .unmarked e hw hm
      | ok tx =>
          rw [Comp.lift_ok_bind_run, sent_run]
          exact .sent hw hm (Blockchain.putTx_cases put _ _ _)

end Dealing

/-! ## §3. What a step does. -/

/-- `deal_header` after a sending, whatever the pool answered. -/
def headerAfter (t : HeaderTask) : Except Exn Bool → HeaderTask
  | .ok _ => { t with hand := none }
  | .error _ => { t with alive := false }

/-- `deal_xtx` after a step: the new task, or the dead one. -/
def xtxAfter (t : XtxTask) : Except Exn XtxTask → XtxTask
  | .ok t' => t'
  | .error _ => { t with alive := false, dealing := none }

/-- The first block `listen_block` fetches. -/
def firstBlock (maxbn : Int) (s : State) : Int :=
  (if maxbn = 0 then (s.chains .src).blocks.blockNum - 1 else maxbn) + 1

section Steps

variable [Contracts] [Sha256]

/-- A step, by what it does. -/
inductive StepCase (ccfg : Role → Config) (cfg : AsyncRelayerConfig) (s : State) :
    Action → State → Prop where
  | chain {role : Role} {a : Blockchain.Action LocalOrigin} {c : Blockchain LocalOrigin}
      (hclient : byClient a = true)
      (hstep : Blockchain.step (ccfg role) (s.chains role) a = some c) :
      StepCase ccfg cfg s (.chain role a) (s.setChain role c)
  | startFailed {c : Blockchain LocalOrigin} (hcreated : s.listen = .created)
      (hq : AsyncLocalConnector.Queried (s.chains .dst) c) :
      StepCase ccfg cfg s .start { s.setChain .dst c with listen := .stopped }
  | started {maxbn : Int} {c : Blockchain LocalOrigin} (hcreated : s.listen = .created)
      (hq : AsyncLocalConnector.Queried (s.chains .dst) c)
      (hmax : AsyncLocalConnector.queryMaxXbn cfg.dst cfg.src.pid (s.chains .dst)
        = (.ok maxbn, c)) :
      StepCase ccfg cfg s .start { s.setChain .dst c with
        listen := .listening (firstBlock maxbn s)
        startbn := firstBlock maxbn s }
  | listened {time : Nat → PyFloat} {k : Int} {l : Listen} {q : Queues}
      (hk : s.listen = .listening k) (hround : ListenCase cfg k s.queues (s.chains .src) l q) :
      StepCase ccfg cfg s (.round time) { s with listen := l, queues := q }
  | stopListen {k : Int} (hk : s.listen = .listening k) :
      StepCase ccfg cfg s .stopListen { s with listen := .stopped }
  | stopHeader :
      StepCase ccfg cfg s .stopHeader
        { s with queues := { s.queues with header := s.queues.header ++ [none] } }
  | stopXtx :
      StepCase ccfg cfg s .stopXtx
        { s with queues := { s.queues with xtx := s.queues.xtx ++ [none] } }
  | headerSignal {rest : List (Option (Int × Json))} (halive : s.headerTask.alive = true)
      (hhand : s.headerTask.hand = none) (hqueue : s.queues.header = none :: rest) :
      StepCase ccfg cfg s .takeHeader { s with
        queues := { s.queues with header := rest }
        headerTask := { s.headerTask with alive := false } }
  | headerTaken {bn : Int} {header : Json} {rest : List (Option (Int × Json))}
      (halive : s.headerTask.alive = true) (hhand : s.headerTask.hand = none)
      (hqueue : s.queues.header = some (bn, header) :: rest) :
      StepCase ccfg cfg s .takeHeader { s with
        queues := { s.queues with header := rest }
        headerTask := { s.headerTask with
          hand := some (bn, header)
          taken := s.headerTask.taken ++ [bn] } }
  | headerUnbuilt {time put : PyFloat} {bn : Int} {header : Json} (e : Exn)
      (halive : s.headerTask.alive = true) (hhand : s.headerTask.hand = some (bn, header))
      (htx : headerTx cfg time header = .error e) :
      StepCase ccfg cfg s (.sendHeader time put)
        { s with headerTask := { s.headerTask with alive := false } }
  | headerSent {time put : PyFloat} {bn : Int} {header : Json} {tx : Transaction}
      {r : Except Exn Bool} {c : Blockchain LocalOrigin} (halive : s.headerTask.alive = true)
      (hhand : s.headerTask.hand = some (bn, header)) (htx : headerTx cfg time header = .ok tx)
      (hput : Blockchain.PutCase put (.header bn) tx (s.chains .dst) r c) :
      StepCase ccfg cfg s (.sendHeader time put)
        { s.setChain .dst c with headerTask := headerAfter s.headerTask r }
  | xtxSignal {time : PyFloat} {rest : List (Option ((Int × Nat) × Transaction))}
      (halive : s.xtxTask.alive = true) (hdeal : s.xtxTask.dealing = none)
      (hqueue : s.queues.xtx = none :: rest) :
      StepCase ccfg cfg s (.takeXtx time) { s with
        queues := { s.queues with xtx := rest }
        xtxTask := { s.xtxTask with alive := false } }
  | xtxSkipped {time : PyFloat} {root : Int × Nat} {xtx : Transaction}
      {rest : List (Option ((Int × Nat) × Transaction))} (halive : s.xtxTask.alive = true)
      (hdeal : s.xtxTask.dealing = none) (hqueue : s.queues.xtx = some (root, xtx) :: rest)
      (hcheck : checkXtx cfg xtx = .ok none) :
      StepCase ccfg cfg s (.takeXtx time) { s with queues := { s.queues with xtx := rest } }
  | xtxFailed {time : PyFloat} {root : Int × Nat} {xtx : Transaction}
      {rest : List (Option ((Int × Nat) × Transaction))} (halive : s.xtxTask.alive = true)
      (hdeal : s.xtxTask.dealing = none) (hqueue : s.queues.xtx = some (root, xtx) :: rest) :
      StepCase ccfg cfg s (.takeXtx time) { s with
        queues := { s.queues with xtx := rest }
        xtxTask := { s.xtxTask with
          alive := false
          hand := some root
          taken := s.xtxTask.taken ++ [root] } }
  | xtxTaken {time : PyFloat} {root : Int × Nat} {xtx : Transaction} {memo : Json} {d : Dealing}
      {rest : List (Option ((Int × Nat) × Transaction))} (halive : s.xtxTask.alive = true)
      (hdeal : s.xtxTask.dealing = none) (hqueue : s.queues.xtx = some (root, xtx) :: rest)
      (hprep : (prepare cfg time root xtx memo (s.chains .src)).1 = .ok d) :
      StepCase ccfg cfg s (.takeXtx time) { s with
        queues := { s.queues with xtx := rest }
        xtxTask := { s.xtxTask with
          dealing := some d
          hand := some root
          taken := s.xtxTask.taken ++ [root] } }
  | advanced {time put : PyFloat} {h : Dealing} {r : Except Exn XtxTask}
      {cs : Role → Blockchain LocalOrigin} (halive : s.xtxTask.alive = true)
      (hdeal : s.xtxTask.dealing = some h)
      (hcase : AdvanceCase cfg time put s.xtxTask h s.chains r cs) :
      StepCase ccfg cfg s (.advance time put)
        { s with chains := cs, xtxTask := xtxAfter s.xtxTask r }

/-- **What a step does.** -/
theorem step_cases {ccfg : Role → Config} {cfg : AsyncRelayerConfig}
    (hcfg : AsksLightClients cfg) {s s' : State} {a : Action} (h : step ccfg cfg s a = some s') :
    StepCase ccfg cfg s a s' := by
  cases a with
  | chain role a =>
      simp only [step] at h
      split at h
      next hclient =>
          obtain ⟨c, hc, rfl⟩ := Option.map_eq_some_iff.mp h
          exact .chain hclient hc
      next => cases h
  | start =>
      simp only [step] at h
      split at h
      next hcreated =>
          cases h
          unfold start
          rcases hq : AsyncLocalConnector.queryMaxXbn cfg.dst cfg.src.pid (s.chains .dst) with
            ⟨e | maxbn, c⟩
          · exact .startFailed hcreated (AsyncLocalConnector.queryMaxXbn_run hcfg.dst hq).1
          · exact .started hcreated (AsyncLocalConnector.queryMaxXbn_run hcfg.dst hq).1 hq
      next => cases h
  | round time =>
      simp only [step] at h
      split at h
      next k hk =>
          cases h
          exact .listened hk (listen_cases cfg time k s.queues (s.chains .src))
      next => cases h
  | stopListen =>
      simp only [step] at h
      split at h
      next k hk =>
          cases h
          exact .stopListen hk
      next => cases h
  | stopHeader =>
      cases h
      exact .stopHeader
  | stopXtx =>
      cases h
      exact .stopXtx
  | takeHeader =>
      simp only [step, takeHeader] at h
      split at h
      next hfree =>
          obtain ⟨halive, hhand⟩ := Bool.and_eq_true_iff.mp hfree
          rw [Option.isNone_iff_eq_none] at hhand
          split at h
          next => cases h
          next rest hqueue =>
              cases h
              exact .headerSignal halive hhand hqueue
          next bn header rest hqueue =>
              cases h
              exact .headerTaken halive hhand hqueue
      next => cases h
  | sendHeader time put =>
      simp only [step, sendHeader] at h
      split at h
      next halive =>
          split at h
          next => cases h
          next bn header hhand =>
              split at h
              next e htx =>
                  cases h
                  exact .headerUnbuilt e halive hhand htx
              next tx htx =>
                  have hput := Blockchain.putTx_cases put (.header bn) tx (s.chains .dst)
                  unfold AsyncLocalConnector.sendTx at h
                  rcases hrun : Blockchain.putTx put (.header bn) tx (s.chains .dst) with
                    ⟨e | b, c⟩
                  · rw [hrun] at h hput
                    cases h
                    exact .headerSent halive hhand htx hput
                  · rw [hrun] at h hput
                    cases h
                    exact .headerSent halive hhand htx hput
      next => cases h
  | takeXtx time =>
      simp only [step, takeXtx] at h
      split at h
      next hfree =>
          obtain ⟨halive, hdeal⟩ := Bool.and_eq_true_iff.mp hfree
          rw [Option.isNone_iff_eq_none] at hdeal
          split at h
          next => cases h
          next rest hqueue =>
              cases h
              exact .xtxSignal halive hdeal hqueue
          next root xtx rest hqueue =>
              split at h
              next =>
                  cases h
                  exact .xtxFailed halive hdeal hqueue
              next hcheck =>
                  cases h
                  exact .xtxSkipped halive hdeal hqueue hcheck
              next memo hcheck =>
                  split at h
                  next =>
                      cases h
                      exact .xtxFailed halive hdeal hqueue
                  next d hprep =>
                      cases h
                      exact .xtxTaken halive hdeal hqueue hprep
      next => cases h
  | advance time put =>
      simp only [step, advance] at h
      split at h
      next halive =>
          split at h
          next => cases h
          next d hdeal =>
              have hcase := advanceDealing_cases hcfg time put hdeal s.chains
              rcases hrun : advanceDealing cfg time put s.xtxTask d s.chains with ⟨e | t, cs⟩
              · rw [hrun] at h hcase
                cases h
                exact .advanced halive hdeal hcase
              · rw [hrun] at h hcase
                cases h
                exact .advanced halive hdeal hcase
      next => cases h

end Steps

/-! ## §4. What holds of every reachable state. -/

/-- The headers that wait or are in hand. -/
def HasHeader (s : State) (bn : Int) (header : Json) : Prop :=
  some (bn, header) ∈ s.queues.header ∨ s.headerTask.hand = some (bn, header)

/-- The origins of headers, and of cross-chain transactions. -/
def headerOf : LocalOrigin → Option Int
  | .header bn => some bn
  | _ => none

def rootOf : LocalOrigin → Option (Int × Nat)
  | .xtx root => some root
  | _ => none

/-- The headers among submissions. -/
def headersIn (xs : List (LocalOrigin × Transaction)) : List Int :=
  xs.filterMap (fun e => headerOf e.1)

/-- The cross-chain transactions among submissions. -/
def rootsIn (xs : List (LocalOrigin × Transaction)) : List (Int × Nat) :=
  xs.filterMap (fun e => rootOf e.1)

/-- The headers `deal_header` took, those in the destination's pool or behind it, and the
one in hand. -/
def headerDesk (s : State) : Desk Int where
  taken := s.headerTask.taken
  delivered := headersIn (s.chains .dst).accepted
  hand := s.headerTask.hand.map Prod.fst

/-- The same for `deal_xtx`. -/
def xtxDesk (s : State) : Desk (Int × Nat) where
  taken := s.xtxTask.taken
  delivered := rootsIn (s.chains .dst).accepted
  hand := s.xtxTask.hand

/-- What is in order in every reachable state. -/
structure Books (s : State) : Prop where
  headers : ∀ bn header, HasHeader s bn header →
    header.wf = true ∧ ∃ n : Int, header.getItem "height" = .ok (.int n)
  hand : s.xtxTask.alive = true → s.xtxTask.hand = s.xtxTask.dealing.map Dealing.root
  sendable : ∀ d, s.xtxTask.dealing = some d → ∀ time,
    ∃ tx, RelayerUnix.markTx "send" time d.tx = .ok tx
  headerBooked : (headerDesk s).Booked
  xtxBooked : (xtxDesk s).Booked

/-- The header that is sent finds a pool with room. -/
def HeaderRoom (s : State) : Action → Prop
  | .sendHeader _ _ => (s.chains .dst).pool.isFull = false
  | _ => True

/-- The cross-chain transaction that is sent finds a pool with room. -/
def XtxRoom (s : State) : Action → Prop
  | .advance _ _ => ∀ d, s.xtxTask.dealing = some d → d.wait = .ready →
      (s.chains .dst).pool.isFull = false
  | _ => True

section Desks

theorem headersIn_append (xs ys : List (LocalOrigin × Transaction)) :
    headersIn (xs ++ ys) = headersIn xs ++ headersIn ys := List.filterMap_append

theorem rootsIn_append (xs ys : List (LocalOrigin × Transaction)) :
    rootsIn (xs ++ ys) = rootsIn xs ++ rootsIn ys := List.filterMap_append

/-- A submission with neither of the two origins changes no desk. -/
theorem putCase_other {put : PyFloat} {tag : LocalOrigin} {tx : Transaction}
    {c c' : Blockchain LocalOrigin} {r : Except Exn Bool}
    (h : Blockchain.PutCase put tag tx c r c') :
    (headerOf tag = none → headersIn c'.accepted = headersIn c.accepted)
      ∧ (rootOf tag = none → rootsIn c'.accepted = rootsIn c.accepted) := by
  cases h with
  | accepted hroom hmark =>
      refine ⟨fun htag => ?_, fun htag => ?_⟩
      · show headersIn (c.accepted ++ [(tag, tx)]) = _
        rw [headersIn_append]
        simp [headersIn, htag]
      · show rootsIn (c.accepted ++ [(tag, tx)]) = _
        rw [rootsIn_append]
        simp [rootsIn, htag]
  | refused => exact ⟨fun _ => rfl, fun _ => rfl⟩
  | raised => exact ⟨fun _ => rfl, fun _ => rfl⟩

variable [Contracts] [Sha256]

/-- Clients and the loop of a chain change no desk. -/
theorem client_other {ccfg : Config} {c c' : Blockchain LocalOrigin}
    {a : Blockchain.Action LocalOrigin} (hclient : byClient a = true)
    (h : Blockchain.step ccfg c a = some c') :
    headersIn c'.accepted = headersIn c.accepted ∧ rootsIn c'.accepted = rootsIn c.accepted := by
  cases Blockchain.step_cases h with
  | submitted hput =>
      have htag := of_decide_eq_true hclient
      subst htag
      have hother := putCase_other hput
      exact ⟨hother.1 rfl, hother.2 rfl⟩
  | taken _ _ ht =>
      rw [ht.accepted]
      exact ⟨rfl, rfl⟩
  | committed _ hframe =>
      rw [hframe.accepted]
      exact ⟨rfl, rfl⟩
  | mining => exact ⟨rfl, rfl⟩
  | running => exact ⟨rfl, rfl⟩
  | proposed => exact ⟨rfl, rfl⟩
  | emptied => exact ⟨rfl, rfl⟩

omit [Contracts] [Sha256] in
@[simp] theorem setChain_self (role : Role) (c : Blockchain LocalOrigin) (s : State) :
    (s.setChain role c).chains role = c := Function.update_self _ _ _

omit [Contracts] [Sha256] in
theorem setChain_ne {role role' : Role} (h : role' ≠ role) (c : Blockchain LocalOrigin)
    (s : State) : (s.setChain role c).chains role' = s.chains role' :=
  Function.update_of_ne h _ _

/-- What the other steps leave of the submissions at the destination. -/
theorem chain_other {ccfg : Role → Config} {s : State} {role : Role}
    {a : Blockchain.Action LocalOrigin} {c : Blockchain LocalOrigin} (hclient : byClient a = true)
    (h : Blockchain.step (ccfg role) (s.chains role) a = some c) :
    headersIn ((s.setChain role c).chains .dst).accepted
        = headersIn (s.chains .dst).accepted
      ∧ rootsIn ((s.setChain role c).chains .dst).accepted
        = rootsIn (s.chains .dst).accepted := by
  by_cases hrole : role = .dst
  · subst hrole
    rw [setChain_self]
    exact client_other hclient h
  · rw [setChain_ne (Ne.symm hrole)]
    exact ⟨rfl, rfl⟩

omit [Sha256] in
theorem queried_other {c c' : Blockchain LocalOrigin} (h : AsyncLocalConnector.Queried c c') :
    c'.accepted = c.accepted := by
  rw [h.frame]

omit [Sha256] in
/-- What a step of `deal_xtx` leaves of the headers at the destination. -/
theorem AdvanceCase.headers {cfg : AsyncRelayerConfig} {time put : PyFloat} {t : XtxTask}
    {h : Dealing} {cs cs' : Role → Blockchain LocalOrigin} {r : Except Exn XtxTask}
    (hcase : AdvanceCase cfg time put t h cs r cs') :
    headersIn (cs' .dst).accepted = headersIn (cs .dst).accepted := by
  cases hcase with
  | waits => rfl
  | unmarked => rfl
  | broken => rfl
  | @asked role c r hwait hq hr =>
      by_cases hrole : role = .dst
      · subst hrole
        rw [Function.update_self, queried_other hq]
      · rw [Function.update_of_ne (Ne.symm hrole)]
  | layer1 _ _ hput =>
      rw [Function.update_self]
      exact (putCase_other hput).1 rfl
  | sent _ _ hput =>
      rw [Function.update_self]
      exact (putCase_other hput).1 rfl

/-- **A step loses a header exactly where it sends one to a full pool.** -/
theorem step_headerDesk {ccfg : Role → Config} {cfg : AsyncRelayerConfig} {s s' : State}
    {a : Action} (hs : Books s) (h : StepCase ccfg cfg s a s') :
    ∃ lost, Moves (headerDesk s) lost (headerDesk s') ∧ (lost = false ↔ HeaderRoom s a) := by
  cases h with
  | @chain role a c hclient hstep =>
      refine ⟨false, (Moves.rest _).of_eq ?_, ⟨fun _ => trivial, fun _ => rfl⟩⟩
      show Desk.mk _ (headersIn ((s.setChain role c).chains .dst).accepted) _ = _
      rw [(chain_other hclient hstep).1]
      rfl
  | @startFailed c hcreated hq =>
      refine ⟨false, (Moves.rest _).of_eq ?_, ⟨fun _ => trivial, fun _ => rfl⟩⟩
      show Desk.mk _ (headersIn ((s.setChain .dst c).chains .dst).accepted) _ = _
      rw [setChain_self, queried_other hq]
      rfl
  | @started maxbn c hcreated hq hmax =>
      refine ⟨false, (Moves.rest _).of_eq ?_, ⟨fun _ => trivial, fun _ => rfl⟩⟩
      show Desk.mk _ (headersIn ((s.setChain .dst c).chains .dst).accepted) _ = _
      rw [setChain_self, queried_other hq]
      rfl
  | listened => exact ⟨false, .rest _, ⟨fun _ => trivial, fun _ => rfl⟩⟩
  | stopListen => exact ⟨false, .rest _, ⟨fun _ => trivial, fun _ => rfl⟩⟩
  | stopHeader => exact ⟨false, .rest _, ⟨fun _ => trivial, fun _ => rfl⟩⟩
  | stopXtx => exact ⟨false, .rest _, ⟨fun _ => trivial, fun _ => rfl⟩⟩
  | headerSignal => exact ⟨false, .rest _, ⟨fun _ => trivial, fun _ => rfl⟩⟩
  | @headerTaken bn header rest halive hhand hqueue =>
      refine ⟨false, .take bn ?_, ⟨fun _ => trivial, fun _ => rfl⟩⟩
      show s.headerTask.hand.map Prod.fst = none
      rw [hhand]
      rfl
  | @headerUnbuilt time put bn header e halive hhand htx =>
      -- a header tells its height, so its transaction can be built
      obtain ⟨_, n, hn⟩ := hs.headers bn header (Or.inr hhand)
      rw [headerTx, hn] at htx
      cases htx
  | @headerSent time put bn header tx r c halive hhand htx hput =>
      have hbn : (headerDesk s).hand = some bn := by
        show s.headerTask.hand.map Prod.fst = some bn
        rw [hhand]
        rfl
      rcases hput.ends with ⟨rfl, hroom, hacc⟩ | ⟨rfl, hfull, rfl⟩ | ⟨⟨e, rfl⟩, hroom, rfl⟩
      · refine ⟨false, (Moves.deliver hbn).of_eq ?_, ⟨fun _ => hroom, fun _ => rfl⟩⟩
        show Desk.mk _ (headersIn ((s.setChain .dst c).chains .dst).accepted) _ = _
        rw [setChain_self, hacc, headersIn_append]
        rfl
      · refine ⟨true, (Moves.lose hbn).of_eq ?_, ?_⟩
        · show Desk.mk _ (headersIn ((s.setChain .dst (s.chains .dst)).chains .dst).accepted) _ = _
          rw [setChain_self]
          rfl
        · show true = false ↔ (s.chains .dst).pool.isFull = false
          rw [hfull]
      · refine ⟨false, (Moves.rest _).of_eq ?_, ⟨fun _ => hroom, fun _ => rfl⟩⟩
        show Desk.mk _ (headersIn ((s.setChain .dst (s.chains .dst)).chains .dst).accepted) _ = _
        rw [setChain_self]
        rfl
  | xtxSignal => exact ⟨false, .rest _, ⟨fun _ => trivial, fun _ => rfl⟩⟩
  | xtxSkipped => exact ⟨false, .rest _, ⟨fun _ => trivial, fun _ => rfl⟩⟩
  | xtxFailed => exact ⟨false, .rest _, ⟨fun _ => trivial, fun _ => rfl⟩⟩
  | xtxTaken => exact ⟨false, .rest _, ⟨fun _ => trivial, fun _ => rfl⟩⟩
  | @advanced time put h r cs halive hdeal hcase =>
      refine ⟨false, (Moves.rest _).of_eq ?_, ⟨fun _ => trivial, fun _ => rfl⟩⟩
      show Desk.mk _ (headersIn (cs .dst).accepted) _ = _
      rw [hcase.headers]
      rfl

omit [Sha256] in
/-- A step of `deal_xtx` before the sending: the transaction stays in hand. -/
theorem AdvanceCase.stays {cfg : AsyncRelayerConfig} {time put : PyFloat} {t : XtxTask}
    {h : Dealing} {cs cs' : Role → Blockchain LocalOrigin} {r : Except Exn XtxTask}
    (hcase : AdvanceCase cfg time put t h cs r cs') (hwait : h.wait ≠ .ready) :
    rootsIn (cs' .dst).accepted = rootsIn (cs .dst).accepted
      ∧ (xtxAfter t r).hand = t.hand ∧ (xtxAfter t r).taken = t.taken := by
  cases hcase with
  | waits _ ht => exact ⟨rfl, ht.hand, ht.taken⟩
  | unmarked _ hready => exact absurd hready hwait
  | sent hready => exact absurd hready hwait
  | broken => exact ⟨rfl, rfl, rfl⟩
  | @asked role c r _ hq hr =>
      refine ⟨?_, ?_⟩
      · by_cases hrole : role = .dst
        · subst hrole
          rw [Function.update_self, queried_other hq]
        · rw [Function.update_of_ne (Ne.symm hrole)]
      · cases r with
        | error e => exact ⟨rfl, rfl⟩
        | ok t' => exact ⟨(hr t' rfl).hand, (hr t' rfl).taken⟩
  | @layer1 inter n r t' c _ ht hput =>
      refine ⟨?_, ?_⟩
      · rw [Function.update_self]
        exact (putCase_other hput).2 rfl
      · cases r with
        | error e => exact ⟨rfl, rfl⟩
        | ok b => exact ⟨ht.hand, ht.taken⟩

/-- **A step loses a cross-chain transaction exactly where it sends one to a full pool.** -/
theorem step_xtxDesk {ccfg : Role → Config} {cfg : AsyncRelayerConfig} {s s' : State}
    {a : Action} (hs : Books s) (h : StepCase ccfg cfg s a s') :
    ∃ lost, Moves (xtxDesk s) lost (xtxDesk s') ∧ (lost = false ↔ XtxRoom s a) := by
  have hfree : s.xtxTask.alive = true → s.xtxTask.dealing = none → (xtxDesk s).hand = none := by
    intro halive hdeal
    show s.xtxTask.hand = none
    rw [hs.hand halive, hdeal]
    rfl
  cases h with
  | @chain role a c hclient hstep =>
      refine ⟨false, (Moves.rest _).of_eq ?_, ⟨fun _ => trivial, fun _ => rfl⟩⟩
      show Desk.mk _ (rootsIn ((s.setChain role c).chains .dst).accepted) _ = _
      rw [(chain_other hclient hstep).2]
      rfl
  | @startFailed c hcreated hq =>
      refine ⟨false, (Moves.rest _).of_eq ?_, ⟨fun _ => trivial, fun _ => rfl⟩⟩
      show Desk.mk _ (rootsIn ((s.setChain .dst c).chains .dst).accepted) _ = _
      rw [setChain_self, queried_other hq]
      rfl
  | @started maxbn c hcreated hq hmax =>
      refine ⟨false, (Moves.rest _).of_eq ?_, ⟨fun _ => trivial, fun _ => rfl⟩⟩
      show Desk.mk _ (rootsIn ((s.setChain .dst c).chains .dst).accepted) _ = _
      rw [setChain_self, queried_other hq]
      rfl
  | listened => exact ⟨false, .rest _, ⟨fun _ => trivial, fun _ => rfl⟩⟩
  | stopListen => exact ⟨false, .rest _, ⟨fun _ => trivial, fun _ => rfl⟩⟩
  | stopHeader => exact ⟨false, .rest _, ⟨fun _ => trivial, fun _ => rfl⟩⟩
  | stopXtx => exact ⟨false, .rest _, ⟨fun _ => trivial, fun _ => rfl⟩⟩
  | headerSignal => exact ⟨false, .rest _, ⟨fun _ => trivial, fun _ => rfl⟩⟩
  | headerTaken => exact ⟨false, .rest _, ⟨fun _ => trivial, fun _ => rfl⟩⟩
  | headerUnbuilt => exact ⟨false, .rest _, ⟨fun _ => trivial, fun _ => rfl⟩⟩
  | @headerSent time put bn header tx r c halive hhand htx hput =>
      refine ⟨false, (Moves.rest _).of_eq ?_, ⟨fun _ => trivial, fun _ => rfl⟩⟩
      show Desk.mk _ (rootsIn ((s.setChain .dst c).chains .dst).accepted) _ = _
      rw [setChain_self, (putCase_other hput).2 rfl]
      rfl
  | xtxSignal => exact ⟨false, .rest _, ⟨fun _ => trivial, fun _ => rfl⟩⟩
  | xtxSkipped => exact ⟨false, .rest _, ⟨fun _ => trivial, fun _ => rfl⟩⟩
  | @xtxFailed time root xtx rest halive hdeal hqueue =>
      exact ⟨false, .take root (hfree halive hdeal), ⟨fun _ => trivial, fun _ => rfl⟩⟩
  | @xtxTaken time root xtx memo d rest halive hdeal hqueue hprep =>
      exact ⟨false, .take root (hfree halive hdeal), ⟨fun _ => trivial, fun _ => rfl⟩⟩
  | @advanced time put h r cs halive hdeal hcase =>
      by_cases hwait : h.wait = .ready
      · have hroom : XtxRoom s (.advance time put) ↔ (s.chains .dst).pool.isFull = false := by
          constructor
          · intro hx
            exact hx h hdeal hwait
          · intro hroom d _ _
            exact hroom
        have hhand : (xtxDesk s).hand = some h.root := by
          show s.xtxTask.hand = _
          rw [hs.hand halive, hdeal]
          rfl
        rw [hroom]
        cases hcase with
        | waits hnot => exact absurd hwait hnot
        | asked hnot => exact absurd hwait hnot
        | broken _ hnot => exact absurd hwait hnot
        | layer1 hnot =>
            rw [hwait] at hnot
            cases hnot
        | unmarked e _ hmark =>
            -- what is marked `ready` can be marked `send`
            obtain ⟨tx, htx⟩ := hs.sendable h hdeal time
            rw [hmark] at htx
            cases htx
        | @sent tx r c _ hmark hput =>
            rcases hput.ends with ⟨rfl, hr, hacc⟩ | ⟨rfl, hfull, rfl⟩ | ⟨⟨e, rfl⟩, hr, rfl⟩
            · refine ⟨false, (Moves.deliver hhand).of_eq ?_, ⟨fun _ => hr, fun _ => rfl⟩⟩
              show Desk.mk _ (rootsIn (Function.update s.chains .dst c .dst).accepted) _ = _
              rw [Function.update_self, hacc, rootsIn_append]
              rfl
            · refine ⟨true, (Moves.lose hhand).of_eq ?_, ?_⟩
              · show Desk.mk _
                  (rootsIn (Function.update s.chains .dst (s.chains .dst) .dst).accepted) _ = _
                rw [Function.update_self]
                rfl
              · rw [hfull]
            · refine ⟨false, (Moves.rest _).of_eq ?_, ⟨fun _ => hr, fun _ => rfl⟩⟩
              show Desk.mk _
                (rootsIn (Function.update s.chains .dst (s.chains .dst) .dst).accepted) _ = _
              rw [Function.update_self]
              rfl
      · obtain ⟨hroots, hhand, htaken⟩ := hcase.stays hwait
        refine ⟨false, (Moves.rest _).of_eq ?_, ⟨fun _ => ?_, fun _ => rfl⟩⟩
        · show Desk.mk (xtxAfter s.xtxTask r).taken (rootsIn (cs .dst).accepted)
            (xtxAfter s.xtxTask r).hand = _
          rw [hroots, hhand, htaken]
          rfl
        · intro d hd hready
          rw [hdeal] at hd
          cases hd
          exact absurd hready hwait

omit [Sha256] in
/-- A step of `deal_xtx` that returns: the transaction is still in hand, or it was sent. -/
theorem AdvanceCase.returned {cfg : AsyncRelayerConfig} {time put : PyFloat} {t t' : XtxTask}
    {h : Dealing} {cs cs' : Role → Blockchain LocalOrigin}
    (hcase : AdvanceCase cfg time put t h cs (.ok t') cs') :
    Waits t h t' ∨ t' = { t with dealing := none, hand := none } := by
  generalize hr : Except.ok t' = r at hcase
  cases hcase with
  | waits _ ht =>
      cases hr
      exact Or.inl ht
  | asked _ _ hw => exact Or.inl (hw t' hr.symm)
  | @layer1 inter n r t'' c _ ht hput =>
      cases r with
      | error e => cases hr
      | ok b =>
          cases hr
          exact Or.inl ht
  | unmarked => cases hr
  | @sent tx r c _ _ hput =>
      cases r with
      | error e => cases hr
      | ok b => exact Or.inr (Except.ok.inj hr)
  | broken => cases hr

omit [Contracts] in
/-- What `deal_xtx` builds of a transaction. -/
structure Prepared (cfg : AsyncRelayerConfig) (root : Int × Nat) (xtx : Transaction)
    (d : Dealing) : Prop where
  root : d.root = root
  to_ : d.tx.to_ = .str cfg.dst.to_
  data : d.tx.data = .str (CtrLightClient.request .validateState
    [.int cfg.src.pid, .str (srcType cfg), .int xtx.height, .str d.state])
  sendable : ∀ time, ∃ tx, RelayerUnix.markTx "send" time d.tx = .ok tx

omit [Contracts] in
theorem prepare_run {cfg : AsyncRelayerConfig} {time : PyFloat} {root : Int × Nat}
    {xtx : Transaction} {memo : Json} {c : Blockchain LocalOrigin} {d : Dealing}
    (h : (prepare cfg time root xtx memo c).1 = .ok d) : Prepared cfg root xtx d := by
  rcases hrun : prepare cfg time root xtx memo c with ⟨r, c'⟩
  rw [hrun] at h
  cases h
  obtain ⟨proof, c1, _, hrun⟩ := Comp.bind_eq_ok hrun
  obtain ⟨doc, c2, _, hrun⟩ := Comp.bind_eq_ok hrun
  obtain ⟨tx, c3, hmark, hrun⟩ := Comp.bind_eq_ok hrun
  obtain ⟨wait, c4, _, hrun⟩ := Comp.bind_eq_ok hrun
  cases hrun
  have hready := (Prod.mk.inj hmark).1
  have hkept := RelayerUnix.kept_markTx hready
  have hto := congrArg Kept.to_ hkept
  have hdata := congrArg Kept.data hkept
  exact ⟨rfl, hto, hdata, RelayerUnix.markTx_again hready "send"⟩

/-- A header in the queue or in hand after a step was there before, or is the header of a
block of the source chain. -/
theorem step_hasHeader {ccfg : Role → Config} {cfg : AsyncRelayerConfig} {s s' : State}
    {a : Action} (h : StepCase ccfg cfg s a s') {bn : Int} {header : Json}
    (hh : HasHeader s' bn header) :
    HasHeader s bn header ∨ s.listen = .listening bn ∧ ∃ block : Block,
      (s.chains .src).blocks.getBlockByHeight bn = .ok (some block)
        ∧ block.header = .ok header := by
  cases h with
  | @listened time k l q hk hround =>
      cases hround with
      | retry => exact Or.inl hh
      | block hget hheader hput =>
          rcases hh with hq | hhand
          · change _ ∈ q.header at hq
            rw [hput] at hq
            rcases List.mem_append.mp hq with hold | hnew
            · exact Or.inl (Or.inl hold)
            · unfold headerPut at hnew
              split at hnew
              · cases List.mem_singleton.mp hnew
                exact Or.inr ⟨hk, _, hget, hheader⟩
              · cases hnew
          · exact Or.inl (Or.inr hhand)
  | stopHeader =>
      rcases hh with hq | hhand
      · rcases List.mem_append.mp hq with hold | hnew
        · exact Or.inl (Or.inl hold)
        · cases List.mem_singleton.mp hnew
      · exact Or.inl (Or.inr hhand)
  | headerSignal halive hhand hqueue =>
      rcases hh with hq | hhand
      · refine Or.inl (Or.inl ?_)
        rw [hqueue]
        exact List.mem_cons_of_mem _ hq
      · exact Or.inl (Or.inr hhand)
  | headerTaken halive hhand hqueue =>
      -- the header in hand was the first in the queue
      rcases hh with hq | hnew
      · refine Or.inl (Or.inl ?_)
        rw [hqueue]
        exact List.mem_cons_of_mem _ hq
      · refine Or.inl (Or.inl ?_)
        rw [hqueue, ← hnew]
        exact List.mem_cons_self
  | @headerSent time put bn' header' tx r c halive hhand htx hput =>
      rcases hh with hq | hafter
      · exact Or.inl (Or.inl hq)
      · cases r with
        | error e => exact Or.inl (Or.inr hafter)
        | ok b => cases hafter
  | chain => exact Or.inl hh
  | startFailed => exact Or.inl hh
  | started => exact Or.inl hh
  | stopListen => exact Or.inl hh
  | stopXtx => exact Or.inl hh
  | headerUnbuilt => exact Or.inl hh
  | xtxSignal => exact Or.inl hh
  | xtxSkipped => exact Or.inl hh
  | xtxFailed => exact Or.inl hh
  | xtxTaken => exact Or.inl hh
  | advanced => exact Or.inl hh

/-- What `deal_xtx` has in hand after a step: what it had, or what it has built now. -/
theorem step_dealing {ccfg : Role → Config} {cfg : AsyncRelayerConfig} {s s' : State}
    {a : Action} (h : StepCase ccfg cfg s a s') {d' : Dealing}
    (hd' : s'.xtxTask.dealing = some d') :
    (∃ d w, s.xtxTask.dealing = some d ∧ d' = { d with wait := w })
      ∨ ∃ root xtx, Prepared cfg root xtx d' := by
  have hsame : s.xtxTask.dealing = some d' →
      (∃ d w, s.xtxTask.dealing = some d ∧ d' = { d with wait := w })
        ∨ ∃ root xtx, Prepared cfg root xtx d' :=
    fun hd => Or.inl ⟨d', d'.wait, hd, rfl⟩
  cases h with
  | xtxTaken halive hdeal hqueue hprep =>
      cases hd'
      exact Or.inr ⟨_, _, prepare_run hprep⟩
  | @advanced time put h r cs halive hdeal hcase =>
      refine Or.inl ?_
      cases r with
      | error e => cases hd'
      | ok t' =>
          have ht' : t'.dealing = some d' := hd'
          rcases hcase.returned with ht | rfl
          · obtain ⟨w, hw⟩ := ht.dealing
            rw [hw] at ht'
            cases ht'
            exact ⟨h, w, hdeal, rfl⟩
          · cases ht'
  | chain => exact hsame hd'
  | startFailed => exact hsame hd'
  | started => exact hsame hd'
  | listened => exact hsame hd'
  | stopListen => exact hsame hd'
  | stopHeader => exact hsame hd'
  | stopXtx => exact hsame hd'
  | headerSignal => exact hsame hd'
  | headerTaken => exact hsame hd'
  | headerUnbuilt => exact hsame hd'
  | headerSent => exact hsame hd'
  | xtxSignal => exact hsame hd'
  | xtxSkipped => exact hsame hd'
  | xtxFailed => exact hsame hd'

/-- What a living `deal_xtx` has in hand is what it works on. -/
theorem step_hand {ccfg : Role → Config} {cfg : AsyncRelayerConfig} {s s' : State}
    {a : Action} (hs : Books s) (h : StepCase ccfg cfg s a s')
    (halive' : s'.xtxTask.alive = true) :
    s'.xtxTask.hand = s'.xtxTask.dealing.map Dealing.root := by
  cases h with
  | xtxTaken halive hdeal hqueue hprep => exact congrArg some (prepare_run hprep).root.symm
  | @advanced time put h r cs halive hdeal hcase =>
      have hhand := hs.hand halive
      rw [hdeal] at hhand
      cases r with
      | error e => cases halive'
      | ok t' =>
          show t'.hand = t'.dealing.map Dealing.root
          rcases hcase.returned with ht | rfl
          · obtain ⟨w, hw⟩ := ht.dealing
            rw [ht.hand, hhand, hw]
            rfl
          · rfl
  | xtxSignal => cases halive'
  | xtxFailed => cases halive'
  | chain => exact hs.hand halive'
  | startFailed => exact hs.hand halive'
  | started => exact hs.hand halive'
  | listened => exact hs.hand halive'
  | stopListen => exact hs.hand halive'
  | stopHeader => exact hs.hand halive'
  | stopXtx => exact hs.hand halive'
  | headerSignal => exact hs.hand halive'
  | headerTaken => exact hs.hand halive'
  | headerUnbuilt => exact hs.hand halive'
  | headerSent => exact hs.hand halive'
  | xtxSkipped => exact hs.hand halive'

/-- **What is in order stays in order.** -/
theorem step_books {ccfg : Role → Config} {cfg : AsyncRelayerConfig} {s s' : State}
    {a : Action} (hs : Books s) (h : StepCase ccfg cfg s a s') : Books s' where
  headers bn header hh := by
    rcases step_hasHeader h hh with hold | ⟨_, block, _, hheader⟩
    · exact hs.headers bn header hold
    · obtain ⟨hwf, hitem⟩ := RelayerUnix.header_height hheader
      exact ⟨hwf, block.height, hitem⟩
  hand := step_hand hs h
  sendable d' hd' time := by
    rcases step_dealing h hd' with ⟨d, w, hd, rfl⟩ | ⟨root, xtx, hprep⟩
    · exact hs.sendable d hd time
    · exact hprep.sendable time
  headerBooked := by
    obtain ⟨_, hmove, _⟩ := step_headerDesk hs h
    exact hmove.booked hs.headerBooked
  xtxBooked := by
    obtain ⟨_, hmove, _⟩ := step_xtxDesk hs h
    exact hmove.booked hs.xtxBooked

end Desks

end AsyncLocalRelayer

end TorSim
