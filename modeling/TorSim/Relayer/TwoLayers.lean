/-
  TorSim.Relayer.TwoLayers — what `deal_xtx` sends between two parachains.

  Between two parachains a cross-chain transaction is verified twice: its block
  under the relay chain's header, once per height, and the transaction under the
  source chain's header.  `wait_header` decides when, from cached answers of
  earlier queries, and marks a height as done before it sends.

  Main results:
    * `advanceDealing_eq` — **a step is at most one request and an update of the
      task's own variables by its answer**.
    * `step_follows` / `sends_follow_plan` — the sendings of any run follow the
      plan: per transaction its first layer, unless sent before, and its second.
-/
import Mathlib.Data.List.Forall2
import TorSim.Relayer.TaskLaws

namespace TorSim

open TorSim.Lib

variable {κ τ : Type}

namespace RelayerUnix

/-! ## §1. Requests. -/

/-- What `deal_xtx` asks of another process with a transaction in hand. -/
inductive Request (τ : Type) where
  | maxXbn (cn : Connector) (pid : Int)
  | csHeight (cn : Connector) (pid height : Int)
  | send (tag : τ) (tx : Transaction)

/-- The request of the next step, if it makes one. -/
def nextRequest (cfg : RelayerConfig) (inter : Option Connector) (dst : Connector)
    (time : PyFloat) (tags : XtxTags κ τ) (t : XtxTask κ) (h : Dealing κ) :
    Except Exn (Option (Request τ)) :=
  match h.wait, inter with
  | .inter, some inter =>
      .ok (if t.syncedInterHeight < h.xtx.height then some (.maxXbn inter cfg.src.pid) else none)
  | .csHeight, some inter =>
      .ok (if (t.torCsHeightOnInter.lookup h.xtx.height).getD 0 = 0 then
        some (.csHeight inter cfg.src.pid h.xtx.height) else none)
  | .dst height, _ =>
      .ok (if t.syncedHeight < height then some (.maxXbn dst (countedPid cfg)) else none)
  | .layer1 n, some inter =>
      .ok (if h.xtx.height ∈ t.l1txSent then none else
        some (.send (tags.layer1 n) (layer1Tx inter dst time n h.state)))
  | .ready, _ => do
      let tx ← markTx "send" time h.tx
      return some (.send (tags.xtx h.xtx.height h.tag) tx)
  | _, none => .error ⟨.attribute, "'NoneType' object has no attribute 'query_max_xbn'"⟩

/-- The request is made of the chain it is for; a sending answers nothing. -/
def perform [Contracts] [Sha256] (dst : Connector) (link : Link) (put : PyFloat) :
    Request τ → Comp (Int → Chain τ) Int
  | .maxXbn cn pid => onChain cn.pid (cn.queryMaxXbn link pid)
  | .csHeight cn pid height => onChain cn.pid (cn.queryHeaderCsHeight link pid height)
  | .send tag tx => do
      let _ ← onChain dst.pid (Connector.sendTx link put tag tx)
      return 0

/-- The task's own variables after a step, `answer` what the request was answered. -/
def resume (cfg : RelayerConfig) (t : XtxTask κ) (h : Dealing κ) (answer : Option Int) :
    XtxTask κ :=
  match h.wait, answer with
  | .inter, some n => { t with syncedInterHeight := n }
  | .inter, none => { t with dealing := some { h with wait := .csHeight } }
  | .csHeight, some n => { t with
      torCsHeightOnInter := (h.xtx.height, n) :: t.torCsHeightOnInter
      dealing := some { h with wait := .dst n } }
  | .csHeight, none => { t with
      dealing := some { h with wait := .dst ((t.torCsHeightOnInter.lookup h.xtx.height).getD 0) } }
  | .dst _, some n => { t with syncedHeight := n }
  | .dst height, none => { t with
      dealing := some { h with wait := if cfg.mode = .tor then .layer1 height else .ready } }
  | .layer1 _, some _ => { t with
      l1txSent := h.xtx.height :: t.l1txSent
      dealing := some { h with wait := .ready } }
  | .layer1 _, none => { t with dealing := some { h with wait := .ready } }
  | .ready, _ => { t with dealing := none }

variable [Contracts] [Sha256]

/-- **A step is at most one request, and an update by its answer.** -/
theorem advanceDealing_eq (cfg : RelayerConfig) (inter : Option Connector) (dst : Connector)
    (link : Link) (time put : PyFloat) (tags : XtxTags κ τ) (t : XtxTask κ) (h : Dealing κ)
    (cs : Int → Chain τ) :
    advanceDealing cfg inter dst link time put tags t h cs
      = match nextRequest cfg inter dst time tags t h with
        | .error e => (.error e, cs)
        | .ok none => (.ok (resume cfg t h none), cs)
        | .ok (some r) =>
            (perform dst link put r >>= fun n => pure (resume cfg t h (some n))) cs := by
  -- a sending is followed by an update that does not look at its answer
  have hsend : ∀ (tag : τ) (tx : Transaction) (t' : XtxTask κ),
      (do let _ ← onChain dst.pid (Connector.sendTx link put tag tx); return t' :
          Comp (Int → Chain τ) (XtxTask κ)) cs
        = (perform dst link put (.send tag tx) >>= fun _ => pure t') cs := by
    intro tag tx t'
    rw [perform, Comp.bind_run, Comp.bind_run, Comp.bind_run]
    rcases onChain dst.pid (Connector.sendTx link put tag tx) cs with ⟨e | hash, cs1⟩ <;> rfl
  unfold advanceDealing nextRequest resume
  cases h.wait with
  | inter =>
      cases inter with
      | none => rfl
      | some inter =>
          dsimp only
          by_cases hlt : t.syncedInterHeight < h.xtx.height
          · rw [if_pos hlt, if_pos hlt]
            rfl
          · rw [if_neg hlt, if_neg hlt]
            rfl
  | csHeight =>
      cases inter with
      | none => rfl
      | some inter =>
          dsimp only
          by_cases hcached : (t.torCsHeightOnInter.lookup h.xtx.height).getD 0 = 0
          · rw [if_pos hcached, if_pos hcached]
            rfl
          · rw [if_neg hcached, if_neg hcached]
            rfl
  | dst height =>
      dsimp only
      by_cases hlt : t.syncedHeight < height
      · rw [if_pos hlt, if_pos hlt]
        rfl
      · rw [if_neg hlt, if_neg hlt]
        rfl
  | layer1 n =>
      cases inter with
      | none => rfl
      | some inter =>
          dsimp only
          by_cases hsent : h.xtx.height ∈ t.l1txSent
          · rw [if_pos hsent, if_pos hsent]
            rfl
          · rw [if_neg hsent, if_neg hsent]
            exact hsend _ _ _
  | ready =>
      dsimp only
      cases hmark : markTx "send" time h.tx with
      | error e => rfl
      | ok tx =>
          rw [Comp.lift_ok_bind_run]
          exact hsend _ _ _

/-! ## §2. Runs of one destination's task. -/

/-- What can be seen of the task from outside. -/
inductive Event (τ : Type) where
  | dequeued (xtx : Transaction)
  | called (r : Request τ)
  | answered (r : Request τ) (n : Int)
  | raised (e : Exn)

/-- The task with everything seen of it so far. -/
structure Watched (κ τ : Type) where
  tool : DstTool κ
  log : List (Event τ) := []

/-- What happens next: something is put into the queue, or the task goes on, each
time with the other processes in any state. -/
inductive TaskAction (κ τ : Type) where
  | put (es : List (Option (κ × Transaction)))
  | take (link : Link) (time : PyFloat) (c : Chain τ)
  | advance (link : Link) (time put : PyFloat) (tags : XtxTags κ τ) (cs : Int → Chain τ)

/-- The end of a call: its exception, if it raised one. -/
def raisedBy {α : Type} : Except Exn α → List (Event τ)
  | .ok _ => []
  | .error e => [.raised e]

omit [Contracts] in
/-- What is seen at the head of the loop. -/
def takeEvents (cfg : RelayerConfig) (dst : Connector) (link : Link) (time : PyFloat)
    (d : DstTool κ) (c : Chain τ) : List (Event τ) :=
  match d.queueXtx with
  | some (tag, xtx) :: _ => .dequeued xtx :: raisedBy (prepare cfg dst link time tag xtx c).1
  | _ => []

/-- What is seen of a request. -/
def requestEvents (r : Request τ) : Except Exn Int → List (Event τ)
  | .ok n => [.called r, .answered r n]
  | .error e => [.called r, .raised e]

/-- What is seen of a step with a transaction in hand. -/
def advanceEvents (cfg : RelayerConfig) (dst : Connector) (link : Link) (time put : PyFloat)
    (tags : XtxTags κ τ) (t : XtxTask κ) (cs : Int → Chain τ) : List (Event τ) :=
  match t.dealing with
  | none => []
  | some h =>
      match nextRequest cfg cfg.inter dst time tags t h with
      | .error e => [.raised e]
      | .ok none => []
      | .ok (some r) => requestEvents r (perform dst link put r cs).1

/-- One step of the task, or of those who fill its queue. -/
def taskStep (cfg : RelayerConfig) (dst : Connector) (w : Watched κ τ) :
    TaskAction κ τ → Option (Watched κ τ)
  | .put es => some { w with tool := { w.tool with queueXtx := w.tool.queueXtx ++ es } }
  | .take link time c =>
      match takeXtx cfg dst link time w.tool c with
      | none => none
      | some (d, _) => some ⟨d, w.log ++ takeEvents cfg dst link time w.tool c⟩
  | .advance link time put tags cs =>
      match advance cfg dst link time put tags w.tool cs with
      | none => none
      | some (d, _) => some ⟨d, w.log ++ advanceEvents cfg dst link time put tags w.tool.xtxTask cs⟩

/-- The transactions taken from the queue. -/
def dequeued : List (Event τ) → List Transaction
  | [] => []
  | .dequeued xtx :: es => xtx :: dequeued es
  | _ :: es => dequeued es

/-- The calls of `send_tx`, each with what was seen before it. -/
def sendsFrom (before : List (Event τ)) : List (Event τ) → List (List (Event τ) × Transaction)
  | [] => []
  | .called (.send tag tx) :: es =>
      (before, tx) :: sendsFrom (before ++ [.called (.send tag tx)]) es
  | e :: es => sendsFrom (before ++ [e]) es

/-- All the calls of `send_tx`. -/
def sends (log : List (Event τ)) : List (List (Event τ) × Transaction) := sendsFrom [] log

/-! ## §3. The plan. -/

/-- What is to be sent for a dequeued transaction. -/
inductive Planned where
  | layer1 (x : Transaction)
  | layer2 (x : Transaction)

/-- The first layer for a transaction, unless its height has had it. -/
def layer1Of (seen : List Transaction) (x : Transaction) : List Planned :=
  if x.height ∈ seen.map Transaction.height then [] else [.layer1 x]

/-- For each transaction the first layer, if it is the first of its height, and the
second. -/
def planFrom (seen : List Transaction) : List Transaction → List Planned
  | [] => []
  | x :: xs => layer1Of seen x ++ .layer2 x :: planFrom (seen ++ [x]) xs

def plan (xs : List Transaction) : List Planned := planFrom [] xs

/-- The state sent with a transaction: the transaction and some proof. -/
def StateOf (x : Transaction) (state : String) : Prop :=
  ∃ doc proof, x.asJson = .ok doc
    ∧ state = Json.dumps (.obj [("tx", doc), ("proof", .str proof)])

/-- What was reported before the first layer of `height` was sent under the header
`n` of the relay chain.  The cached maxima start at `0`. -/
structure Reported (cfg : RelayerConfig) (inter dst : Connector) (log : List (Event τ))
    (height n : Int) : Prop where
  source : 0 < height → ∃ m, height ≤ m ∧ .answered (.maxXbn inter cfg.src.pid) m ∈ log
  cs : .answered (.csHeight inter cfg.src.pid height) n ∈ log
  relay : 0 < n → ∃ m, n ≤ m ∧ .answered (.maxXbn dst inter.pid) m ∈ log

/-- The transaction sent is what the plan says. -/
inductive Carries (cfg : RelayerConfig) (inter dst : Connector) :
    List (Event τ) × Transaction → Planned → Prop where
  | layer1 {before : List (Event τ)} {x : Transaction} {time : PyFloat} {n : Int} {state : String}
      (hstate : StateOf x state) (hreported : Reported cfg inter dst before x.height n) :
      Carries cfg inter dst (before, layer1Tx inter dst time n state) (.layer1 x)
  | layer2 {before : List (Event τ)} {x tx : Transaction} {state : String}
      (hstate : StateOf x state) (hto : tx.to_ = .str dst.to_)
      (hdata : tx.data = .str (CtrLightClient.request .validateState
        [.int cfg.src.pid, .str (srcType cfg dst), .int x.height, .str state]))
      (hmemo : ∀ k, k ≠ "ts" → memoField tx.memo k = memoField x.memo k) :
      Carries cfg inter dst (before, tx) (.layer2 x)

/-- The sendings of the log are these parts of the plan, one for one. -/
def Follows (cfg : RelayerConfig) (inter dst : Connector) (log : List (Event τ))
    (ps : List Planned) : Prop :=
  List.Forall₂ (Carries cfg inter dst) (sends log) ps

section Plan

omit [Contracts]

omit [Sha256] in
theorem planFrom_append (seen xs ys : List Transaction) :
    planFrom seen (xs ++ ys) = planFrom seen xs ++ planFrom (seen ++ xs) ys := by
  induction xs generalizing seen with
  | nil => rw [List.append_nil]; rfl
  | cons x xs ih =>
      rw [List.cons_append, planFrom, planFrom, ih, List.append_assoc, List.singleton_append,
        List.append_assoc, List.cons_append]

omit [Sha256] in
/-- The plan for one more transaction. -/
theorem plan_concat (xs : List Transaction) (x : Transaction) :
    plan (xs ++ [x]) = plan xs ++ layer1Of xs x ++ [.layer2 x] := by
  unfold plan
  rw [planFrom_append, List.nil_append, List.append_assoc]
  rfl

omit [Sha256] in
theorem dequeued_append (es fs : List (Event τ)) :
    dequeued (es ++ fs) = dequeued es ++ dequeued fs := by
  induction es with
  | nil => rfl
  | cons e es ih =>
      cases e with
      | dequeued xtx => rw [List.cons_append, dequeued, dequeued, ih, List.cons_append]
      | called r => exact ih
      | answered r n => exact ih
      | raised e => exact ih

omit [Sha256] in
theorem sendsFrom_append (before es fs : List (Event τ)) :
    sendsFrom before (es ++ fs) = sendsFrom before es ++ sendsFrom (before ++ es) fs := by
  induction es generalizing before with
  | nil => rw [List.append_nil]; rfl
  | cons e es ih =>
      have hassoc : before ++ [e] ++ es = before ++ e :: es := by simp
      cases e with
      | called r =>
          cases r with
          | send tag tx =>
              rw [List.cons_append, sendsFrom, sendsFrom, ih, hassoc, List.cons_append]
          | maxXbn cn pid =>
              show sendsFrom _ (es ++ fs) = sendsFrom _ es ++ _
              rw [ih, hassoc]
          | csHeight cn pid height =>
              show sendsFrom _ (es ++ fs) = sendsFrom _ es ++ _
              rw [ih, hassoc]
      | dequeued xtx =>
          show sendsFrom _ (es ++ fs) = sendsFrom _ es ++ _
          rw [ih, hassoc]
      | answered r n =>
          show sendsFrom _ (es ++ fs) = sendsFrom _ es ++ _
          rw [ih, hassoc]
      | raised e =>
          show sendsFrom _ (es ++ fs) = sendsFrom _ es ++ _
          rw [ih, hassoc]

/-- Events without a sending leave what was followed. -/
theorem Follows.quiet {cfg : RelayerConfig} {inter dst : Connector} {log es : List (Event τ)}
    {ps : List Planned} (h : Follows cfg inter dst log ps) (hes : sendsFrom log es = []) :
    Follows cfg inter dst (log ++ es) ps := by
  unfold Follows sends at h ⊢
  rw [sendsFrom_append, List.nil_append, hes, List.append_nil]
  exact h

/-- Events with one sending follow one step of the plan more. -/
theorem Follows.send {cfg : RelayerConfig} {inter dst : Connector} {log es : List (Event τ)}
    {ps : List Planned} {tx : Transaction} {p : Planned} (h : Follows cfg inter dst log ps)
    (hes : sendsFrom log es = [(log, tx)]) (hp : Carries cfg inter dst (log, tx) p) :
    Follows cfg inter dst (log ++ es) (ps ++ [p]) := by
  unfold Follows sends at h ⊢
  rw [sendsFrom_append, List.nil_append, hes]
  exact List.rel_append h (.cons hp .nil)

/-! ## §4. The task keeps to the plan. -/

/-- What `deal_xtx` has in hand: a transaction of its own queue and the one built of
it. -/
structure InHand (cfg : RelayerConfig) (dst : Connector) (h : Dealing κ) : Prop where
  state : StateOf h.xtx h.state
  to_ : h.tx.to_ = .str dst.to_
  data : h.tx.data = .str (CtrLightClient.request .validateState
    [.int cfg.src.pid, .str (srcType cfg dst), .int h.xtx.height, .str h.state])
  memo : ∀ k, k ≠ "ts" → memoField h.tx.memo k = memoField h.xtx.memo k

/-- The cached values are answers, or the initial `0`. -/
structure CachedAnswers (cfg : RelayerConfig) (inter dst : Connector) (log : List (Event τ))
    (t : XtxTask κ) : Prop where
  source : 0 < t.syncedInterHeight →
    .answered (.maxXbn inter cfg.src.pid) t.syncedInterHeight ∈ log
  cs : ∀ height n, (height, n) ∈ t.torCsHeightOnInter →
    .answered (.csHeight inter cfg.src.pid height) n ∈ log
  relay : 0 < t.syncedHeight → .answered (.maxXbn dst inter.pid) t.syncedHeight ∈ log

/-- What is known at each place of `wait_header`, before the first layer. -/
def Known (cfg : RelayerConfig) (inter dst : Connector) (log : List (Event τ)) (height : Int) :
    Wait → Prop
  | .inter => True
  | .csHeight => 0 < height → ∃ m, height ≤ m ∧ .answered (.maxXbn inter cfg.src.pid) m ∈ log
  | .dst n => (0 < height → ∃ m, height ≤ m ∧ .answered (.maxXbn inter cfg.src.pid) m ∈ log)
      ∧ .answered (.csHeight inter cfg.src.pid height) n ∈ log
  | .layer1 n => Reported cfg inter dst log height n
  | .ready => False

/-- The heights marked as done are those of the transactions `xs`. -/
def Marked (t : XtxTask κ) (xs : List Transaction) : Prop :=
  ∀ height, height ∈ t.l1txSent ↔ height ∈ xs.map Transaction.height

/-- Where the task stands in its plan. -/
inductive Stage (cfg : RelayerConfig) (inter dst : Connector) (log : List (Event τ))
    (t : XtxTask κ) : Prop where
  | idle (hdealing : t.dealing = none) (hmarked : Marked t (dequeued log))
      (hfollows : Follows cfg inter dst log (plan (dequeued log)))
  | waits {h : Dealing κ} {xs : List Transaction} (hdealing : t.dealing = some h)
      (hlog : dequeued log = xs ++ [h.xtx]) (hhand : InHand cfg dst h)
      (hknown : Known cfg inter dst log h.xtx.height h.wait) (hmarked : Marked t xs)
      (hfollows : Follows cfg inter dst log (plan xs))
  | ready {h : Dealing κ} {xs : List Transaction} (hdealing : t.dealing = some h)
      (hlog : dequeued log = xs ++ [h.xtx]) (hhand : InHand cfg dst h) (hwait : h.wait = .ready)
      (hmarked : Marked t (xs ++ [h.xtx]))
      (hfollows : Follows cfg inter dst log (plan xs ++ layer1Of xs h.xtx))
  | broken {e : Exn} {ps : List Planned} (halive : t.alive = false) (hdealing : t.dealing = none)
      (hraised : .raised e ∈ log) (hplan : ps <+: plan (dequeued log))
      (hfollows : Follows cfg inter dst log ps)

omit [Sha256] in
theorem CachedAnswers.mono {cfg : RelayerConfig} {inter dst : Connector}
    {log log' : List (Event τ)} {t : XtxTask κ} (h : CachedAnswers cfg inter dst log t)
    (hsub : log ⊆ log') : CachedAnswers cfg inter dst log' t :=
  ⟨fun hpos => hsub (h.source hpos), fun height n hmem => hsub (h.cs height n hmem),
    fun hpos => hsub (h.relay hpos)⟩

omit [Sha256] in
theorem Known.mono {cfg : RelayerConfig} {inter dst : Connector} {log log' : List (Event τ)}
    {height : Int} {wait : Wait} (h : Known cfg inter dst log height wait) (hsub : log ⊆ log') :
    Known cfg inter dst log' height wait := by
  have hsource : ∀ {pos : Prop} {cn : Connector} {pid bound : Int},
      (pos → ∃ m, bound ≤ m ∧ .answered (.maxXbn cn pid) m ∈ log) →
        pos → ∃ m, bound ≤ m ∧ .answered (.maxXbn cn pid) m ∈ log' := by
    intro pos cn pid bound h hpos
    obtain ⟨m, hm, hmem⟩ := h hpos
    exact ⟨m, hm, hsub hmem⟩
  cases wait with
  | inter => trivial
  | csHeight => exact hsource h
  | dst n => exact ⟨hsource h.1, hsub h.2⟩
  | layer1 n => exact ⟨hsource h.source, hsub h.cs, hsource h.relay⟩
  | ready => exact h

/-- Wherever the task stands, it has followed a first part of the plan. -/
theorem Stage.follows {cfg : RelayerConfig} {inter dst : Connector} {log : List (Event τ)}
    {t : XtxTask κ} (h : Stage cfg inter dst log t) :
    ∃ ps, ps <+: plan (dequeued log) ∧ Follows cfg inter dst log ps := by
  cases h with
  | idle _ _ hfollows => exact ⟨_, List.prefix_rfl, hfollows⟩
  | @waits h xs _ hlog _ _ _ hfollows =>
      refine ⟨_, ?_, hfollows⟩
      rw [hlog, plan_concat, List.append_assoc]
      exact List.prefix_append _ _
  | @ready h xs _ hlog _ _ _ hfollows =>
      refine ⟨_, ?_, hfollows⟩
      rw [hlog, plan_concat]
      exact List.prefix_append _ _
  | broken _ _ _ hplan hfollows => exact ⟨_, hplan, hfollows⟩

/-- An exception without a sending ends the task where it stood. -/
theorem Stage.break {cfg : RelayerConfig} {inter dst : Connector} {log es : List (Event τ)}
    {t t' : XtxTask κ} {e : Exn} (h : Stage cfg inter dst log t) (halive : t'.alive = false)
    (hdealing : t'.dealing = none) (hraised : .raised e ∈ es) (hquiet : sendsFrom log es = []) :
    Stage cfg inter dst (log ++ es) t' := by
  obtain ⟨ps, hplan, hfollows⟩ := h.follows
  refine .broken halive hdealing (List.mem_append_right _ hraised) (hplan.trans ?_)
    (hfollows.quiet hquiet)
  unfold plan
  rw [dequeued_append, planFrom_append]
  exact List.prefix_append _ _

/-- The state a relayer sends is that of the transaction it took. -/
theorem prepare_inHand {cfg : RelayerConfig} {dst : Connector} {link : Link} {time : PyFloat}
    {tag : κ} {xtx : Transaction} {c c' : Chain τ} {hand : Dealing κ}
    (h : prepare cfg dst link time tag xtx c = (.ok hand, c')) :
    hand.xtx = xtx ∧ InHand cfg dst hand ∧ firstWait cfg xtx.height = .ok hand.wait := by
  have hprep := (prepare_run h).2 hand rfl
  have hxtx := hprep.xtx_eq
  refine ⟨hxtx, ⟨?_, hprep.to_, ?_, ?_⟩, hprep.wait⟩
  · unfold prepare at h
    obtain ⟨proof, c1, _, h⟩ := Comp.bind_eq_ok h
    obtain ⟨doc, c2, hdoc, h⟩ := Comp.bind_eq_ok h
    obtain ⟨tx, c3, _, h⟩ := Comp.bind_eq_ok h
    obtain ⟨wait, c4, _, h⟩ := Comp.bind_eq_ok h
    cases h
    exact ⟨doc, proof, (Prod.mk.inj hdoc).1, rfl⟩
  · rw [hxtx]
    exact hprep.data
  · intro k hk
    rw [hxtx]
    exact hprep.memo k hk

end Plan

/-! ## §5. Steps. -/

section Steps

variable {cfg : RelayerConfig} {inter dst : Connector} {log : List (Event τ)} {t : XtxTask κ}
  {h : Dealing κ} {time : PyFloat} {tags : XtxTags κ τ}

omit [Contracts] [Sha256] in
/-- What is counted at the destination are the relay chain's headers. -/
theorem countedPid_eq (hmode : cfg.mode = .tor) (hinter : cfg.inter = some inter) :
    countedPid cfg = inter.pid := by
  unfold countedPid
  rw [hmode, hinter]

omit [Contracts] [Sha256] in
/-- The first layer of a height is sent exactly when it is not marked as done. -/
theorem layer1Of_eq {xs : List Transaction} (hmarked : Marked t xs) (x : Transaction) :
    layer1Of xs x = if x.height ∈ t.l1txSent then [] else [.layer1 x] := by
  unfold layer1Of
  by_cases hseen : x.height ∈ t.l1txSent
  · rw [if_pos hseen, if_pos ((hmarked x.height).mp hseen)]
  · rw [if_neg hseen, if_neg (fun hmem => hseen ((hmarked x.height).mpr hmem))]

omit [Contracts] in
/-- **A decision** of the task, made without asking. -/
theorem decide_stage (hmode : cfg.mode = .tor) {xs : List Transaction}
    (hlog : dequeued log = xs ++ [h.xtx]) (hhand : InHand cfg dst h)
    (hknown : Known cfg inter dst log h.xtx.height h.wait) (hmarked : Marked t xs)
    (hfollows : Follows cfg inter dst log (plan xs)) (hcached : CachedAnswers cfg inter dst log t)
    (hnext : nextRequest cfg (some inter) dst time tags t h = .ok none) :
    Stage cfg inter dst log (resume cfg t h none)
      ∧ CachedAnswers cfg inter dst log (resume cfg t h none) := by
  unfold nextRequest at hnext
  unfold resume
  cases hwait : h.wait with
  | inter =>
      rw [hwait] at hnext
      dsimp only at hnext
      have hge : ¬ t.syncedInterHeight < h.xtx.height := by
        intro hlt
        rw [if_pos hlt] at hnext
        cases hnext
      refine ⟨.waits rfl hlog ⟨hhand.state, hhand.to_, hhand.data, hhand.memo⟩ ?_ hmarked hfollows,
        ⟨hcached.source, hcached.cs, hcached.relay⟩⟩
      -- the cached maximum is an answer, as it reaches a positive height
      intro hpos
      have hle : h.xtx.height ≤ t.syncedInterHeight := by omega
      exact ⟨t.syncedInterHeight, hle, hcached.source (lt_of_lt_of_le hpos hle)⟩
  | csHeight =>
      rw [hwait] at hnext hknown
      dsimp only at hnext
      cases hlookup : t.torCsHeightOnInter.lookup h.xtx.height with
      | none =>
          rw [hlookup] at hnext
          cases hnext
      | some n =>
          have hmem : (h.xtx.height, n) ∈ t.torCsHeightOnInter := by
            obtain ⟨k, l, heq, _⟩ := List.lookup_eq_some_iff.mp hlookup
            rw [heq]
            exact List.mem_append_right _ List.mem_cons_self
          exact ⟨.waits rfl hlog ⟨hhand.state, hhand.to_, hhand.data, hhand.memo⟩
            ⟨hknown, hcached.cs _ n hmem⟩ hmarked hfollows,
            ⟨hcached.source, hcached.cs, hcached.relay⟩⟩
  | dst n =>
      rw [hwait] at hnext hknown
      dsimp only at hnext
      have hge : ¬ t.syncedHeight < n := by
        intro hlt
        rw [if_pos hlt] at hnext
        cases hnext
      simp only [hmode, if_true]
      refine ⟨.waits rfl hlog ⟨hhand.state, hhand.to_, hhand.data, hhand.memo⟩
        ⟨hknown.1, hknown.2, ?_⟩ hmarked hfollows, ⟨hcached.source, hcached.cs, hcached.relay⟩⟩
      intro hpos
      exact ⟨t.syncedHeight, by omega, hcached.relay (by omega)⟩
  | layer1 n =>
      rw [hwait] at hnext
      dsimp only at hnext
      have hsent : h.xtx.height ∈ t.l1txSent := by
        by_contra hno
        rw [if_neg hno] at hnext
        cases hnext
      have hnone : layer1Of xs h.xtx = [] := by rw [layer1Of_eq hmarked, if_pos hsent]
      refine ⟨.ready rfl hlog ⟨hhand.state, hhand.to_, hhand.data, hhand.memo⟩ rfl ?_ ?_,
        ⟨hcached.source, hcached.cs, hcached.relay⟩⟩
      · intro height
        rw [List.map_append, List.mem_append, ← hmarked height]
        constructor
        · exact Or.inl
        · rintro (hmem | hmem)
          · exact hmem
          · rw [List.mem_singleton.mp hmem]
            exact hsent
      · show Follows cfg inter dst log (plan xs ++ layer1Of xs h.xtx)
        rw [hnone, List.append_nil]
        exact hfollows
  | ready =>
      rw [hwait] at hknown
      exact hknown.elim

omit [Contracts] in
/-- **A query and its answer.** -/
theorem answered_stage (hmode : cfg.mode = .tor) (hinter : cfg.inter = some inter)
    {xs : List Transaction} {r : Request τ}
    (hlog : dequeued log = xs ++ [h.xtx]) (hdealing : t.dealing = some h)
    (hhand : InHand cfg dst h) (hknown : Known cfg inter dst log h.xtx.height h.wait)
    (hmarked : Marked t xs) (hfollows : Follows cfg inter dst log (plan xs))
    (hcached : CachedAnswers cfg inter dst log t)
    (hnext : nextRequest cfg (some inter) dst time tags t h = .ok (some r)) (n : Int) :
    Stage cfg inter dst (log ++ requestEvents r (.ok n)) (resume cfg t h (some n))
      ∧ CachedAnswers cfg inter dst (log ++ requestEvents r (.ok n)) (resume cfg t h (some n)) := by
  unfold nextRequest at hnext
  unfold resume
  have hsub : ∀ es : List (Event τ), log ⊆ log ++ es := fun es => List.subset_append_left log es
  have hlast : ∀ r : Request τ, .answered r n ∈ log ++ requestEvents r (.ok n) := fun r =>
    List.mem_append_right _ (List.mem_cons_of_mem _ List.mem_cons_self)
  have hdequeued : ∀ r : Request τ, dequeued (log ++ requestEvents r (.ok n)) = dequeued log := by
    intro r
    rw [dequeued_append]
    exact List.append_nil _
  cases hwait : h.wait with
  | inter =>
      rw [hwait] at hnext
      dsimp only at hnext
      split at hnext
      next =>
          cases hnext
          refine ⟨.waits hdealing ((hdequeued _).trans hlog) hhand (hknown.mono (hsub _)) hmarked
            (hfollows.quiet rfl), ⟨fun _ => hlast _, ?_, ?_⟩⟩
          · exact (hcached.mono (hsub _)).cs
          · exact (hcached.mono (hsub _)).relay
      next => cases hnext
  | csHeight =>
      rw [hwait] at hnext hknown
      dsimp only at hnext
      split at hnext
      next =>
          cases hnext
          refine ⟨.waits rfl ((hdequeued _).trans hlog)
            ⟨hhand.state, hhand.to_, hhand.data, hhand.memo⟩ ⟨hknown.mono (hsub _), hlast _⟩
            hmarked (hfollows.quiet rfl), ⟨(hcached.mono (hsub _)).source, ?_,
            (hcached.mono (hsub _)).relay⟩⟩
          intro height m hmem
          rcases List.mem_cons.mp hmem with heq | hmem
          · cases heq
            exact hlast _
          · exact (hcached.mono (hsub _)).cs height m hmem
      next => cases hnext
  | dst m =>
      rw [hwait] at hnext
      dsimp only at hnext
      rw [countedPid_eq hmode hinter] at hnext
      split at hnext
      next =>
          cases hnext
          exact ⟨.waits hdealing ((hdequeued _).trans hlog) hhand (hknown.mono (hsub _)) hmarked
            (hfollows.quiet rfl), ⟨(hcached.mono (hsub _)).source, (hcached.mono (hsub _)).cs,
            fun _ => hlast _⟩⟩
      next => cases hnext
  | layer1 m =>
      rw [hwait] at hnext hknown
      dsimp only at hnext
      split at hnext
      next => cases hnext
      next hnot =>
          cases hnext
          have hone : layer1Of xs h.xtx = [.layer1 h.xtx] := by
            rw [layer1Of_eq hmarked, if_neg hnot]
          refine ⟨.ready rfl ((hdequeued _).trans hlog)
            ⟨hhand.state, hhand.to_, hhand.data, hhand.memo⟩ rfl ?_ ?_,
            ⟨(hcached.mono (hsub _)).source, (hcached.mono (hsub _)).cs,
              (hcached.mono (hsub _)).relay⟩⟩
          · intro height
            rw [List.map_append, List.mem_append, ← hmarked height, List.mem_cons, or_comm]
            exact or_congr_right List.mem_singleton.symm
          · show Follows cfg inter dst _ (plan xs ++ layer1Of xs h.xtx)
            rw [hone]
            exact hfollows.send rfl (.layer1 hhand.state hknown)
  | ready =>
      rw [hwait] at hknown
      exact hknown.elim

omit [Contracts] in
/-- **A call that raises**: a query ends the task where it stood, the sending of a
first layer one part of the plan later. -/
theorem raised_stage {xs : List Transaction} {r : Request τ}
    (hlog : dequeued log = xs ++ [h.xtx]) (hdealing : t.dealing = some h)
    (hhand : InHand cfg dst h) (hknown : Known cfg inter dst log h.xtx.height h.wait)
    (hmarked : Marked t xs) (hfollows : Follows cfg inter dst log (plan xs))
    (hnext : nextRequest cfg (some inter) dst time tags t h = .ok (some r)) (e : Exn) :
    Stage cfg inter dst (log ++ requestEvents r (.error e))
      ({ t with alive := false, dealing := none } : XtxTask κ) := by
  have hstage : Stage cfg inter dst log t := .waits hdealing hlog hhand hknown hmarked hfollows
  have hin : ∀ r : Request τ, .raised e ∈ requestEvents r (.error e) := fun r =>
    List.mem_cons_of_mem _ List.mem_cons_self
  unfold nextRequest at hnext
  cases hwait : h.wait with
  | inter =>
      rw [hwait] at hnext
      dsimp only at hnext
      split at hnext
      next =>
          cases hnext
          exact hstage.break rfl rfl (hin _) rfl
      next => cases hnext
  | csHeight =>
      rw [hwait] at hnext
      dsimp only at hnext
      split at hnext
      next =>
          cases hnext
          exact hstage.break rfl rfl (hin _) rfl
      next => cases hnext
  | dst m =>
      rw [hwait] at hnext
      dsimp only at hnext
      split at hnext
      next =>
          cases hnext
          exact hstage.break rfl rfl (hin _) rfl
      next => cases hnext
  | layer1 m =>
      rw [hwait] at hnext hknown
      dsimp only at hnext
      split at hnext
      next => cases hnext
      next hnot =>
          cases hnext
          have hone : layer1Of xs h.xtx = [.layer1 h.xtx] := by
            rw [layer1Of_eq hmarked, if_neg hnot]
          refine .broken rfl rfl (List.mem_append_right _ (hin _)) ?_
            (hfollows.send rfl (.layer1 hhand.state hknown))
          rw [dequeued_append, hlog]
          show _ <+: plan (xs ++ [h.xtx] ++ [])
          rw [List.append_nil, plan_concat, hone]
          exact List.prefix_append _ _
  | ready =>
      rw [hwait] at hknown
      exact hknown.elim

omit [Contracts] in
/-- **The sending of the second layer**, whether or not it raises. -/
theorem ready_follows {xs : List Transaction} {r : Request τ}
    (hlog : dequeued log = xs ++ [h.xtx]) (hhand : InHand cfg dst h) (hwait : h.wait = .ready)
    (hfollows : Follows cfg inter dst log (plan xs ++ layer1Of xs h.xtx))
    (hnext : nextRequest cfg (some inter) dst time tags t h = .ok (some r))
    (res : Except Exn Int) :
    dequeued (log ++ requestEvents r res) = xs ++ [h.xtx]
      ∧ Follows cfg inter dst (log ++ requestEvents r res) (plan (xs ++ [h.xtx])) := by
  unfold nextRequest at hnext
  rw [hwait] at hnext
  obtain ⟨tx, hmark, hnext⟩ := except_bind_ok hnext
  cases hnext
  obtain ⟨memo, hmemo, rfl⟩ := markTx_eq_ok hmark
  have hcarries : Carries cfg inter dst (log, { h.tx with memo := memo }) (.layer2 h.xtx) := by
    refine .layer2 hhand.state hhand.to_ hhand.data fun k hk => ?_
    show memoField memo k = _
    rw [memoField_stampRelayer hmemo hk]
    exact hhand.memo k hk
  constructor
  · rw [dequeued_append, hlog]
    cases res <;> exact List.append_nil _
  · rw [plan_concat]
    cases res with
    | ok n => exact hfollows.send rfl hcarries
    | error e => exact hfollows.send rfl hcarries

omit [Contracts] [Sha256] in
/-- The transaction built is either marked and sent, or the mark raises. -/
theorem ready_request (hwait : h.wait = .ready) {inter : Option Connector} {r : Option (Request τ)}
    (hnext : nextRequest cfg inter dst time tags t h = .ok r) : ∃ q, r = some q := by
  unfold nextRequest at hnext
  rw [hwait] at hnext
  obtain ⟨tx, _, hnext⟩ := except_bind_ok hnext
  exact ⟨_, (Except.ok.inj hnext).symm⟩

omit [Contracts] in
/-- A live task with a transaction in hand waits, or is about to send it. -/
theorem Stage.busy (hstage : Stage cfg inter dst log t) (halive : t.alive = true)
    (hdealing : t.dealing = some h) :
    ∃ xs, dequeued log = xs ++ [h.xtx] ∧ InHand cfg dst h
      ∧ (Known cfg inter dst log h.xtx.height h.wait ∧ Marked t xs
          ∧ Follows cfg inter dst log (plan xs)
        ∨ h.wait = .ready ∧ Marked t (xs ++ [h.xtx])
          ∧ Follows cfg inter dst log (plan xs ++ layer1Of xs h.xtx)) := by
  cases hstage with
  | idle hnone =>
      rw [hnone] at hdealing
      cases hdealing
  | waits hd hlog hhand hknown hmarked hfollows =>
      cases hd.symm.trans hdealing
      exact ⟨_, hlog, hhand, Or.inl ⟨hknown, hmarked, hfollows⟩⟩
  | ready hd hlog hhand hwait hmarked hfollows =>
      cases hd.symm.trans hdealing
      exact ⟨_, hlog, hhand, Or.inr ⟨hwait, hmarked, hfollows⟩⟩
  | broken hno =>
      rw [hno] at halive
      cases halive

/-- **A step with a transaction in hand.** -/
theorem advance_stage {link : Link} {put : PyFloat} {d d' : DstTool κ} {cs cs' : Int → Chain τ}
    (hmode : cfg.mode = .tor) (hinter : cfg.inter = some inter)
    (hstage : Stage cfg inter dst log d.xtxTask)
    (hcached : CachedAnswers cfg inter dst log d.xtxTask)
    (hrun : advance cfg dst link time put tags d cs = some (d', cs')) :
    Stage cfg inter dst (log ++ advanceEvents cfg dst link time put tags d.xtxTask cs) d'.xtxTask
      ∧ CachedAnswers cfg inter dst
        (log ++ advanceEvents cfg dst link time put tags d.xtxTask cs) d'.xtxTask := by
  unfold advance at hrun
  generalize d.xtxTask = t at hstage hcached hrun ⊢
  split at hrun
  next halive =>
      split at hrun
      next => cases hrun
      next h hdealing =>
          rw [advanceDealing_eq, hinter] at hrun
          unfold advanceEvents
          rw [hdealing, hinter]
          dsimp only
          -- the caches of a task that ends are as before
          have hdead : ∀ es : List (Event τ), CachedAnswers cfg inter dst (log ++ es)
              ({ t with alive := false, dealing := none } : XtxTask κ) := by
            intro es
            have hmono := hcached.mono (List.subset_append_left log es)
            exact ⟨hmono.source, hmono.cs, hmono.relay⟩
          obtain ⟨xs, hlog, hhand, hbusy⟩ := hstage.busy halive hdealing
          rcases hnext : nextRequest cfg (some inter) dst time tags t h with e | r
          · rw [hnext] at hrun
            cases hrun
            exact ⟨hstage.break rfl rfl List.mem_cons_self rfl, hdead _⟩
          · rw [hnext] at hrun
            rcases hbusy with ⟨hknown, hmarked, hfollows⟩ | ⟨hwait, hmarked, hfollows⟩
            · -- still waiting
              cases r with
              | none =>
                  cases hrun
                  rw [List.append_nil]
                  exact decide_stage hmode hlog hhand hknown hmarked hfollows hcached hnext
              | some r =>
                  dsimp only at hrun ⊢
                  rw [Comp.bind_run] at hrun
                  rcases hperform : perform dst link put r cs with ⟨e | n, cs1⟩
                  · rw [hperform] at hrun
                    cases hrun
                    exact ⟨raised_stage hlog hdealing hhand hknown hmarked hfollows hnext e, hdead _⟩
                  · rw [hperform] at hrun
                    cases hrun
                    exact answered_stage hmode hinter hlog hdealing hhand hknown hmarked hfollows
                      hcached hnext n
            · -- the second layer
              obtain ⟨r, rfl⟩ := ready_request hwait hnext
              dsimp only at hrun ⊢
              rw [Comp.bind_run] at hrun
              rcases hperform : perform dst link put r cs with ⟨e | n, cs1⟩
              · rw [hperform] at hrun
                cases hrun
                obtain ⟨hall, hfollows⟩ := ready_follows hlog hhand hwait hfollows hnext (.error e)
                refine ⟨.broken rfl rfl (List.mem_append_right _ (List.mem_cons_of_mem _
                  List.mem_cons_self)) ?_ hfollows, hdead _⟩
                show _ <+: plan (dequeued (log ++ requestEvents r (.error e)))
                simp only [hall, List.prefix_rfl]
              · rw [hperform] at hrun
                cases hrun
                obtain ⟨hall, hfollows⟩ := ready_follows hlog hhand hwait hfollows hnext (.ok n)
                have hmono := hcached.mono (List.subset_append_left log (requestEvents r (.ok n)))
                unfold resume
                rw [hwait]
                refine ⟨.idle rfl ?_ ?_, ⟨hmono.source, hmono.cs, hmono.relay⟩⟩
                · show Marked t (dequeued (log ++ requestEvents r (.ok n)))
                  rw [hall]
                  exact hmarked
                · show Follows cfg inter dst _ (plan (dequeued (log ++ requestEvents r (.ok n))))
                  rw [hall]
                  exact hfollows
  next => cases hrun

omit [Contracts] in
/-- **The head of the loop.** -/
theorem take_stage {link : Link} {d d' : DstTool κ} {c c' : Chain τ} (hpap : cfg.isPap = true)
    (hstage : Stage cfg inter dst log d.xtxTask)
    (hcached : CachedAnswers cfg inter dst log d.xtxTask)
    (hrun : takeXtx cfg dst link time d c = some (d', c')) :
    Stage cfg inter dst (log ++ takeEvents cfg dst link time d c) d'.xtxTask
      ∧ CachedAnswers cfg inter dst (log ++ takeEvents cfg dst link time d c) d'.xtxTask := by
  unfold takeXtx at hrun
  unfold takeEvents
  split at hrun
  next hgo =>
      obtain ⟨halive, hnone⟩ := Bool.and_eq_true_iff.mp hgo
      have hdealing : d.xtxTask.dealing = none := Option.isNone_iff_eq_none.mp hnone
      have hidle : Marked d.xtxTask (dequeued log)
          ∧ Follows cfg inter dst log (plan (dequeued log)) := by
        cases hstage with
        | idle _ hmarked hfollows => exact ⟨hmarked, hfollows⟩
        | waits hd =>
            rw [hd] at hdealing
            cases hdealing
        | ready hd =>
            rw [hd] at hdealing
            cases hdealing
        | broken hno =>
            rw [hno] at halive
            cases halive
      obtain ⟨hmarked, hfollows⟩ := hidle
      split at hrun
      next => cases hrun
      next rest hqueue =>
          -- the stop signal
          cases hrun
          rw [hqueue, List.append_nil]
          exact ⟨.idle hdealing hmarked hfollows, ⟨hcached.source, hcached.cs, hcached.relay⟩⟩
      next tag xtx rest hqueue =>
          rw [hqueue]
          dsimp only
          have hmono := fun es : List (Event τ) => hcached.mono (List.subset_append_left log es)
          rcases hp : prepare cfg dst link time tag xtx c with ⟨e | hand, c1⟩
          · rw [hp] at hrun
            cases hrun
            exact ⟨hstage.break rfl hdealing (List.mem_cons_of_mem _ List.mem_cons_self) rfl,
              ⟨(hmono _).source, (hmono _).cs, (hmono _).relay⟩⟩
          · rw [hp] at hrun
            cases hrun
            obtain ⟨rfl, hhand, hwait⟩ := prepare_inHand hp
            have hinter : hand.wait = .inter := by
              obtain ⟨hmode, _⟩ := Bool.and_eq_true_iff.mp hpap
              have hmode : cfg.mode = .tor := by simpa using hmode
              unfold firstWait at hwait
              rw [hmode, hpap] at hwait
              exact (Except.ok.inj hwait).symm
            have hknown : Known cfg inter dst (log ++ [Event.dequeued hand.xtx]) hand.xtx.height
                hand.wait := by
              rw [hinter]
              trivial
            exact ⟨.waits rfl (dequeued_append _ _) hhand hknown hmarked (hfollows.quiet rfl),
              ⟨(hmono _).source, (hmono _).cs, (hmono _).relay⟩⟩
  next => cases hrun

/-- What holds of the task in every state of a run. -/
structure TaskInv (cfg : RelayerConfig) (inter dst : Connector) (w : Watched κ τ) : Prop where
  stage : Stage cfg inter dst w.log w.tool.xtxTask
  cached : CachedAnswers cfg inter dst w.log w.tool.xtxTask

/-- **A step keeps the task on its plan.** -/
theorem step_follows (hpap : cfg.isPap = true) (hinter : cfg.inter = some inter)
    {w w' : Watched κ τ} {a : TaskAction κ τ} (hinv : TaskInv cfg inter dst w)
    (hstep : taskStep cfg dst w a = some w') : TaskInv cfg inter dst w' := by
  have hmode : cfg.mode = .tor := by
    obtain ⟨hmode, _⟩ := Bool.and_eq_true_iff.mp hpap
    simpa using hmode
  cases a with
  | put es =>
      cases hstep
      exact ⟨hinv.stage, hinv.cached⟩
  | take link time c =>
      unfold taskStep at hstep
      rcases hrun : takeXtx cfg dst link time w.tool c with _ | ⟨d, c'⟩
      · simp only [hrun] at hstep
        cases hstep
      · simp only [hrun] at hstep
        cases hstep
        obtain ⟨hstage, hcached⟩ := take_stage hpap hinv.stage hinv.cached hrun
        exact ⟨hstage, hcached⟩
  | advance link time put tags cs =>
      unfold taskStep at hstep
      rcases hrun : advance cfg dst link time put tags w.tool cs with _ | ⟨d, cs'⟩
      · simp only [hrun] at hstep
        cases hstep
      · simp only [hrun] at hstep
        cases hstep
        obtain ⟨hstage, hcached⟩ := advance_stage hmode hinter hinv.stage hinv.cached hrun
        exact ⟨hstage, hcached⟩

end Steps

/-- The task before its first transaction, with any queue. -/
def watched (queue : List (Option (κ × Transaction))) : Watched κ τ where
  tool := { queueXtx := queue }

omit [Contracts] in
theorem watched_inv (cfg : RelayerConfig) (inter dst : Connector)
    (queue : List (Option (κ × Transaction))) :
    TaskInv cfg inter dst (watched queue : Watched κ τ) := by
  refine ⟨.idle rfl (fun height => Iff.rfl) .nil, ⟨?_, ?_, ?_⟩⟩
  · exact fun hpos => absurd hpos (lt_irrefl _)
  · exact fun height n hmem => nomatch hmem
  · exact fun hpos => absurd hpos (lt_irrefl _)

/-- **The sendings of any run follow the plan**: they are a first part of it, each
first layer sent after what it needs was reported; and where nothing was raised
they are all of it, up to the transaction in hand. -/
theorem sends_follow_plan (cfg : RelayerConfig) (inter dst : Connector) (hpap : cfg.isPap = true)
    (hinter : cfg.inter = some inter) (queue : List (Option (κ × Transaction)))
    (acts : List (TaskAction κ τ)) (w : Watched κ τ)
    (hrun : runFrom (taskStep cfg dst) (watched queue) acts = some w) :
    ∃ ps, ps <+: plan (dequeued w.log) ∧ Follows cfg inter dst w.log ps
      ∧ ((∀ e, .raised e ∉ w.log) →
        (w.tool.xtxTask.dealing = none → ps = plan (dequeued w.log))
        ∧ ∀ h, w.tool.xtxTask.dealing = some h →
          ∃ xs, dequeued w.log = xs ++ [h.xtx] ∧ plan xs <+: ps) := by
  have hinv : TaskInv cfg inter dst w := run_invariant
    (fun _ _ _ hinv hstep => step_follows hpap hinter hinv hstep) acts hrun (watched_inv _ _ _ _)
  cases hinv.stage with
  | idle hdealing _ hfollows =>
      refine ⟨_, List.prefix_rfl, hfollows, fun _ => ⟨fun _ => rfl, fun h hsome => ?_⟩⟩
      rw [hdealing] at hsome
      cases hsome
  | @waits h xs hdealing hlog _ _ _ hfollows =>
      refine ⟨plan xs, ?_, hfollows, fun _ => ⟨fun hnone => ?_, fun h' hsome => ?_⟩⟩
      · rw [hlog, plan_concat, List.append_assoc]
        exact List.prefix_append _ _
      · rw [hdealing] at hnone
        cases hnone
      · cases hdealing.symm.trans hsome
        exact ⟨xs, hlog, List.prefix_rfl⟩
  | @ready h xs hdealing hlog _ _ _ hfollows =>
      refine ⟨plan xs ++ layer1Of xs h.xtx, ?_, hfollows,
        fun _ => ⟨fun hnone => ?_, fun h' hsome => ?_⟩⟩
      · rw [hlog, plan_concat]
        exact List.prefix_append _ _
      · rw [hdealing] at hnone
        cases hnone
      · cases hdealing.symm.trans hsome
        exact ⟨xs, hlog, List.prefix_append _ _⟩
  | @broken e ps _ _ hraised hplan hfollows =>
      exact ⟨ps, hplan, hfollows, fun hno => absurd hraised (hno e)⟩

/-! ## §6. Two runs between two parachains. -/

omit [Contracts] [Sha256]

/-- The relay chain. -/
def papInter : Connector where
  pid := 30000
  paratype := "Tendermint"
  isinter := true

/-- The destination. -/
def papDst : Connector where
  pid := 2
  paratype := "Ethereum"

/-- A relayer from chain `1` to chain `2`, over the relay chain. -/
def papRelayer : RelayerConfig where
  src := { pid := 1, paratype := "Tendermint" }
  mode := .tor
  rlytp := some .pap
  inter := some papInter
  dsts := [papDst]
  pids_nodup := by decide
  src_not_dst := by decide
  rlytp_iff := by decide
  pap_inter := by decide

/-- A transaction of the first block of chain `1`. -/
def papTx : Transaction where
  to_ := .str "lightclient"
  memo := memoOf [("type", .str TranMemo.ctxDst), ("dst", .int 2)]
  height := 1
  status := .success

/-- The relay chain confirmed the first header of chain `1` at the height `n`, and
chain `2` has the first header of the relay chain. -/
def papChains (n : Int) (pid : Int) : Chain Nat :=
  if pid = 30000 then
    { Chain.started with
      store := (Chain.started.store.set "header-1-0" "1").set "header-1-1"
        (Json.dumps (.obj [("header", .str ""), ("cs_height", .int n)])) }
  else { Chain.started with store := Chain.started.store.set "header-30000-0" "1" }

/-- The transaction is taken, and `k` steps follow with all requests answered. -/
def papActions (n : Int) (k : Nat) : List (TaskAction Nat Nat) :=
  .take .delivered PyFloat.zero (papChains n 1)
    :: List.replicate k (.advance .delivered PyFloat.zero PyFloat.zero
        { layer1 := fun _ => 1, xtx := fun _ _ => 2 } (papChains n))

/-- Both layers are sent, and nothing is raised. -/
theorem sends_follow_plan_sample :
    ∃ w, runFrom (@taskStep Nat Nat Contracts.plain Sha256.plain papRelayer papDst)
        (watched [some (0, papTx)]) (papActions 1 7) = some w
      ∧ (sends w.log).length = 2
      ∧ ∃ ps, ps <+: plan (dequeued w.log)
        ∧ @Follows Nat Sha256.plain papRelayer papInter papDst w.log ps
        ∧ ((∀ e, .raised e ∉ w.log) →
          (w.tool.xtxTask.dealing = none → ps = plan (dequeued w.log))
          ∧ ∀ h, w.tool.xtxTask.dealing = some h →
            ∃ xs, dequeued w.log = xs ++ [h.xtx] ∧ plan xs <+: ps) := by
  have hlen : (runFrom (@taskStep Nat Nat Contracts.plain Sha256.plain papRelayer papDst)
      (watched [some (0, papTx)]) (papActions 1 7)).map (fun w => (sends w.log).length) = some 2 := by
    decide +kernel
  obtain ⟨w, hrun, hlen⟩ := Option.map_eq_some_iff.mp hlen
  exact ⟨w, hrun, hlen, @sends_follow_plan Nat Nat Contracts.plain Sha256.plain papRelayer papInter
    papDst (by decide) rfl _ _ w hrun⟩

/-- Chain `pid` reported some maximum. -/
def reportedBy (pid : Int) (log : List (Event Nat)) : Bool :=
  log.any fun e => match e with
    | .answered (.maxXbn cn _) _ => cn.pid == pid
    | _ => false

/-- A plan starts with a first layer. -/
theorem plan_starts {p : Planned} {ps : List Planned} {xs : List Transaction}
    (h : p :: ps <+: plan xs) : ∃ x, p = .layer1 x := by
  cases xs with
  | nil =>
      obtain ⟨_, hnil⟩ := h
      cases hnil
  | cons x xs =>
      obtain ⟨rest, heq⟩ := h
      exact ⟨x, (List.cons.inj heq).1⟩

/-- **A first layer can be sent without a report of the destination**: where the relay
chain answers the height `0`, the initial maximum is enough. -/
theorem layer1_unreported :
    ∃ (w : Watched Nat Nat) (before : List (Event Nat)) (tx x : Transaction),
      runFrom (@taskStep Nat Nat Contracts.plain Sha256.plain papRelayer papDst)
        (watched [some (0, papTx)]) (papActions 0 5) = some w
      ∧ (before, tx) ∈ sends w.log
      ∧ @Carries Nat Sha256.plain papRelayer papInter papDst (before, tx) (.layer1 x)
      ∧ ∀ pid m, .answered (.maxXbn papDst pid) m ∉ before := by
  have hview : (runFrom (@taskStep Nat Nat Contracts.plain Sha256.plain papRelayer papDst)
      (watched [some (0, papTx)]) (papActions 0 5)).map
        (fun w => (sends w.log).map (fun s => reportedBy 2 s.1)) = some [false] := by
    decide +kernel
  obtain ⟨w, hrun, hview⟩ := Option.map_eq_some_iff.mp hview
  obtain ⟨⟨before, tx⟩, hsends, hbefore⟩ := List.map_eq_singleton_iff.mp hview
  have hinv : @TaskInv Nat Nat Sha256.plain papRelayer papInter papDst w := run_invariant
    (fun _ _ _ hinv hstep => @step_follows Nat Nat Contracts.plain Sha256.plain _ _ _
      (by decide) rfl _ _ _ hinv hstep) _ hrun (@watched_inv Nat Nat Sha256.plain _ _ _ _)
  obtain ⟨ps, hplan, hfollows⟩ := @Stage.follows Nat Nat Sha256.plain _ _ _ _ _
    (@TaskInv.stage Nat Nat Sha256.plain _ _ _ _ hinv)
  unfold Follows at hfollows
  rw [hsends] at hfollows
  obtain ⟨p, rest, hcarries, rfl⟩ : ∃ p rest, @Carries Nat Sha256.plain papRelayer papInter papDst
      (before, tx) p ∧ ps = p :: rest := by
    cases hfollows with
    | cons hp _ => exact ⟨_, _, hp, rfl⟩
  obtain ⟨x, rfl⟩ := plan_starts hplan
  refine ⟨w, before, tx, x, hrun, ?_, hcarries, fun pid m hmem => ?_⟩
  · rw [hsends]
    exact List.mem_cons_self
  · have hsome : reportedBy 2 before = true := List.any_eq_true.mpr ⟨_, hmem, rfl⟩
    rw [hbefore] at hsome
    cases hsome

end RelayerUnix

end TorSim
