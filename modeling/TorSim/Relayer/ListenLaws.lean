/-
  TorSim.Relayer.ListenLaws — a round of `listen_block` on a committed block.

  The round raises on the first transaction it cannot pass on: the destination
  in the memo is no integer, it is not one of the relayer's, or the time marks
  hold something other than a list.  The transactions behind it are not looked
  at, and unless the exception's text mentions a missing block the loop ends.

  Main results:
    * `forward_iff` — a transaction passes without an exception exactly where its
      memo is `passable`.
    * `filterBlock_returns_iff` — so does a block, with the destinations of its header.
    * `filterBlock_error` — an exception ends the loop, where every next hop is a number.
    * `meant_forwards` — **what joins a queue is what is meant for it**, in order.
    * `listen_handles_iff` — **a round on a committed block handles it exactly
      where the block passes**, in every run of the source chain.
-/
import TorSim.Relayer.TaskLaws
import TorSim.Relayer.Statuses

namespace TorSim

open TorSim.Lib

variable {κ τ : Type}

namespace RelayerUnix

/-! ## §1. When a transaction passes. -/

/-- Where a hop leads: the relay chain, or the integer in the memo, `-1` without one. -/
def hopPid (hop : Option Int) (dst : Option Json) : Except Exn Int :=
  match hop with
  | some pid => .ok pid
  | none => (dst.getD (.int (-1))).toInt

/-- A relayer can deal with the transaction: it is not to be forwarded, or its next
hop is an integer, and that is `-1` or a destination of the relayer, which can then
add its mark. -/
def passable (cfg : RelayerConfig) (tx : Transaction) : Bool :=
  tx.status != .success ||
    match (memoField tx.memo "type").bind (nextHop cfg) with
    | none => true
    | some (_, hop) =>
        match hopPid hop (memoField tx.memo "dst") with
        | .error _ => false
        | .ok pid => pid == -1 || (decide (pid ∈ cfg.allPids) && markable tx.memo)

/-- A relayer can deal with a block: the destinations of its header are the
relayer's, and every transaction is passable. -/
def passes (cfg : RelayerConfig) (txs : List Transaction) : Bool :=
  (headerTargets cfg).all (fun pid => decide (pid ∈ cfg.allPids)) && txs.all (passable cfg)

/-- `forward` on a memo with time marks, written over its entries. -/
theorem forward_of_loads {cfg : RelayerConfig} {time : PyFloat} {tx : Transaction}
    {kvs : List (String × Json)} (hm : Json.loadsValue tx.memo = .ok (.obj kvs))
    (hs : tx.status = .success) :
    forward cfg time tx = match (memoField tx.memo "type").bind (nextHop cfg) with
      | none => .ok none
      | some (ty, hop) => do
          let pid ← hopPid hop (memoField tx.memo "dst")
          if pid = -1 then return none
          else do
            let tx' ← markTx "listened" time { tx with memo := rewriteMemo kvs ty cfg.src.pid }
            return some (pid, tx') := by
  have hxtx : isXtx tx = .ok (((kvs.lookup "type").getD .null).isStr TranMemo.ctxSrc
      || ((kvs.lookup "type").getD .null).isStr TranMemo.ctxInter) := by
    rw [isXtx, hm]
    rfl
  have hok : (tx.status == .success) = true := by rw [hs]; rfl
  rw [memoField_of_loads hm, memoField_of_loads hm, forward, hxtx]
  cases hty : kvs.lookup "type" with
  | none => rfl
  | some ty =>
      cases hn : nextHop cfg ty with
      | none =>
          -- a cross-chain type without a next hop goes to `-1`, the others nowhere
          simp only [bind, Except.bind, Option.bind, hn, Option.getD_some, hok, Bool.and_true]
          split
          next =>
              rw [parseNextPid, hm]
              simp only [bind, Except.bind, Json.getItem, hty, hn]
              rfl
          next => rfl
      | some r =>
          obtain ⟨ty', hop⟩ := r
          have hgo := isXtx_of_nextHop hn
          simp only [bind, Except.bind, Option.bind, hn, Option.getD_some, hok, hgo,
            Bool.and_self, if_true]
          rw [parseNextPid, hm]
          simp only [bind, Except.bind, Json.getItem, hty, hn]
          cases hop with
          | some pid => rfl
          | none =>
              simp only [hopPid, Json.get]
              cases ((kvs.lookup "dst").getD (.int (-1))).toInt with
              | error e => rfl
              | ok pid => rfl

/-- **A transaction passes without an exception exactly where it is passable.** -/
theorem forward_iff {cfg : RelayerConfig} {tx : Transaction} (hst : Stamped tx.memo)
    (time : PyFloat) :
    (∃ next, forward cfg time tx = .ok next ∧ ∀ p tx', next = some (p, tx') → p ∈ cfg.allPids)
      ↔ passable cfg tx = true := by
  obtain ⟨kvs, ts, hm, hts⟩ := hst
  have hst : Stamped tx.memo := ⟨kvs, ts, hm, hts⟩
  by_cases hs : tx.status = .success
  · have hgo : (tx.status != .success) = false := by rw [hs]; rfl
    rw [forward_of_loads hm hs, passable, hgo, Bool.false_or]
    cases hhop : (memoField tx.memo "type").bind (nextHop cfg) with
    | none => exact ⟨fun _ => rfl, fun _ => ⟨none, rfl, fun _ _ h => nomatch h⟩⟩
    | some r =>
        obtain ⟨ty, hop⟩ := r
        dsimp only
        cases hpid : hopPid hop (memoField tx.memo "dst") with
        | error e => exact ⟨fun ⟨_, h, _⟩ => (nomatch h), fun h => (nomatch h)⟩
        | ok pid =>
            have hmark : (∃ tx', markTx "listened" time
                { tx with memo := rewriteMemo kvs ty cfg.src.pid } = .ok tx')
                ↔ markable tx.memo = true := by
              rw [← markable_rewriteMemo hm ty cfg.src.pid,
                ← stampRelayer_of_stamped (stamped_rewriteMemo hst hm ty cfg.src.pid) "listened" time]
              constructor
              · rintro ⟨tx', htx'⟩
                obtain ⟨memo, hmemo, _⟩ := markTx_eq_ok htx'
                exact ⟨memo, hmemo⟩
              · rintro ⟨memo, hmemo⟩
                exact ⟨_, by rw [markTx, hmemo]; rfl⟩
            by_cases hneg : pid = -1
            · subst hneg
              exact ⟨fun _ => rfl, fun _ => ⟨none, rfl, fun _ _ h => nomatch h⟩⟩
            · show (∃ next, (if pid = -1 then _ else _) = _ ∧ _)
                ↔ (pid == -1 || (decide (pid ∈ cfg.allPids) && markable tx.memo)) = true
              rw [if_neg hneg, beq_eq_false_iff_ne.mpr hneg, Bool.false_or, Bool.and_eq_true,
                decide_eq_true_iff, ← hmark]
              constructor
              · rintro ⟨next, hnext, hreg⟩
                obtain ⟨tx', htx', hnext⟩ := except_bind_ok hnext
                cases hnext
                exact ⟨hreg pid tx' rfl, tx', htx'⟩
              · rintro ⟨hreg, tx', htx'⟩
                refine ⟨some (pid, tx'), by rw [htx']; rfl, ?_⟩
                intro p tx'' heq
                cases heq
                exact hreg
  · have hgo : (tx.status != .success) = true := by
      rw [bne_iff_ne]
      exact hs
    have hskip : forward cfg time tx = .ok none := by
      have hno : (tx.status == .success) = false := beq_eq_false_iff_ne.mpr hs
      rw [forward, isXtx, hm]
      simp only [bind, Except.bind, pure, Except.pure, Json.get, hno, Bool.and_false, Bool.false_eq_true,
        if_false]
    rw [hskip, passable, hgo, Bool.true_or]
    exact ⟨fun _ => rfl, fun _ => ⟨none, rfl, fun _ _ h => nomatch h⟩⟩

/-! ## §2. When a block passes. -/

/-- The header goes out without an exception exactly where its destinations are
the relayer's. -/
theorem filterHeader_returns_iff (cfg : RelayerConfig) (header : Json) (ds : Int → DstTool κ) :
    (∃ ds', filterHeader cfg header ds = (.ok (), ds'))
      ↔ ∀ pid ∈ headerTargets cfg, pid ∈ cfg.allPids := by
  have hbody : ∀ (pid : Int) (ds : Int → DstTool κ),
      (∃ ds', (if pid ≠ cfg.src.pid then putHeader cfg header pid else pure ()) ds = (.ok (), ds'))
        ↔ (pid ≠ cfg.src.pid → pid ∈ cfg.allPids) := by
    intro pid ds
    by_cases hsrc : pid ≠ cfg.src.pid
    · rw [if_pos hsrc]
      unfold putHeader
      rcases getConnector_cases cfg pid with ⟨hmem, hget⟩ | ⟨hmem, e, hget⟩
      · rw [hget]
        exact ⟨fun _ _ => hmem, fun _ => ⟨_, rfl⟩⟩
      · rw [hget]
        exact ⟨fun ⟨_, h⟩ => (nomatch h), fun h => absurd (h hsrc) hmem⟩
    · rw [if_neg hsrc]
      exact ⟨fun _ h => absurd h hsrc, fun _ => ⟨ds, rfl⟩⟩
  rw [filterHeader, Comp.forEach_returns_iff hbody]
  constructor
  · intro h pid hpid
    obtain ⟨hmem, hne⟩ := List.mem_filter.mp hpid
    exact h pid hmem (of_decide_eq_true hne)
  · intro h pid hmem hne
    exact h pid (List.mem_filter.mpr ⟨hmem, decide_eq_true hne⟩)

/-- So do the transactions, exactly where each of them is passable. -/
theorem filterTxsFrom_returns_iff {cfg : RelayerConfig} (time : Nat → PyFloat) (tag : Nat → κ)
    {txs : List Transaction} (hst : ∀ tx ∈ txs, Stamped tx.memo) (i : Nat)
    (ds : Int → DstTool κ) :
    (∃ n ds', filterTxsFrom cfg time tag i txs ds = (.ok n, ds'))
      ↔ ∀ tx ∈ txs, passable cfg tx = true := by
  constructor
  · intro ⟨n, ds', h⟩ tx htx
    obtain ⟨t, next, hf, hreg⟩ := (filterTxsFrom_run cfg time tag txs i ds _ ds' h).2 ⟨n, rfl⟩ tx htx
    exact (forward_iff (hst tx htx) t).mp ⟨next, hf, hreg⟩
  · intro hall
    induction txs generalizing i ds with
    | nil => exact ⟨0, ds, rfl⟩
    | cons tx txs ih =>
        obtain ⟨hstx, hst⟩ := List.forall_mem_cons.mp hst
        obtain ⟨hpass, hall⟩ := List.forall_mem_cons.mp hall
        obtain ⟨next, hf, hreg⟩ := (forward_iff hstx (time i)).mpr hpass
        have hone : ∃ n ds1, filterTx cfg (time i) (tag i) tx ds = (.ok n, ds1) := by
          unfold filterTx
          rw [hf, Comp.lift_ok_bind_run]
          cases next with
          | none => exact ⟨0, ds, rfl⟩
          | some e =>
              obtain ⟨p, tx'⟩ := e
              unfold putTx
              rcases getConnector_cases cfg p with ⟨_, hget⟩ | ⟨hmem, _⟩
              · dsimp only
                rw [hget]
                exact ⟨1, _, rfl⟩
              · exact absurd (hreg p tx' rfl) hmem
        obtain ⟨n, ds1, hrun⟩ := hone
        obtain ⟨m, ds2, hrest⟩ := ih hst (i + 1) ds1 hall
        refine ⟨n + m, ds2, ?_⟩
        rw [filterTxsFrom, Comp.bind_of_ok hrun, Comp.bind_of_ok hrest]
        rfl

/-- A relayer that forwards headers only has no hop for any transaction. -/
theorem nextHop_of_isPar {cfg : RelayerConfig} (h : cfg.isPar = true) (ty : Json) :
    nextHop cfg ty = none := by
  obtain ⟨hmode, hpar⟩ := Bool.and_eq_true_iff.mp h
  have hmode : cfg.mode = .tor := by simpa using hmode
  have hpar : cfg.rlytp = some .par := by simpa using hpar
  have hpap : cfg.isPap = false := by
    rw [RelayerConfig.isPap, hpar]
    cases cfg.mode <;> rfl
  rw [nextHop, hmode, hpap]
  rfl

theorem passable_of_isPar {cfg : RelayerConfig} (h : cfg.isPar = true) (tx : Transaction) :
    passable cfg tx = true := by
  have hno : (memoField tx.memo "type").bind (nextHop cfg) = none := by
    cases memoField tx.memo "type" with
    | none => rfl
    | some ty => exact nextHop_of_isPar h ty
  rw [passable, hno, Bool.or_true]

/-- **A block is filtered without an exception exactly where it passes.** -/
theorem filterBlock_returns_iff (cfg : RelayerConfig) (time : Nat → PyFloat) (tag : Nat → κ)
    {block : Block} (hst : ∀ tx ∈ block.txs, Stamped tx.memo) (header : Json)
    (ds : Int → DstTool κ) :
    (∃ n ds', filterBlock cfg time tag block header ds = (.ok n, ds'))
      ↔ passes cfg block.txs = true := by
  have htxs : ∀ ds : Int → DstTool κ, (∃ n ds', filterTxs cfg time tag block.txs ds = (.ok n, ds'))
      ↔ ∀ tx ∈ block.txs, passable cfg tx = true := by
    intro ds
    unfold filterTxs
    split
    next hpar => exact ⟨fun _ tx _ => passable_of_isPar hpar tx, fun _ => ⟨0, ds, rfl⟩⟩
    next => exact filterTxsFrom_returns_iff time tag hst 0 ds
  have hdecide : passes cfg block.txs = true ↔ (∀ pid ∈ headerTargets cfg, pid ∈ cfg.allPids)
      ∧ ∀ tx ∈ block.txs, passable cfg tx = true := by
    simp [passes]
  rw [hdecide, ← filterHeader_returns_iff cfg header ds]
  constructor
  · intro ⟨n, ds', h⟩
    obtain ⟨_, ds1, hheader, hrest⟩ := Comp.bind_eq_ok h
    exact ⟨⟨ds1, hheader⟩, (htxs ds1).mp ⟨n, ds', hrest⟩⟩
  · intro ⟨⟨ds1, hheader⟩, hall⟩
    obtain ⟨n, ds', hrest⟩ := (htxs ds1).mpr hall
    exact ⟨n, ds', (Comp.bind_of_ok hheader).trans hrest⟩

/-! ## §3. Exceptions that end the loop. -/

/-- An exception that lacks a letter of the text, and is not of the connection. -/
theorem afterError_stopped {e : Exn} {c : Char} (hcls : e.cls ≠ .connection)
    (hc : c ∈ "cannot find block".toList) (hmsg : c ∉ e.msg.toList) (k : Int) :
    afterError k e = .stopped := by
  have hsays : saysNoBlock e = false := by
    unfold saysNoBlock
    rw [decide_eq_false_iff_not]
    exact fun h => hmsg (h.subset hc)
  unfold afterError
  rw [beq_eq_false_iff_ne.mpr hcls, hsays, Bool.and_false]
  rfl

theorem not_mem_reprElems {c : Char} (hc : isAsciiDigit c = false) (hdash : c ≠ '-')
    (hsep : c ∉ ", ".toList) (l : List Int) :
    c ∉ (Json.reprElems (l.map Json.int)).toList := by
  have hint : ∀ i : Int, c ∉ (Json.repr (.int i)).toList := by
    intro i
    rw [Json.repr, toList_toString_int]
    exact not_mem_intChars hc hdash i
  induction l with
  | nil => exact List.not_mem_nil
  | cons i l ih =>
      cases l with
      | nil =>
          rw [List.map_singleton, Json.reprElems]
          exact hint i
      | cons j l =>
          rw [List.map_cons, List.map_cons, Json.reprElems, String.toList_append,
            String.toList_append, List.mem_append, List.mem_append]
          rintro ((h | h) | h)
          · exact hint i h
          · exact hsep h
          · exact ih h

/-- A destination that is not the relayer's ends the loop. -/
theorem getConnector_error {cfg : RelayerConfig} {pid : Int} {e : Exn}
    (h : getConnector cfg pid = .error e) (k : Int) : afterError k e = .stopped := by
  unfold getConnector assertE at h
  split at h
  next => cases h
  next =>
      cases h
      -- no `f` in the message
      have hpids : 'f' ∉ ((Json.arr (cfg.allPids.map Json.int)).toStr).toList := by
        have hrepr : (Json.arr (cfg.allPids.map Json.int)).toStr
            = "[" ++ Json.reprElems (cfg.allPids.map Json.int) ++ "]" := by
          rw [Json.toStr, Json.repr]
          intro s hs
          cases hs
        rw [hrepr, String.toList_append, String.toList_append, List.mem_append, List.mem_append]
        rintro ((hf | hf) | hf)
        · revert hf
          decide
        · exact not_mem_reprElems (by decide) (by decide) (by decide) _ hf
        · revert hf
          decide
      have hpid : 'f' ∉ (toString pid).toList := by
        rw [toList_toString_int]
        exact not_mem_intChars (by decide) (by decide) pid
      refine afterError_stopped (fun hcls => ?_) (show 'f' ∈ _ by decide) ?_ k
      · cases hcls
      · simp only [String.toList_append, List.mem_append, not_or]
        exact ⟨⟨⟨⟨⟨by decide, hpid⟩, by decide⟩, by decide⟩, hpids⟩, by decide⟩

theorem passable_of_status {cfg : RelayerConfig} {tx : Transaction} (h : tx.status ≠ .success) :
    passable cfg tx = true := by
  rw [passable, bne_iff_ne.mpr h, Bool.true_or]

/-- The next hop of the transaction is a number. -/
def Addressed (cfg : RelayerConfig) (tx : Transaction) : Prop :=
  ∀ ty hop, (memoField tx.memo "type").bind (nextHop cfg) = some (ty, hop) →
    ∃ pid, hopPid hop (memoField tx.memo "dst") = .ok pid

theorem markTx_error {timeKey : String} {time : PyFloat} {tx : Transaction} {e : Exn}
    (h : markTx timeKey time tx = .error e) : stampRelayer timeKey time tx.memo = .error e := by
  rcases except_bind_error h with h | ⟨memo, _, h⟩
  · exact h
  · cases h

/-- Marks that cannot be appended to end the loop. -/
theorem forward_error {cfg : RelayerConfig} {time : PyFloat} {tx : Transaction} {e : Exn}
    (hst : Stamped tx.memo) (haddr : Addressed cfg tx) (h : forward cfg time tx = .error e)
    (k : Int) : afterError k e = .stopped := by
  have hs : tx.status = .success := by
    by_contra hs
    obtain ⟨next, hok, _⟩ := (forward_iff hst time).mpr (passable_of_status hs)
    rw [hok] at h
    cases h
  obtain ⟨kvs, ts, hm, hts⟩ := hst
  have hst : Stamped tx.memo := ⟨kvs, ts, hm, hts⟩
  rw [forward_of_loads hm hs] at h
  cases hhop : (memoField tx.memo "type").bind (nextHop cfg) with
  | none =>
      rw [hhop] at h
      cases h
  | some r =>
      obtain ⟨ty, hop⟩ := r
      obtain ⟨pid, hpid⟩ := haddr ty hop hhop
      rw [hhop] at h
      dsimp only at h
      rw [hpid] at h
      rcases except_bind_error h with h | ⟨p, _, h⟩
      · cases h
      · split at h
        next => cases h
        next =>
            rcases except_bind_error h with h | ⟨tx', _, h⟩
            · obtain ⟨v, rfl⟩ := stampRelayer_error
                (stamped_rewriteMemo hst hm ty cfg.src.pid) (markTx_error h)
              -- no `k` in the message
              have hname : 'k' ∉ v.typeName.toList := by
                cases v <;> (rw [Json.typeName]; decide)
              refine afterError_stopped (fun hcls => ?_) (show 'k' ∈ _ by decide) ?_ k
              · cases hcls
              · simp only [String.toList_append, List.mem_append, not_or]
                exact ⟨⟨by decide, hname⟩, by decide⟩
            · cases h

/-- **An exception in a block of addressed transactions ends the loop.** -/
theorem filterBlock_error {cfg : RelayerConfig} {time : Nat → PyFloat} {tag : Nat → κ}
    {block : Block} (hst : ∀ tx ∈ block.txs, Stamped tx.memo)
    (haddr : ∀ tx ∈ block.txs, Addressed cfg tx) {header : Json} {ds ds' : Int → DstTool κ}
    {e : Exn} (h : filterBlock cfg time tag block header ds = (.error e, ds')) (k : Int) :
    afterError k e = .stopped := by
  have hput : ∀ {pid : Int} {f : DstTool κ → DstTool κ} {ds ds' : Int → DstTool κ},
      (Comp.lift (getConnector cfg pid) >>= fun _ => Comp.update (updateDst pid f)) ds
        = (.error e, ds') → afterError k e = .stopped := by
    intro pid f ds ds' h
    rcases Comp.bind_eq_error h with h | ⟨_, _, _, h⟩
    · exact getConnector_error (Prod.mk.inj h).1 k
    · cases h
  have htxs : ∀ (txs : List Transaction), (∀ tx ∈ txs, Stamped tx.memo ∧ Addressed cfg tx) →
      ∀ (i : Nat) (ds ds' : Int → DstTool κ),
        filterTxsFrom cfg time tag i txs ds = (.error e, ds') → afterError k e = .stopped := by
    intro txs
    induction txs with
    | nil =>
        intro _ i ds ds' h
        cases h
    | cons tx txs ih =>
        intro hall i ds ds' h
        obtain ⟨⟨hst, haddr⟩, hall⟩ := List.forall_mem_cons.mp hall
        rw [filterTxsFrom] at h
        rcases Comp.bind_eq_error h with h | ⟨n, ds1, _, h⟩
        · unfold filterTx at h
          rcases Comp.bind_eq_error h with h | ⟨next, _, _, h⟩
          · exact forward_error hst haddr (Prod.mk.inj h).1 k
          · cases next with
            | none => cases h
            | some x =>
                rcases Comp.bind_eq_error h with h | ⟨_, _, _, h⟩
                · exact hput h
                · cases h
        · rcases Comp.bind_eq_error h with h | ⟨m, ds2, _, h⟩
          · exact ih hall (i + 1) ds1 _ h
          · cases h
  rcases Comp.bind_eq_error h with h | ⟨_, ds1, _, h⟩
  · obtain ⟨pid, _, t, t', hround⟩ := Comp.forEach_error _ h
    split at hround
    next => exact hput hround
    next => cases hround
  · unfold filterTxs at h
    split at h
    next => cases h
    next => exact htxs _ (fun tx htx => ⟨hst tx htx, haddr tx htx⟩) 0 _ _ h

/-! ## §4. What is meant for a destination. -/

/-- A transaction meant for `pid`: successful, with its next hop there, and `pid`
a destination of the relayer. -/
def meantFor (cfg : RelayerConfig) (pid : Int) (tx : Transaction) : Bool :=
  tx.status == .success && decide (pid ∈ cfg.allPids) &&
    (hopOf cfg (memoField tx.memo "type") (memoField tx.memo "dst")).map Prod.snd == some pid

/-- The transactions of a block meant for `pid`, in its order, with their positions. -/
def meant (cfg : RelayerConfig) (pid : Int) (txs : List Transaction) : List (Transaction × Nat) :=
  txs.zipIdx.filter (fun p => meantFor cfg pid p.1)

/-- The entry of a queue made of a transaction and its position. -/
structure Enqueued (cfg : RelayerConfig) (tag : Nat → κ) (pid : Int) (e : κ × Transaction)
    (p : Transaction × Nat) : Prop where
  tag : e.1 = tag p.2
  forwarded : ∃ ty, hopOf cfg (memoField p.1.memo "type") (memoField p.1.memo "dst") = some (ty, pid)
    ∧ Forwarded p.1 e.2 ty

/-- **What joins the queue of `pid` is what is meant for it**, in order. -/
theorem meant_forwards {cfg : RelayerConfig} (time : Nat → PyFloat) (tag : Nat → κ) (pid : Int)
    {txs : List Transaction} (hst : ∀ tx ∈ txs, Stamped tx.memo)
    (hall : ∀ tx ∈ txs, passable cfg tx = true) (i : Nat) :
    List.Forall₂ (Enqueued cfg tag pid) (forwards cfg time tag pid i txs)
      ((txs.zipIdx i).filter (fun p => meantFor cfg pid p.1)) := by
  induction txs generalizing i with
  | nil => exact .nil
  | cons tx txs ih =>
      obtain ⟨hstx, hst⟩ := List.forall_mem_cons.mp hst
      obtain ⟨hpass, hall⟩ := List.forall_mem_cons.mp hall
      have hrest := ih hst hall (i + 1)
      obtain ⟨next, hf, hreg⟩ := (forward_iff hstx (time i)).mpr hpass
      rw [forwards, hf, List.zipIdx_cons, List.filter_cons]
      rcases forward_eq_ok hf with ⟨rfl, hno⟩ | ⟨p, tx', ty, rfl, hs, hhop, hfwd⟩
      · -- not successful, or without a next hop
        have hnot : meantFor cfg pid tx = false := by
          unfold meantFor
          by_cases hs : tx.status = .success
          · rw [hno hs]
            exact Bool.and_false _
          · rw [beq_eq_false_iff_ne.mpr hs, Bool.false_and, Bool.false_and]
        rw [if_neg (by rw [hnot]; exact Bool.false_ne_true)]
        exact hrest
      · have hmeant : meantFor cfg pid tx = true ↔ p = pid := by
          unfold meantFor
          rw [hs, hhop]
          constructor
          · intro h
            simpa using (Bool.and_eq_true_iff.mp h).2
          · intro h
            simp [← h, hreg p tx' rfl]
        by_cases hp : p = pid
        · rw [if_pos (hmeant.mpr hp)]
          dsimp only [addressed]
          rw [if_pos hp]
          exact .cons ⟨rfl, ty, by rw [hhop, hp], hfwd⟩ hrest
        · rw [if_neg (fun h => hp (hmeant.mp h))]
          dsimp only [addressed]
          rw [if_neg hp]
          exact hrest

/-! ## §5. A round on a committed block. -/

section Rounds

variable [Sha256]

/-- A committed block can be fetched. -/
theorem fetch_committed {b : Block} {c : Chain τ} {r : Committed τ} {k : Nat}
    (hinv : Chain.ChainInv [b] c) (hr : c.history[k]? = some r) :
    ∃ header, r.block.header = .ok header
      ∧ fetch .delivered ((k + 1 : Nat) : Int) c = (.ok (r.block, header), c) := by
  have hok := hinv.committed r (List.mem_of_getElem? hr)
  obtain ⟨text, htext⟩ := hok.encodable
  have hat : c.blocks.blocks[k + 1]? = some r.block := by
    rw [hinv.blocks, List.singleton_append, List.getElem?_cons_succ, List.getElem?_map, hr]
    rfl
  have hget := BlockStorage.getBlockByHeight_of_lt hat
  have hwf : ∀ tx ∈ r.block.txs, tx.memo.wf = true := by
    intro tx htx
    rw [hok.txs] at htx
    obtain ⟨s, hs, rfl⟩ := List.mem_map.mp htx
    exact wf_of_stamped (hok.memo s hs)
  have hdecode := Block.fromStr_asStr hwf htext
  obtain ⟨j, hj, _⟩ := except_bind_ok htext
  obtain ⟨_, bs, _, hhash, _⟩ := Block.asJson_eq_ok hj
  obtain ⟨header, hheader⟩ : ∃ header, r.block.header = .ok header := by
    exact ⟨_, by rw [Block.header, hhash]; rfl⟩
  refine ⟨header, hheader, ?_⟩
  have hquery : Connector.queryBlock .delivered ((k + 1 : Nat) : Int) c = (.ok r.block, c) := by
    have hhandler : Handlers.queryBlock ((k + 1 : Nat) : Int) c = (.ok text, c) := by
      unfold Handlers.queryBlock
      rw [Comp.gets_bind_run, id, hget, Comp.lift_ok_bind_run]
      dsimp only
      rw [htext]
      rfl
    have hreq : request .delivered (Handlers.queryBlock ((k + 1 : Nat) : Int)) c = (.ok text, c) := by
      show Handlers.answer _ c = _
      unfold Handlers.answer
      rw [hhandler]
    unfold Connector.queryBlock
    rw [Comp.bind_of_ok hreq, hdecode]
    rfl
  unfold fetch
  rw [Comp.bind_of_ok hquery, hheader]
  rfl

/-- A round handled a block: the loop moved on to the next one, and every queue got
what was meant for it, in order. -/
structure Handled (cfg : RelayerConfig) (tag : Nat → κ) (k : Int) (txs : List Transaction)
    (rl rl' : Relayer κ) : Prop where
  moved : rl'.listen = .listening (k + 1)
  queued : ∀ pid, ∃ es, (rl'.dsts pid).queueXtx = (rl.dsts pid).queueXtx ++ es.map some
    ∧ List.Forall₂ (Enqueued cfg tag pid) es (meant cfg pid txs)

omit [Sha256] in
/-- After an exception the loop is not at the next block. -/
theorem afterError_ne (k : Int) (e : Exn) : afterError k e ≠ .listening (k + 1) := by
  intro h
  rcases afterError_cases k e with he | he
  · rw [he] at h
    have hk := Listen.listening.inj h
    omega
  · rw [he] at h
    cases h

/-- **A round on a committed block handles it exactly where the block passes.** -/
theorem listen_handled_iff {b : Block} {c : Chain τ} {r : Committed τ} {k : Nat}
    (hinv : Chain.ChainInv [b] c) (hr : c.history[k]? = some r) (cfg : RelayerConfig)
    (time : Nat → PyFloat) (tag : Nat → κ) (rl : Relayer κ) :
    Handled cfg tag ((k + 1 : Nat) : Int) r.block.txs rl
        (listen cfg .delivered time tag ((k + 1 : Nat) : Int) rl c).1
      ↔ passes cfg r.block.txs = true := by
  have hok := hinv.committed r (List.mem_of_getElem? hr)
  have hst : ∀ tx ∈ r.block.txs, Stamped tx.memo := by
    intro tx htx
    rw [hok.txs] at htx
    obtain ⟨s, hs, rfl⟩ := List.mem_map.mp htx
    exact hok.memo s hs
  obtain ⟨header, _, hfetch⟩ := fetch_committed hinv hr
  have hiff := filterBlock_returns_iff cfg time tag hst header rl.dsts
  unfold listen
  rw [hfetch]
  dsimp only
  rcases hfilter : filterBlock cfg time tag r.block header rl.dsts with ⟨e | n, ds⟩
  · -- an exception: not at the next block, and the block does not pass
    rw [hfilter] at hiff
    constructor
    · exact fun h => absurd h.moved (afterError_ne _ e)
    · intro h
      obtain ⟨_, _, heq⟩ := hiff.mpr h
      cases heq
  · have hpass := hiff.mp ⟨n, ds, hfilter⟩
    refine ⟨fun _ => hpass, fun _ => ⟨rfl, fun pid => ?_⟩⟩
    obtain ⟨hs, fs, hd, _, _, hfull⟩ := (filterBlock_run hfilter pid).queues
    obtain ⟨_, rfl⟩ := hfull ⟨n, rfl⟩
    refine ⟨blockForwards cfg time tag pid r.block.txs, ?_, ?_⟩
    · show (ds pid).queueXtx = _
      rw [hd]
    have hall : ∀ tx ∈ r.block.txs, passable cfg tx = true := by
      unfold passes at hpass
      exact List.all_eq_true.mp (Bool.and_eq_true_iff.mp hpass).2
    have hmeant := meant_forwards time tag pid hst hall 0
    unfold blockForwards
    split
    next hpar =>
        -- a relayer of headers: no transaction has a next hop
        have hnil : meant cfg pid r.block.txs = [] := by
          refine List.filter_eq_nil_iff.mpr ?_
          intro p _ hp
          have hnone : hopOf cfg (memoField p.1.memo "type") (memoField p.1.memo "dst") = none := by
            unfold hopOf
            cases memoField p.1.memo "type" with
            | none => rfl
            | some ty =>
                show (nextHop cfg ty >>= _) = none
                rw [nextHop_of_isPar hpar ty]
                rfl
          unfold meantFor at hp
          rw [hnone] at hp
          simp at hp
        rw [hnil]
        exact .nil
    next => exact hmeant

end Rounds

/-! ## §6. Runs of the source chain. -/

variable [Contracts] [Sha256]

/-- **Every block the source chain commits is handled exactly where it passes**: no
exception leaves the round, each transaction meant for a destination is enqueued
once and in order, and nothing else is. -/
theorem listen_handles_iff (ccfg : Config) (c0 c : Chain τ) (acts : List (Chain.Action τ))
    (h0 : Chain.Fresh c0) (hrun : runFrom (Chain.step ccfg) c0 acts = some c) (k : Nat)
    (r : Committed τ) (hr : c.history[k]? = some r) (cfg : RelayerConfig) (time : Nat → PyFloat)
    (tag : Nat → κ) (rl : Relayer κ) :
    Handled cfg tag ((k + 1 : Nat) : Int) r.block.txs rl
        (listen cfg .delivered time tag ((k + 1 : Nat) : Int) rl c).1
      ↔ passes cfg r.block.txs = true := by
  obtain ⟨t, hbase⟩ := h0.blocks
  have hinv := Chain.run_chainInv hrun h0.chainInv
  rw [hbase] at hinv
  exact listen_handled_iff hinv hr cfg time tag rl

/-! ## §7. A block that is handled, and one that stops the loop. -/

omit [Contracts] [Sha256]

/-- What the sample relayer makes of an executed transaction. -/
def passView (e : Executed Nat) : Bool := passable Chain.sampleRelayer e.tx

/-- A block of one transaction passes the sample relayer where the transaction does. -/
theorem passes_alone {txs : List Transaction} {e : Executed Nat} (htxs : txs = [e.tx]) :
    passes Chain.sampleRelayer txs = passView e := by
  have hheaders : (headerTargets Chain.sampleRelayer).all
      (fun pid => decide (pid ∈ Chain.sampleRelayer.allPids)) = true := by decide
  rw [htxs, passes, hheaders, Bool.true_and, List.all_cons, List.all_nil, Bool.and_true]
  rfl

/-- A transaction to chain `1` is handled. -/
theorem listen_handles_iff_sample :
    ∃ (c : Chain Nat) (r : Committed Nat), c.history[0]? = some r
      ∧ Handled Chain.sampleRelayer (id : Nat → Nat) 1 r.block.txs ({} : Relayer Nat)
        (@listen Nat Nat Sha256.plain Chain.sampleRelayer .delivered (fun _ => PyFloat.zero) id 1
          {} c).1 := by
  obtain ⟨c, r, s, hrun, hhist, _, htxs, hpass⟩ :=
    Chain.committed_alone passView (Chain.crossTx "") true (by decide +kernel) (by decide +kernel)
  have hr : c.history[0]? = some r := by rw [hhist]; rfl
  exact ⟨c, r, hr, (@listen_handles_iff Nat Nat Contracts.plain Sha256.plain {} Chain.started c _
    Chain.started_fresh hrun 0 r hr Chain.sampleRelayer (fun _ => PyFloat.zero) id {}).mpr
      ((passes_alone htxs).trans hpass)⟩

/-- A transaction to chain `5`, which is none of the relayer's. -/
def strayTx : Transaction :=
  { Chain.crossTx "" with memo := memoOf [("type", .str TranMemo.ctxSrc), ("dst", .int 5)] }

/-- **A committed transaction to a chain that is none of the relayer's is not skipped**:
the round does not get past it. -/
theorem listen_stray :
    ∃ (c : Chain Nat) (r : Committed Nat),
      runFrom (@Chain.step Nat Contracts.plain Sha256.plain {}) Chain.started
          (Chain.executeActions strayTx ++ [.commit PyFloat.zero]) = some c
        ∧ c.history[0]? = some r
        ∧ ¬ Handled Chain.sampleRelayer (id : Nat → Nat) 1 r.block.txs ({} : Relayer Nat)
          (@listen Nat Nat Sha256.plain Chain.sampleRelayer .delivered (fun _ => PyFloat.zero) id 1
            {} c).1 := by
  obtain ⟨c, r, s, hrun, hhist, _, htxs, hpass⟩ :=
    Chain.committed_alone passView strayTx false (by decide +kernel) (by decide +kernel)
  have hr : c.history[0]? = some r := by rw [hhist]; rfl
  refine ⟨c, r, hrun, hr, fun h => ?_⟩
  obtain ⟨t, hbase⟩ := Chain.started_fresh.blocks
  have hinv := @Chain.run_chainInv Nat Contracts.plain Sha256.plain {} _ Chain.started c _ hrun
    (@Chain.Fresh.chainInv Nat Sha256.plain Chain.started Chain.started_fresh)
  rw [hbase] at hinv
  have hyes := (@listen_handled_iff Nat Nat Sha256.plain _ c r 0 hinv hr Chain.sampleRelayer
    (fun _ => PyFloat.zero) id {}).mp h
  rw [(passes_alone htxs).trans hpass] at hyes
  cases hyes

end RelayerUnix

end TorSim
