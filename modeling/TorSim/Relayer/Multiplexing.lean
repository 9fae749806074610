/-
  TorSim.Relayer.Multiplexing — the multiplexing relayer against the pairwise one.

  `MultiplexAsyncRelayer.filter_txs` decides where a transaction goes before it
  is queued: it rewrites the memo, marks it and puts it into the queue of its
  next hop.  `AsyncRelayer.filter_txs` queues and marks every cross-chain
  transaction, and `check_xtx` rewrites the memos of those for its destination
  later.  One knows the relay chain by its id, the other by its flag.

  Main results:
    * `nextType_eq` — the two decide alike where a transaction goes.
    * `filterTx_routed` — one transaction: both raise, or it goes elsewhere, or the
      same transaction up to time marks comes to the destination.
    * `multiplex_agrees` — **the queue of a destination is what the pairwise relayer
      lets through to it.**
-/
import Mathlib.Data.List.Nodup
import TorSim.Relayer.AsyncRelayer
import TorSim.Relayer.ListenLaws

namespace TorSim

open TorSim.Lib

variable {κ : Type}

namespace MultiplexAsyncRelayer

open AsyncRelayer (checkXtx nextType isForDst Queues)

/-! ## §1. The two filters. -/

/-- `filter_txs`, with `is_xtx`, `mark_tx` and the queues it calls, has the text of the
other multiplexing relayer's. -/
def filterTxs (cfg : RelayerConfig) (time : Nat → PyFloat) (tag : Nat → κ)
    (txs : List Transaction) : Comp (Int → DstTool κ) Nat :=
  RelayerUnix.filterTxs cfg time tag txs

/-- What `check_xtx` lets through of a queue, each transaction with the memo it is
sent with and under its position in the block. -/
def letThrough (cfg : AsyncRelayerConfig) :
    List ((Int × Nat) × Transaction) → Except Exn (List (Nat × Transaction))
  | [] => .ok []
  | e :: es => do
      let memo ← checkXtx cfg e.2
      let rest ← letThrough cfg es
      match memo with
      | some memo => return (e.1.2, { e.2 with memo := memo }) :: rest
      | none => return rest

/-- A pairwise relayer and a multiplexing one with the same source and mode, the
destination of the one among those of the other; of these chains exactly those
with the relay chain's id are marked as such. -/
structure Pair (cfg : RelayerConfig) (one : AsyncRelayerConfig) : Prop where
  src : one.src = cfg.src
  mode : one.mode = cfg.mode
  rlytp : one.rlytp = cfg.rlytp
  dst : one.dst ∈ cfg.dsts
  relay : ∀ cn ∈ cfg.src :: cfg.dsts, cn.isinter = true ↔ cn.pid = interPid

/-- A successful cross-chain transaction carries an integer destination, and its next
hop is registered; if its type has none here, it can be marked. -/
def Routable (cfg : RelayerConfig) (tx : Transaction) : Prop :=
  tx.status = .success → ∀ ty, memoField tx.memo "type" = some ty →
    (ty.isStr TranMemo.ctxSrc || ty.isStr TranMemo.ctxInter) = true →
    ∃ n : Int, memoField tx.memo "dst" = some (.int n) ∧
      match RelayerUnix.nextHop cfg ty with
      | some (_, hop) => hop.getD n ∈ cfg.allPids
      | none => cfg.isPar = true ∨ ∀ time, ∃ tx', RelayerUnix.markTx "listened" time tx = .ok tx'

/-- Two memos are the same dictionary up to the time of the relayer's last mark. -/
structure SameMemo (m m' : Json) : Prop where
  entries : ∀ k, k ≠ "ts" → memoField m k = memoField m' k
  marks : ∃ xs t t', tsField m "relayer" = some (.arr (xs ++ [.arr [.str "listened", .float t]]))
    ∧ tsField m' "relayer" = some (.arr (xs ++ [.arr [.str "listened", .float t']]))
  others : ∀ k, k ≠ "relayer" → tsField m k = tsField m' k

/-- The same transaction at the same position, up to the time of the last mark. -/
structure SameEntry (e e' : Nat × Transaction) : Prop where
  position : e.1 = e'.1
  body : e.2.body = e'.2.body
  height : e.2.height = e'.2.height
  status : e.2.status = e'.2.status
  out : e.2.out = e'.2.out
  memo : SameMemo e.2.memo e'.2.memo

/-! ## §2. Where a transaction goes. -/

/-- **Both relayers decide alike where a transaction goes.** -/
theorem nextType_eq {cfg : RelayerConfig} {one : AsyncRelayerConfig} (h : Pair cfg one)
    {kvs : List (String × Json)} {n : Int} (hdst : kvs.lookup "dst" = some (.int n)) (ty : Json) :
    nextType one (.obj kvs) ty = .ok (match RelayerUnix.nextHop cfg ty with
      | none => none
      | some (ty', hop) => if hop.getD n = one.dst.pid then some ty' else none) := by
  have hhere : isForDst one (.obj kvs) = .ok (decide (n = one.dst.pid)) := by
    simp only [isForDst, Json.get, hdst, Option.getD_some, bind, Except.bind]
    rfl
  have hpap : AsyncRelayer.isPap one = cfg.isPap := by
    rw [AsyncRelayer.isPap, RelayerConfig.isPap, h.mode, h.rlytp]
  have hrelay : one.dst.isinter = decide (interPid = one.dst.pid) := by
    have hiff := h.relay one.dst (List.mem_cons_of_mem _ h.dst)
    rw [Bool.eq_iff_iff, hiff, decide_eq_true_iff]
    exact eq_comm
  unfold nextType RelayerUnix.nextHop
  rw [h.mode, hpap, hhere, hrelay]
  cases cfg.mode with
  | nor =>
      dsimp only
      cases ty.isStr TranMemo.ctxSrc with
      | false => rfl
      | true => by_cases hn : n = one.dst.pid <;> simp [hn, bind, Except.bind, pure, Except.pure]
  | aor =>
      dsimp only
      cases ty.isStr TranMemo.ctxSrc with
      | true => by_cases hp : interPid = one.dst.pid <;> simp [hp, pure, Except.pure]
      | false =>
          cases ty.isStr TranMemo.ctxInter with
          | false => rfl
          | true => by_cases hn : n = one.dst.pid <;> simp [hn, bind, Except.bind, pure, Except.pure]
  | tor =>
      dsimp only
      cases cfg.isPap && ty.isStr TranMemo.ctxSrc with
      | false => rfl
      | true => by_cases hn : n = one.dst.pid <;> simp [hn, bind, Except.bind, pure, Except.pure]

/-- `check_xtx` on a transaction marked by the filter. -/
theorem checkXtx_marked {cfg : RelayerConfig} {one : AsyncRelayerConfig} (h : Pair cfg one)
    {tx tx' : Transaction} {time : PyFloat} {ty : Json} {n : Int}
    (hmark : AsyncRelayer.markTx "listened" time tx = .ok tx')
    (hty : memoField tx.memo "type" = some ty) (hdst : memoField tx.memo "dst" = some (.int n)) :
    ∃ kvs, Json.loadsValue tx'.memo = .ok (.obj kvs)
      ∧ checkXtx one tx' = .ok (match RelayerUnix.nextHop cfg ty with
        | none => none
        | some (ty', hop) =>
            if hop.getD n = one.dst.pid then some (rewriteMemo kvs ty' cfg.src.pid) else none) := by
  obtain ⟨memo, hmemo, rfl⟩ := RelayerUnix.markTx_eq_ok hmark
  obtain ⟨kvs, hload⟩ : ∃ kvs, Json.loadsValue memo = .ok (.obj kvs) := by
    obtain ⟨_, _, _, _, _, _, hwf, rfl⟩ := stampRelayer_eq_ok hmemo
    exact ⟨_, loadsValue_memoOf hwf⟩
  have hfield : ∀ k, k ≠ "ts" → kvs.lookup k = memoField tx.memo k := by
    intro k hk
    rw [← memoField_of_loads hload, memoField_stampRelayer hmemo hk]
  have hty' : kvs.lookup "type" = some ty := (hfield "type" (by decide)).trans hty
  have hdst' : kvs.lookup "dst" = some (.int n) := (hfield "dst" (by decide)).trans hdst
  refine ⟨kvs, hload, ?_⟩
  unfold checkXtx
  rw [hload]
  simp only [bind, Except.bind, Json.getItem, hty', nextType_eq h hdst', h.src]
  cases RelayerUnix.nextHop cfg ty with
  | none => rfl
  | some r =>
      obtain ⟨ty', hop⟩ := r
      dsimp only
      by_cases hp : hop.getD n = one.dst.pid
      · rw [if_pos hp, if_pos hp]
        rfl
      · rw [if_neg hp, if_neg hp]
        rfl

/-- **Rewriting and marking commute**, up to the time of the mark. -/
theorem sameMemo_of_marked {memo m m' : Json} {kvs kvs' : List (String × Json)} {ty : String}
    {src : Int} {t t' : PyFloat} (hload : Json.loadsValue memo = .ok (.obj kvs))
    (hm : stampRelayer "listened" t (rewriteMemo kvs ty src) = .ok m)
    (hm' : stampRelayer "listened" t' memo = .ok m')
    (hload' : Json.loadsValue m' = .ok (.obj kvs')) :
    SameMemo m (rewriteMemo kvs' ty src) := by
  have hwf := Json.loadsValue_wf hload
  have hwf' := Json.loadsValue_wf hload'
  obtain ⟨marks, hmarks, hrelayer, hothers⟩ := tsField_stampRelayer hm
  obtain ⟨marks', hmarks', hrelayer', hothers'⟩ := tsField_stampRelayer hm'
  rw [tsField_rewriteMemo hload] at hmarks
  obtain ⟨xs, _, hall⟩ := relayerMarks_eq_ok hmarks
  constructor
  · intro k hk
    rw [memoField_stampRelayer hm hk]
    obtain ⟨hty, hrest⟩ := memoField_rewriteMemo hwf ty src
    obtain ⟨hty', hrest'⟩ := memoField_rewriteMemo hwf' ty src
    by_cases h1 : k = "type"
    · rw [h1, hty, hty']
    · by_cases h2 : k = "src"
      · rw [h2, memoField_rewriteMemo_src hwf, memoField_rewriteMemo_src hwf']
      · rw [hrest k h1 h2, hrest' k h1 h2, ← memoField_of_loads hload, ← memoField_of_loads hload',
          memoField_stampRelayer hm' hk]
  · refine ⟨xs, t, t', ?_, ?_⟩
    · rw [hrelayer, Except.ok.inj (hmarks.symm.trans (hall "listened" t))]
    · rw [tsField_rewriteMemo hload', hrelayer',
        Except.ok.inj (hmarks'.symm.trans (hall "listened" t'))]
  · intro k hk
    rw [hothers k hk, tsField_rewriteMemo hload, tsField_rewriteMemo hload', hothers' k hk]

/-! ## §3. One transaction. -/

/-- What the two relayers make of one transaction, as far as the destination of the
pairwise one is concerned: both raise; nothing comes there; or the same does. -/
inductive Routed (one : AsyncRelayerConfig) (i : Nat) (bn : Int) (ds : Int → DstTool Nat)
    (q : Queues) : Except Exn Nat → (Int → DstTool Nat) → Except Exn Nat → Queues → Prop where
  | raised (e e' : Exn) : Routed one i bn ds q (.error e) ds (.error e') q
  | none {n m : Nat} {ds' : Int → DstTool Nat} (hds : ds' one.dst.pid = ds one.dst.pid) :
      Routed one i bn ds q (.ok n) ds' (.ok m) q
  | elsewhere {n m : Nat} {ds' : Int → DstTool Nat} {tx : Transaction}
      (hds : ds' one.dst.pid = ds one.dst.pid) (hcheck : checkXtx one tx = .ok none) :
      Routed one i bn ds q (.ok n) ds' (.ok m) (q.putXtx bn i tx)
  | here {n m : Nat} {ds' : Int → DstTool Nat} {tx tx' : Transaction} {memo : Json}
      (hds : ds' one.dst.pid = (ds one.dst.pid).pushXtxs [(i, tx)])
      (hcheck : checkXtx one tx' = .ok (some memo))
      (hsame : SameEntry (i, tx) (i, { tx' with memo := memo })) :
      Routed one i bn ds q (.ok n) ds' (.ok m) (q.putXtx bn i tx')

/-- A transaction with a next hop: it is forwarded there where it can be marked. -/
theorem forward_of_hop {cfg : RelayerConfig} {time : PyFloat} {tx : Transaction}
    {kvs : List (String × Json)} {ty : Json} {ty' : String} {hop : Option Int} {n : Int}
    (hload : Json.loadsValue tx.memo = .ok (.obj kvs)) (hs : tx.status = .success)
    (hty : memoField tx.memo "type" = some ty) (hdst : memoField tx.memo "dst" = some (.int n))
    (hnext : RelayerUnix.nextHop cfg ty = some (ty', hop)) (hne : hop.getD n ≠ -1) :
    RelayerUnix.forward cfg time tx
      = (stampRelayer "listened" time (rewriteMemo kvs ty' cfg.src.pid)).map
          (fun memo => some (hop.getD n, { tx with memo := memo })) := by
  have hpid : RelayerUnix.hopPid hop (some (.int n)) = .ok (hop.getD n) := by
    cases hop <;> rfl
  rw [RelayerUnix.forward_of_loads hload hs, hty, Option.bind_some, hnext, hdst]
  dsimp only
  rw [hpid]
  show (if hop.getD n = -1 then _ else _) = _
  rw [if_neg hne, RelayerUnix.markTx]
  cases stampRelayer "listened" time (rewriteMemo kvs ty' cfg.src.pid) <;> rfl

/-- **One transaction.** -/
theorem filterTx_routed {cfg : RelayerConfig} {one : AsyncRelayerConfig} (h : Pair cfg one)
    (hneg : (-1 : Int) ∉ cfg.allPids) (hpar : cfg.isPar = false) (time time' : PyFloat) (bn : Int)
    (i : Nat) {tx : Transaction} (htx : Routable cfg tx) (ds : Int → DstTool Nat) (q : Queues) :
    Routed one i bn ds q (RelayerUnix.filterTx cfg time i tx ds).1
      (RelayerUnix.filterTx cfg time i tx ds).2 (AsyncRelayer.filterTx time' bn i tx q).1
      (AsyncRelayer.filterTx time' bn i tx q).2 := by
  unfold RelayerUnix.filterTx AsyncRelayer.filterTx AsyncRelayer.isXtx
  cases hxtx : RelayerUnix.isXtx tx with
  | error e =>
      have hforward : RelayerUnix.forward cfg time tx = .error e := by
        rw [RelayerUnix.forward, hxtx]
        rfl
      rw [hforward]
      exact .raised e e
  | ok b =>
      by_cases hgo : (b && tx.status == .success) = true
      · -- a successful cross-chain transaction
        obtain ⟨hb, hs⟩ := Bool.and_eq_true_iff.mp hgo
        have hs : tx.status = .success := by simpa using hs
        obtain ⟨memo, hload, hxtx'⟩ := except_bind_ok hxtx
        obtain ⟨t, ht, hxtx'⟩ := except_bind_ok hxtx'
        obtain ⟨kvs, rfl, rfl⟩ := get_eq_ok ht
        have hb' := (Except.ok.inj hxtx').trans hb
        obtain ⟨ty, hty⟩ : ∃ ty, kvs.lookup "type" = some ty := by
          cases hk : kvs.lookup "type" with
          | none =>
              rw [hk] at hb'
              cases hb'
          | some ty => exact ⟨ty, rfl⟩
        rw [hty, Option.getD_some] at hb'
        have htype : memoField tx.memo "type" = some ty := (memoField_of_loads hload _).trans hty
        obtain ⟨n, hdst, hhop⟩ := htx hs ty htype hb'
        rw [Comp.lift_ok_bind_run, if_pos hgo]
        cases hnext : RelayerUnix.nextHop cfg ty with
        | none =>
            -- no hop in this mode: queued by the one, never let through
            have hforward : RelayerUnix.forward cfg time tx = .ok none := by
              rw [RelayerUnix.forward_of_loads hload hs, htype, Option.bind_some, hnext]
            rw [hnext] at hhop
            obtain ⟨tx', hmark⟩ := (hhop.resolve_left (by rw [hpar]; exact Bool.false_ne_true)) time'
            have hmark : AsyncRelayer.markTx "listened" time' tx = .ok tx' := hmark
            obtain ⟨_, _, hcheck⟩ := checkXtx_marked h hmark htype hdst
            rw [hnext] at hcheck
            rw [hforward, hmark]
            exact .elsewhere rfl hcheck
        | some r =>
            obtain ⟨ty', hop⟩ := r
            rw [hnext] at hhop
            have hne : hop.getD n ≠ -1 := fun heq => hneg (heq ▸ hhop)
            have hforward : RelayerUnix.forward cfg time tx = _ :=
              forward_of_hop hload hs htype hdst hnext hne
            have hboth := stampRelayer_rewriteMemo hload ty' cfg.src.pid "listened" time time'
            rw [hforward, AsyncRelayer.markTx, RelayerUnix.markTx]
            cases hm' : stampRelayer "listened" time' tx.memo with
            | error e' =>
                -- neither can mark it
                cases hm : stampRelayer "listened" time (rewriteMemo kvs ty' cfg.src.pid) with
                | error e => exact .raised e e'
                | ok m =>
                    obtain ⟨_, hbad⟩ := hboth.mp ⟨m, hm⟩
                    cases hm'.symm.trans hbad
            | ok m' =>
                obtain ⟨m, hm⟩ := hboth.mpr ⟨m', hm'⟩
                have hmark : AsyncRelayer.markTx "listened" time' tx = .ok { tx with memo := m' } := by
                  rw [AsyncRelayer.markTx, RelayerUnix.markTx, hm']
                  rfl
                obtain ⟨kvs', hload', hcheck⟩ := checkXtx_marked h hmark htype hdst
                rw [hnext] at hcheck
                have hget : RelayerUnix.getConnector cfg (hop.getD n) = .ok () := by
                  rcases RelayerUnix.getConnector_cases cfg (hop.getD n) with ⟨_, hget⟩ | ⟨hno, _⟩
                  · exact hget
                  · exact absurd hhop hno
                have hput : RelayerUnix.putTx cfg i { tx with memo := m } (hop.getD n) ds
                    = (.ok (), RelayerUnix.updateDst (hop.getD n)
                      (DstTool.pushXtxs [(i, { tx with memo := m })]) ds) := by
                  rw [RelayerUnix.putTx, hget]
                  rfl
                rw [hm]
                dsimp only [Except.map] at hcheck ⊢
                rw [Comp.lift_ok_bind_run]
                dsimp only
                rw [Comp.bind_of_ok hput]
                by_cases hp : hop.getD n = one.dst.pid
                · rw [if_pos hp] at hcheck
                  have hsame : SameEntry (i, { tx with memo := m })
                      (i, { tx with memo := rewriteMemo kvs' ty' cfg.src.pid }) :=
                    ⟨rfl, rfl, rfl, rfl, rfl, sameMemo_of_marked hload hm hm' hload'⟩
                  refine .here ?_ hcheck hsame
                  rw [hp]
                  exact RelayerUnix.updateDst_self _ _ _
                · rw [if_neg hp] at hcheck
                  exact .elsewhere (RelayerUnix.updateDst_ne (Ne.symm hp) _ _) hcheck
      · -- of no concern to either
        have hforward : RelayerUnix.forward cfg time tx = .ok none := by
          rw [RelayerUnix.forward, hxtx]
          show (if _ then _ else _) = _
          rw [if_neg hgo]
          rfl
        rw [hforward, Comp.lift_ok_bind_run, Comp.lift_ok_bind_run, if_neg hgo]
        exact .none rfl

/-! ## §4. A block. -/

/-- The queues of the two relayers for one destination, after each has added to
its own: what was let through of the one's additions is what the other added. -/
def Agree (one : AsyncRelayerConfig) (d d' : DstTool Nat) (q q' : Queues) : Prop :=
  ∃ es fs gs, d' = d.pushXtxs es ∧ q'.xtx = q.xtx ++ fs ∧ letThrough one fs = .ok gs
    ∧ List.Forall₂ SameEntry es gs

theorem Agree.refl (one : AsyncRelayerConfig) (d : DstTool Nat) (q : Queues) :
    Agree one d d q q :=
  ⟨[], [], [], (RelayerUnix.pushXtxs_nil d).symm, (List.append_nil _).symm, rfl, .nil⟩

theorem letThrough_append {one : AsyncRelayerConfig} {fs fs' : List ((Int × Nat) × Transaction)}
    {gs gs' : List (Nat × Transaction)} (h : letThrough one fs = .ok gs)
    (h' : letThrough one fs' = .ok gs') : letThrough one (fs ++ fs') = .ok (gs ++ gs') := by
  induction fs generalizing gs with
  | nil =>
      cases h
      exact h'
  | cons e fs ih =>
      obtain ⟨memo, hmemo, h⟩ := except_bind_ok h
      obtain ⟨rest, hrest, h⟩ := except_bind_ok h
      rw [List.cons_append, letThrough, hmemo, ih hrest]
      cases memo with
      | none =>
          cases h
          rfl
      | some memo =>
          cases h
          rfl

theorem Agree.trans {one : AsyncRelayerConfig} {d₁ d₂ d₃ : DstTool Nat} {q₁ q₂ q₃ : Queues}
    (h : Agree one d₁ d₂ q₁ q₂) (h' : Agree one d₂ d₃ q₂ q₃) : Agree one d₁ d₃ q₁ q₃ := by
  obtain ⟨es, fs, gs, rfl, hfs, hlet, hall⟩ := h
  obtain ⟨es', fs', gs', rfl, hfs', hlet', hall'⟩ := h'
  refine ⟨es ++ es', fs ++ fs', gs ++ gs', RelayerUnix.pushXtxs_append es es' d₁, ?_,
    letThrough_append hlet hlet', List.rel_append hall hall'⟩
  rw [hfs', hfs, List.append_assoc]

/-- One transaction keeps the queues in agreement. -/
theorem Routed.agree {one : AsyncRelayerConfig} {i : Nat} {bn : Int} {ds ds' : Int → DstTool Nat}
    {q q' : Queues} {r r' : Except Exn Nat} (h : Routed one i bn ds q r ds' r' q') :
    Agree one (ds one.dst.pid) (ds' one.dst.pid) q q' := by
  cases h with
  | raised => exact Agree.refl one _ _
  | none hds =>
      rw [hds]
      exact Agree.refl one _ _
  | @elsewhere _ _ _ tx hds hcheck =>
      rw [hds]
      refine ⟨[], [((bn, i), tx)], [], (RelayerUnix.pushXtxs_nil _).symm, rfl, ?_, .nil⟩
      rw [letThrough, hcheck]
      rfl
  | @here _ _ _ tx tx' memo hds hcheck hsame =>
      refine ⟨[(i, tx)], [((bn, i), tx')], [(i, { tx' with memo := memo })], hds, rfl, ?_,
        .cons hsame .nil⟩
      rw [letThrough, hcheck]
      rfl

/-- **The transactions of a block.** -/
theorem filterTxsFrom_agree {cfg : RelayerConfig} {one : AsyncRelayerConfig} (h : Pair cfg one)
    (hneg : (-1 : Int) ∉ cfg.allPids) (hpar : cfg.isPar = false) (time time' : Nat → PyFloat)
    (bn : Int) {txs : List Transaction} (htxs : ∀ tx ∈ txs, Routable cfg tx) (i : Nat)
    (ds : Int → DstTool Nat) (q : Queues) :
    Agree one (ds one.dst.pid) ((RelayerUnix.filterTxsFrom cfg time id i txs ds).2 one.dst.pid) q
      (AsyncRelayer.filterTxsFrom (fun _ => none) time' bn i txs q).2 := by
  induction txs generalizing i ds q with
  | nil => exact Agree.refl one _ _
  | cons tx txs ih =>
      obtain ⟨htx, htxs⟩ := List.forall_mem_cons.mp htxs
      have hone := filterTx_routed h hneg hpar (time i) (time' i) bn i htx ds q
      have hcons : AsyncRelayer.filterTxsFrom (fun _ => none) time' bn i (tx :: txs) q
          = (AsyncRelayer.filterTx (time' i) bn i tx >>= fun n =>
            AsyncRelayer.filterTxsFrom (fun _ => none) time' bn (i + 1) txs >>= fun cnt =>
              pure (n + cnt)) q := rfl
      rw [RelayerUnix.filterTxsFrom, hcons]
      rcases hrun : RelayerUnix.filterTx cfg (time i) (id i) tx ds with ⟨r, ds1⟩
      rcases hrun' : AsyncRelayer.filterTx (time' i) bn i tx q with ⟨r', q1⟩
      have hone : Routed one i bn ds q r ds1 r' q1 := by
        rw [show RelayerUnix.filterTx cfg (time i) i tx ds = (r, ds1) from hrun, hrun'] at hone
        exact hone
      have hstep := hone.agree
      -- either both stop here, or both go on with the rest
      have hends : (∃ e e', r = .error e ∧ r' = .error e') ∨ ∃ n m, r = .ok n ∧ r' = .ok m := by
        cases hone with
        | raised e e' => exact Or.inl ⟨e, e', rfl, rfl⟩
        | none => exact Or.inr ⟨_, _, rfl, rfl⟩
        | elsewhere => exact Or.inr ⟨_, _, rfl, rfl⟩
        | here => exact Or.inr ⟨_, _, rfl, rfl⟩
      rcases hends with ⟨e, e', rfl, rfl⟩ | ⟨n, m, rfl, rfl⟩
      · rw [Comp.bind_of_error hrun, Comp.bind_of_error hrun']
        exact hstep
      · rw [Comp.bind_of_ok hrun, Comp.bind_of_ok hrun', Comp.bind_run, Comp.bind_run]
        have hall := hstep.trans (ih htxs (i + 1) ds1 q1)
        rcases hrest : RelayerUnix.filterTxsFrom cfg time id (i + 1) txs ds1 with ⟨r2, ds2⟩
        rcases hrest' : AsyncRelayer.filterTxsFrom (fun _ => none) time' bn (i + 1) txs q1
          with ⟨r2', q2⟩
        rw [hrest, hrest'] at hall
        cases r2 with
        | error e => cases r2' <;> exact hall
        | ok n => cases r2' <;> exact hall

/-- **The queue of a destination in the multiplexing relayer is what the pairwise
relayer to it lets through**, one transaction for one, in order, at the same
positions and with the same memos up to the time of the last mark. -/
theorem multiplex_agrees (cfg : RelayerConfig) (one : AsyncRelayerConfig) (h : Pair cfg one)
    (hneg : ∀ cn ∈ cfg.dsts, cn.pid ≠ -1) (time time' : Nat → PyFloat) (bn : Int)
    (txs : List Transaction) (htxs : ∀ tx ∈ txs, Routable cfg tx) :
    ∃ es gs, ((filterTxs cfg time id txs (fun _ => {})).2 one.dst.pid).queueXtx = es.map some
      ∧ letThrough one (AsyncRelayer.filterTxs one (fun _ => none) time' bn txs {}).2.xtx = .ok gs
      ∧ List.Forall₂ SameEntry es gs := by
  have hneg : (-1 : Int) ∉ cfg.allPids := by
    intro hmem
    obtain ⟨cn, hcn, heq⟩ := List.mem_map.mp hmem
    exact hneg cn hcn heq
  have hisPar : AsyncRelayer.isPar one = cfg.isPar := by
    rw [AsyncRelayer.isPar, RelayerConfig.isPar, h.mode, h.rlytp]
  unfold filterTxs RelayerUnix.filterTxs AsyncRelayer.filterTxs
  rw [hisPar]
  cases hpar : cfg.isPar with
  | true => exact ⟨[], [], rfl, rfl, .nil⟩
  | false =>
      obtain ⟨es, fs, gs, hes, hfs, hlet, hall⟩ :=
        filterTxsFrom_agree h hneg hpar time time' bn htxs 0 (fun _ => {}) {}
      refine ⟨es, gs, ?_, ?_, hall⟩
      · rw [if_neg Bool.false_ne_true, hes]
        rfl
      · rw [if_neg Bool.false_ne_true, hfs]
        exact hlet

/-! ## §5. Two deployments. -/

/-- A multiplexing relayer from chain `0` to the chain `pid`. -/
def multiplexTo (pid : Int) (h : pid ≠ 0) : RelayerConfig where
  src := { pid := 0, paratype := "Tendermint" }
  mode := .nor
  dsts := [{ pid := pid, paratype := "Ethereum" }]
  pids_nodup := List.nodup_singleton pid
  src_not_dst := by simpa using h
  rlytp_iff := nor_rlytp
  pap_inter := nor_pap

/-- The pairwise relayer between the two. -/
def pairwiseTo (pid : Int) : AsyncRelayerConfig where
  src := { pid := 0, paratype := "Tendermint" }
  dst := { pid := pid, paratype := "Ethereum" }
  mode := .nor
  rlytp := none
  rlytp_iff := nor_rlytp
  pap_inter := nor_pap
  par_inter := nor_par

theorem pair_to {pid : Int} (h : pid ≠ 0) (hrelay : pid ≠ interPid) :
    Pair (multiplexTo pid h) (pairwiseTo pid) := by
  refine ⟨rfl, rfl, rfl, List.mem_cons_self, fun cn hcn => ?_⟩
  rcases List.mem_cons.mp hcn with rfl | hcn
  · have h0 : (0 : Int) ≠ interPid := by decide
    exact ⟨fun h => (nomatch h), fun h => absurd h h0⟩
  · rw [List.mem_singleton.mp hcn]
    exact ⟨fun h => (nomatch h), fun h => absurd h hrelay⟩

/-- A successful cross-chain transaction to the chain `pid`. -/
def txTo (pid : Int) : Transaction where
  to_ := .str "lightclient"
  memo := memoOf [("type", .str TranMemo.ctxSrc), ("dst", .int pid)]
  status := .success

theorem routable_to {pid : Int} (h : pid ≠ 0) : Routable (multiplexTo pid h) (txTo pid) := by
  have hfield : ∀ k, memoField (txTo pid).memo k
      = [("type", Json.str TranMemo.ctxSrc), ("dst", Json.int pid)].lookup k :=
    memoField_memoOf (by simp [Json.wf, Json.wfFields])
  intro _ ty hty _
  rw [hfield] at hty
  cases hty
  refine ⟨pid, by rw [hfield]; rfl, ?_⟩
  show pid ∈ (multiplexTo pid h).allPids
  exact List.mem_cons_self

/-- The transaction comes to chain `1` either way. -/
theorem multiplex_agrees_sample :
    ∃ es gs, ((filterTxs (multiplexTo 1 (by decide)) (fun _ => PyFloat.zero) id [txTo 1]
        (fun _ => {})).2 (pairwiseTo 1).dst.pid).queueXtx = es.map some
      ∧ letThrough (pairwiseTo 1) (AsyncRelayer.filterTxs (pairwiseTo 1) (fun _ => none)
        (fun _ => PyFloat.zero) 5 [txTo 1] {}).2.xtx = .ok gs
      ∧ List.Forall₂ SameEntry es gs := by
  have hpair : Pair (multiplexTo 1 (by decide)) (pairwiseTo 1) := pair_to _ (by decide)
  have hneg : ∀ cn ∈ (multiplexTo 1 (by decide)).dsts, cn.pid ≠ -1 := by
    intro cn hcn
    rw [List.mem_singleton.mp hcn]
    decide
  have htxs : ∀ tx ∈ [txTo 1], Routable (multiplexTo 1 (by decide)) tx := by
    intro tx htx
    rw [List.mem_singleton.mp htx]
    exact routable_to _
  exact multiplex_agrees _ _ hpair hneg _ _ 5 _ htxs

/-- **A registered chain with the id `-1` gets the transactions for it from the pairwise
relayer only**: to the multiplexing one `-1` is "no next hop". -/
theorem minus_one_differs :
    Pair (multiplexTo (-1) (by decide)) (pairwiseTo (-1))
      ∧ Routable (multiplexTo (-1) (by decide)) (txTo (-1))
      ∧ ¬ ∃ es gs, ((filterTxs (multiplexTo (-1) (by decide)) (fun _ => PyFloat.zero) id [txTo (-1)]
          (fun _ => {})).2 (pairwiseTo (-1)).dst.pid).queueXtx = es.map some
        ∧ letThrough (pairwiseTo (-1)) (AsyncRelayer.filterTxs (pairwiseTo (-1)) (fun _ => none)
          (fun _ => PyFloat.zero) 5 [txTo (-1)] {}).2.xtx = .ok gs
        ∧ List.Forall₂ SameEntry es gs := by
  refine ⟨pair_to _ (by decide), routable_to _, ?_⟩
  -- the multiplexing relayer queues nothing, the pairwise one lets one through
  have hnone : ((filterTxs (multiplexTo (-1) (by decide)) (fun _ => PyFloat.zero) id [txTo (-1)]
      (fun _ => {})).2 (pairwiseTo (-1)).dst.pid).queueXtx.length = 0 := by decide +kernel
  have hone : (letThrough (pairwiseTo (-1)) (AsyncRelayer.filterTxs (pairwiseTo (-1)) (fun _ => none)
      (fun _ => PyFloat.zero) 5 [txTo (-1)] {}).2.xtx).toOption.map List.length = some 1 := by
    decide +kernel
  rintro ⟨es, gs, hes, hgs, hall⟩
  have hlen := hall.length_eq
  rw [hes, List.length_map] at hnone
  rw [hgs] at hone
  rw [hnone] at hlen
  have hone : gs.length = 1 := Option.some.inj hone
  omega

end MultiplexAsyncRelayer

end TorSim
