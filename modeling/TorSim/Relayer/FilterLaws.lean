/-
  TorSim.Relayer.FilterLaws — what a block puts into a relayer's queues.

  Main results:
    * `forward_eq_ok` — **what is forwarded of a transaction, and where to**, in
      terms of the type and the destination in its memo.
    * `filterHeader_run` — the header goes to each destination at most once.
    * `filterTxsFrom_run` — per destination, the forwarded transactions join the
      queue in the order of the block.
-/
import TorSim.Relayer.RelayerUnix
import TorSim.Blockchain.ChainLaws

namespace TorSim

open TorSim.Lib

variable {κ : Type}

namespace RelayerUnix

/-! ## §1. One transaction. -/

/-- The next hop by the memo's entries: the new type and the destination. -/
def hopOf (cfg : RelayerConfig) (ty dst : Option Json) : Option (String × Int) := do
  let ty ← ty
  let (ty', hop) ← nextHop cfg ty
  let pid ← match hop with
    | some pid => some pid
    | none => ((dst.getD (.int (-1))).toInt).toOption
  if pid = -1 then none else some (ty', pid)

/-- A forwarded transaction: the type is the next hop's, the source this
relayer's; body, height, status, output and the other entries are kept. -/
structure Forwarded (tx tx' : Transaction) (ty : String) : Prop where
  body : tx'.body = tx.body
  height : tx'.height = tx.height
  status : tx'.status = tx.status
  out : tx'.out = tx.out
  type : memoField tx'.memo "type" = some (.str ty)
  memo : ∀ k, k ≠ "type" → k ≠ "src" → k ≠ "ts" → memoField tx'.memo k = memoField tx.memo k

theorem markTx_eq_ok {timeKey : String} {time : PyFloat} {tx tx' : Transaction}
    (h : markTx timeKey time tx = .ok tx') :
    ∃ memo, stampRelayer timeKey time tx.memo = .ok memo ∧ tx' = { tx with memo := memo } := by
  obtain ⟨memo, hmemo, h⟩ := except_bind_ok h
  exact ⟨memo, hmemo, (Except.ok.inj h).symm⟩

/-- A transaction the relayer has marked can be marked again. -/
theorem markTx_again {timeKey : String} {time : PyFloat} {tx tx' : Transaction}
    (h : markTx timeKey time tx = .ok tx') (timeKey' : String) (time' : PyFloat) :
    ∃ tx'', markTx timeKey' time' tx' = .ok tx'' := by
  obtain ⟨memo, hmemo, rfl⟩ := markTx_eq_ok h
  obtain ⟨memo', hagain⟩ := stampRelayer_again hmemo timeKey' time'
  refine ⟨{ tx with memo := memo' }, ?_⟩
  unfold markTx
  rw [hagain]
  rfl

/-- A relayer's mark keeps what is kept of a transaction. -/
theorem kept_markTx {timeKey : String} {time : PyFloat} {tx tx' : Transaction}
    (h : markTx timeKey time tx = .ok tx') : tx'.kept = tx.kept := by
  obtain ⟨memo, hmemo, rfl⟩ := markTx_eq_ok h
  exact Transaction.kept_eq rfl (fun k hk => memoField_stampRelayer hmemo hk)

/-- Only the two cross-chain types have a next hop. -/
theorem isXtx_of_nextHop {cfg : RelayerConfig} {ty : Json} {r : String × Option Int}
    (h : nextHop cfg ty = some r) :
    (ty.isStr TranMemo.ctxSrc || ty.isStr TranMemo.ctxInter) = true := by
  unfold nextHop at h
  cases hsrc : ty.isStr TranMemo.ctxSrc with
  | true => rfl
  | false =>
      cases hint : ty.isStr TranMemo.ctxInter with
      | true => rfl
      | false =>
          rw [hsrc, hint] at h
          cases hm : cfg.mode <;> simp [hm] at h

/-- `parse_next_pid` in terms of the memo's entries. -/
theorem parseNextPid_eq_ok {cfg : RelayerConfig} {tx tx' : Transaction} {pid : Int}
    (h : parseNextPid cfg tx = .ok (tx', pid)) :
    (pid = -1 ∧ hopOf cfg (memoField tx.memo "type") (memoField tx.memo "dst") = none)
      ∨ ∃ kvs ty, Json.loadsValue tx.memo = .ok (.obj kvs)
        ∧ tx' = { tx with memo := rewriteMemo kvs ty cfg.src.pid }
        ∧ ∃ hop t, kvs.lookup "type" = some t ∧ nextHop cfg t = some (ty, hop)
          ∧ (hop = some pid ∨ hop = none
            ∧ ((kvs.lookup "dst").getD (.int (-1))).toInt = .ok pid) := by
  obtain ⟨memo, hmemo, h⟩ := except_bind_ok h
  obtain ⟨t, ht, h⟩ := except_bind_ok h
  cases memo with
  | obj kvs =>
      have hfield := memoField_of_loads hmemo
      have hlook : kvs.lookup "type" = some t := by
        simp only [Json.getItem] at ht
        cases hl : kvs.lookup "type" with
        | none =>
            rw [hl] at ht
            cases ht
        | some x =>
            rw [hl] at ht
            rw [Except.ok.inj ht]
      dsimp only at h
      cases hn : nextHop cfg t with
      | none =>
          rw [hn] at h
          cases h
          refine Or.inl ⟨rfl, ?_⟩
          simp [hopOf, hfield, hlook, hn]
      | some r =>
          obtain ⟨ty, hop⟩ := r
          rw [hn] at h
          dsimp only at h
          cases hop with
          | some p =>
              cases h
              exact Or.inr ⟨kvs, ty, hmemo, rfl, some pid, t, hlook, hn, Or.inl rfl⟩
          | none =>
              obtain ⟨d, hd, h⟩ := except_bind_ok h
              obtain ⟨p, hp, h⟩ := except_bind_ok h
              cases h
              cases hd
              exact Or.inr ⟨kvs, ty, hmemo, rfl, none, t, hlook, hn, Or.inr ⟨rfl, hp⟩⟩
  | _ => cases ht

/-- **What is forwarded of a transaction, and where to.** -/
theorem forward_eq_ok {cfg : RelayerConfig} {time : PyFloat} {tx : Transaction}
    {next : Option (Int × Transaction)} (h : forward cfg time tx = .ok next) :
    (next = none ∧ (tx.status = .success →
        hopOf cfg (memoField tx.memo "type") (memoField tx.memo "dst") = none))
      ∨ ∃ pid tx' ty, next = some (pid, tx') ∧ tx.status = .success
        ∧ hopOf cfg (memoField tx.memo "type") (memoField tx.memo "dst") = some (ty, pid)
        ∧ Forwarded tx tx' ty := by
  obtain ⟨xtx, hxtx, h⟩ := except_bind_ok h
  by_cases hgo : (xtx && tx.status == .success) = true
  · rw [if_pos hgo] at h
    obtain ⟨_, hstatus⟩ := Bool.and_eq_true_iff.mp hgo
    have hstatus : tx.status = .success := by simpa using hstatus
    obtain ⟨⟨tx1, pid⟩, hparse, h⟩ := except_bind_ok h
    dsimp only at h
    by_cases hpid : pid = -1
    · rw [if_pos hpid] at h
      cases h
      refine Or.inl ⟨rfl, fun _ => ?_⟩
      rcases parseNextPid_eq_ok hparse with ⟨_, hnone⟩ | ⟨kvs, ty, hl, _, hop, t, ht, hn, hp⟩
      · exact hnone
      · have hfield := memoField_of_loads hl
        rw [hpid] at hp
        rcases hp with rfl | ⟨rfl, hp⟩
        · simp [hopOf, hfield, ht, hn]
        · simp [hopOf, hfield, ht, hn, hp, Except.toOption]
    · rw [if_neg hpid] at h
      obtain ⟨tx2, hmark, h⟩ := except_bind_ok h
      cases h
      rcases parseNextPid_eq_ok hparse with ⟨hneg, _⟩ | ⟨kvs, ty, hl, rfl, hop, t, ht, hn, hp⟩
      · exact absurd hneg hpid
      · obtain ⟨memo, hmemo, rfl⟩ := markTx_eq_ok hmark
        have hfield := memoField_of_loads hl
        obtain ⟨hty, hrest⟩ := memoField_rewriteMemo (Json.loadsValue_wf hl) ty cfg.src.pid
        refine Or.inr ⟨pid, _, ty, rfl, hstatus, ?_, ?_⟩
        · rcases hp with rfl | ⟨rfl, hp⟩
          · simp [hopOf, hfield, ht, hn, hpid]
          · simp [hopOf, hfield, ht, hn, hp, hpid, Except.toOption]
        · refine ⟨rfl, rfl, rfl, rfl, ?_, ?_⟩
          · exact (memoField_stampRelayer hmemo (by decide)).trans hty
          · intro k hk1 hk2 hk3
            rw [hfield]
            exact (memoField_stampRelayer hmemo hk3).trans (hrest k hk1 hk2)
  · rw [if_neg hgo] at h
    cases h
    refine Or.inl ⟨rfl, fun hstatus => ?_⟩
    have hnot : xtx = false := by
      cases xtx with
      | false => rfl
      | true => simp [hstatus] at hgo
    obtain ⟨memo, hmemo, hxtx⟩ := except_bind_ok hxtx
    obtain ⟨t, ht, hxtx⟩ := except_bind_ok hxtx
    obtain ⟨kvs, rfl, rfl⟩ := get_eq_ok ht
    have hfield := memoField_of_loads hmemo
    cases hl : kvs.lookup "type" with
    | none => simp [hopOf, hfield, hl]
    | some t =>
        cases hn : nextHop cfg t with
        | none => simp [hopOf, hfield, hl, hn]
        | some r =>
            have htrue := isXtx_of_nextHop hn
            rw [hl, Option.getD_some] at hxtx
            rw [← Except.ok.inj hxtx] at hnot
            rw [hnot] at htrue
            cases htrue

/-- The destinations a relayer forwards headers to. -/
def headerTargets (cfg : RelayerConfig) : List Int :=
  (headerDsts cfg).filter (fun pid => pid ≠ cfg.src.pid)

theorem headerDsts_nodup (cfg : RelayerConfig) : (headerDsts cfg).Nodup := by
  unfold headerDsts
  have hall : cfg.allPids.Nodup := cfg.pids_nodup
  cases cfg.mode with
  | nor => exact hall
  | aor =>
      dsimp only
      split
      · exact hall
      · simp
  | tor =>
      dsimp only
      split
      · split
        · exact hall
        · simp
      · simp

theorem getConnector_cases (cfg : RelayerConfig) (pid : Int) :
    (pid ∈ cfg.allPids ∧ getConnector cfg pid = .ok ())
      ∨ (pid ∉ cfg.allPids ∧ ∃ e, getConnector cfg pid = .error e) := by
  unfold getConnector
  by_cases h : pid ∈ cfg.allPids
  · exact Or.inl ⟨h, by rw [decide_eq_true h]; rfl⟩
  · exact Or.inr ⟨h, _, by rw [decide_eq_false h]; rfl⟩

@[simp] theorem updateDst_self (pid : Int) (f : DstTool κ → DstTool κ) (ds : Int → DstTool κ) :
    updateDst pid f ds pid = f (ds pid) := by
  simp [updateDst]

theorem updateDst_ne {pid p : Int} (h : pid ≠ p) (f : DstTool κ → DstTool κ)
    (ds : Int → DstTool κ) : updateDst p f ds pid = ds pid := by
  simp [updateDst, h]

theorem putHeader_cases (cfg : RelayerConfig) (header : Json) (pid : Int)
    (ds : Int → DstTool κ) :
    putHeader cfg header pid ds = (.ok (), updateDst pid (DstTool.pushHeader header) ds)
      ∨ ∃ e, putHeader cfg header pid ds = (.error e, ds) := by
  unfold putHeader
  rcases getConnector_cases cfg pid with ⟨_, hget⟩ | ⟨_, e, hget⟩
  · rw [hget]
    exact Or.inl rfl
  · rw [hget]
    exact Or.inr ⟨e, rfl⟩

/-- Over distinct destinations the loop puts the header into each queue at most
once, and into each of them if it does not raise. -/
theorem forEach_putHeader (cfg : RelayerConfig) (header : Json) (l : List Int) :
    l.Nodup → ∀ (ds : Int → DstTool κ) (r : Except Exn Unit) (ds' : Int → DstTool κ),
      Comp.forEach (fun pid => if pid ≠ cfg.src.pid then putHeader cfg header pid else pure ()) l ds
        = (r, ds') →
      (∀ pid, ds' pid = ds pid
        ∨ (pid ∈ l ∧ pid ≠ cfg.src.pid ∧ ds' pid = (ds pid).pushHeader header))
      ∧ (r = .ok () → ∀ pid ∈ l, pid ≠ cfg.src.pid → ds' pid = (ds pid).pushHeader header) := by
  induction l with
  | nil =>
      intro _ ds r ds' h
      cases h
      exact ⟨fun pid => Or.inl rfl, fun _ pid hpid => by cases hpid⟩
  | cons p l ih =>
      intro hnd ds r ds' h
      obtain ⟨hp, hnd⟩ := List.nodup_cons.mp hnd
      rw [Comp.forEach] at h
      by_cases hsrc : p ≠ cfg.src.pid
      · rw [if_pos hsrc] at h
        rcases putHeader_cases cfg header p ds with hput | ⟨e, hput⟩
        · rw [Comp.bind_of_ok hput] at h
          obtain ⟨hall, hok⟩ := ih hnd _ r ds' h
          constructor
          · intro pid
            by_cases hpid : pid = p
            · subst hpid
              rcases hall pid with hsame | ⟨hmem, _, _⟩
              · exact Or.inr ⟨List.mem_cons_self, hsrc, hsame.trans (updateDst_self _ _ _)⟩
              · exact absurd hmem hp
            · have hother := updateDst_ne hpid (DstTool.pushHeader header) ds
              rcases hall pid with hsame | ⟨hmem, hne, hpush⟩
              · exact Or.inl (hsame.trans hother)
              · exact Or.inr ⟨List.mem_cons_of_mem _ hmem, hne, hother ▸ hpush⟩
          · intro hr pid hmem hne
            by_cases hpid : pid = p
            · subst hpid
              rcases hall pid with hsame | ⟨hmem', _, _⟩
              · exact hsame.trans (updateDst_self _ _ _)
              · exact absurd hmem' hp
            · have hother := updateDst_ne hpid (DstTool.pushHeader header) ds
              rcases List.mem_cons.mp hmem with rfl | hmem
              · exact absurd rfl hpid
              · exact hother ▸ hok hr pid hmem hne
        · rw [Comp.bind_of_error hput] at h
          cases h
          exact ⟨fun pid => Or.inl rfl, fun hr => by cases hr⟩
      · rw [if_neg hsrc, Comp.pure_bind_run] at h
        obtain ⟨hall, hok⟩ := ih hnd ds r ds' h
        refine ⟨fun pid => (hall pid).imp_right ?_, ?_⟩
        · rintro ⟨hmem, hne, hpush⟩
          exact ⟨List.mem_cons_of_mem _ hmem, hne, hpush⟩
        · intro hr pid hmem hne
          rcases List.mem_cons.mp hmem with rfl | hmem
          · exact absurd hne hsrc
          · exact hok hr pid hmem hne

/-- **The header goes to each destination at most once**, and to all targets if
nothing is raised. -/
theorem filterHeader_run {cfg : RelayerConfig} {header : Json} {ds ds' : Int → DstTool κ}
    {r : Except Exn Unit} (h : filterHeader cfg header ds = (r, ds')) :
    (∀ pid, ds' pid = ds pid
      ∨ (pid ∈ headerTargets cfg ∧ ds' pid = (ds pid).pushHeader header))
    ∧ (r = .ok () → ∀ pid ∈ headerTargets cfg, ds' pid = (ds pid).pushHeader header) := by
  obtain ⟨hall, hok⟩ := forEach_putHeader cfg header _ (headerDsts_nodup cfg) ds r ds' h
  constructor
  · intro pid
    refine (hall pid).imp_right ?_
    rintro ⟨hmem, hne, hpush⟩
    exact ⟨List.mem_filter.mpr ⟨hmem, by simpa using hne⟩, hpush⟩
  · intro hr pid hpid
    obtain ⟨hmem, hne⟩ := List.mem_filter.mp hpid
    exact hok hr pid hmem (by simpa using hne)

/-! ## §3. The transactions. -/

/-- The part of what is forwarded of one transaction that goes to `pid`. -/
def addressed (tag : κ) (next : Option (Int × Transaction)) (pid : Int) :
    List (κ × Transaction) :=
  match next with
  | some (p, tx) => if p = pid then [(tag, tx)] else []
  | none => []

/-- What a block's transactions, numbered from `i`, put into the queue of `pid`. -/
def forwards (cfg : RelayerConfig) (time : Nat → PyFloat) (tag : Nat → κ) (pid : Int) :
    Nat → List Transaction → List (κ × Transaction)
  | _, [] => []
  | i, tx :: txs =>
      (match forward cfg (time i) tx with
        | .ok next => addressed (tag i) next pid
        | .error _ => []) ++ forwards cfg time tag pid (i + 1) txs

/-- Whatever a block puts into a queue was forwarded there. -/
theorem mem_forwards_run {cfg : RelayerConfig} {time : Nat → PyFloat} {tag : Nat → κ} {pid : Int}
    {e : κ × Transaction} (txs : List Transaction) :
    ∀ i : Nat, e ∈ forwards cfg time tag pid i txs →
      ∃ j, ∃ tx ∈ txs, forward cfg (time j) tx = .ok (some (pid, e.2)) := by
  induction txs with
  | nil => exact fun i he => nomatch he
  | cons tx txs ih =>
      intro i he
      rcases List.mem_append.mp he with hin | hin
      · refine ⟨i, tx, List.mem_cons_self, ?_⟩
        cases hf : forward cfg (time i) tx with
        | error x =>
            rw [hf] at hin
            cases hin
        | ok next =>
            rw [hf] at hin
            rcases next with _ | ⟨p, tx'⟩
            · cases hin
            · dsimp only [addressed] at hin
              by_cases hp : p = pid
              · rw [if_pos hp] at hin
                rw [List.mem_singleton.mp hin, hp]
              · rw [if_neg hp] at hin
                cases hin
      · obtain ⟨j, tx', htx', hfwd⟩ := ih (i + 1) hin
        exact ⟨j, tx', List.mem_cons_of_mem _ htx', hfwd⟩

/-- **Whatever a block puts into a queue is one of its transactions forwarded** to
that destination. -/
theorem mem_forwards {cfg : RelayerConfig} {time : Nat → PyFloat} {tag : Nat → κ} {pid : Int}
    {e : κ × Transaction} (txs : List Transaction) (i : Nat)
    (he : e ∈ forwards cfg time tag pid i txs) : ∃ tx ∈ txs, ∃ ty,
      hopOf cfg (memoField tx.memo "type") (memoField tx.memo "dst") = some (ty, pid)
        ∧ Forwarded tx e.2 ty := by
  obtain ⟨j, tx, htx, hf⟩ := mem_forwards_run txs i he
  rcases forward_eq_ok hf with ⟨hnone, _⟩ | ⟨p, tx', ty, hsome, _, hhop, hfwd⟩
  · cases hnone
  · cases hsome
    exact ⟨tx, htx, ty, hhop, hfwd⟩

@[simp] theorem pushXtxs_nil (d : DstTool κ) : DstTool.pushXtxs [] d = d := by
  cases d
  simp [DstTool.pushXtxs]

theorem pushXtxs_append (es fs : List (κ × Transaction)) (d : DstTool κ) :
    DstTool.pushXtxs fs (DstTool.pushXtxs es d) = DstTool.pushXtxs (es ++ fs) d := by
  simp [DstTool.pushXtxs]

/-- One transaction: it raises and changes nothing, or joins the queue it is
addressed to, which belongs to a destination. -/
theorem filterTx_cases (cfg : RelayerConfig) (time : PyFloat) (tag : κ) (tx : Transaction)
    (ds : Int → DstTool κ) :
    (∃ e, filterTx cfg time tag tx ds = (.error e, ds))
      ∨ ∃ next n ds', forward cfg time tx = .ok next
        ∧ filterTx cfg time tag tx ds = (.ok n, ds')
        ∧ (∀ pid, ds' pid = (ds pid).pushXtxs (addressed tag next pid))
        ∧ ∀ p tx', next = some (p, tx') → p ∈ cfg.allPids := by
  unfold filterTx
  cases hf : forward cfg time tx with
  | error e => exact Or.inl ⟨e, rfl⟩
  | ok next =>
      rw [Comp.lift_ok_bind_run]
      cases next with
      | none =>
          exact Or.inr ⟨none, 0, ds, rfl, rfl, fun pid => (pushXtxs_nil _).symm,
            fun p tx' hp => nomatch hp⟩
      | some e =>
          obtain ⟨p, tx'⟩ := e
          unfold putTx
          rcases getConnector_cases cfg p with ⟨hp, hget⟩ | ⟨_, e, hget⟩
          · refine Or.inr ⟨some (p, tx'), 1, updateDst p (DstTool.pushXtxs [(tag, tx')]) ds, rfl,
              ?_, ?_, ?_⟩
            · dsimp only
              rw [hget]
              rfl
            · intro pid
              by_cases hpid : pid = p
              · subst hpid
                simp [addressed]
              · rw [updateDst_ne hpid, addressed, if_neg (Ne.symm hpid), pushXtxs_nil]
            · intro q tx'' hq
              cases hq
              exact hp
          · refine Or.inl ⟨e, ?_⟩
            dsimp only
            rw [hget]
            rfl

/-- **Per destination, a prefix of what the block forwards joins the queue**, and
all of it if nothing is raised. -/
theorem filterTxsFrom_run (cfg : RelayerConfig) (time : Nat → PyFloat) (tag : Nat → κ)
    (txs : List Transaction) : ∀ (i : Nat) (ds : Int → DstTool κ) (r : Except Exn Nat)
      (ds' : Int → DstTool κ), filterTxsFrom cfg time tag i txs ds = (r, ds') →
      (∀ pid, ∃ es, es <+: forwards cfg time tag pid i txs ∧ ds' pid = (ds pid).pushXtxs es
        ∧ ((∃ n, r = .ok n) → es = forwards cfg time tag pid i txs))
      ∧ ((∃ n, r = .ok n) → ∀ tx ∈ txs, ∃ t next, forward cfg t tx = .ok next
          ∧ ∀ p tx', next = some (p, tx') → p ∈ cfg.allPids) := by
  induction txs with
  | nil =>
      intro i ds r ds' h
      cases h
      exact ⟨fun pid => ⟨[], List.prefix_rfl, (pushXtxs_nil _).symm, fun _ => rfl⟩,
        fun _ tx htx => nomatch htx⟩
  | cons tx txs ih =>
      intro i ds r ds' h
      rw [filterTxsFrom] at h
      rcases filterTx_cases cfg (time i) (tag i) tx ds with
        ⟨e, hrun⟩ | ⟨next, n, ds1, hf, hrun, hds1, hpids⟩
      · rw [Comp.bind_of_error hrun] at h
        cases h
        exact ⟨fun pid => ⟨[], List.nil_prefix, (pushXtxs_nil _).symm, fun ⟨n, hn⟩ => nomatch hn⟩,
          fun ⟨n, hn⟩ => nomatch hn⟩
      · rw [Comp.bind_of_ok hrun] at h
        rcases hrest : filterTxsFrom cfg time tag (i + 1) txs ds1 with ⟨r1, ds2⟩
        obtain ⟨hall, hmem⟩ := ih (i + 1) ds1 r1 ds2 hrest
        obtain ⟨rfl, hr⟩ : ds' = ds2 ∧ ((∃ n, r = .ok n) → ∃ n, r1 = .ok n) := by
          rw [Comp.bind_run, hrest] at h
          cases r1 with
          | error e =>
              cases h
              exact ⟨rfl, fun ⟨n, hn⟩ => nomatch hn⟩
          | ok m =>
              cases h
              exact ⟨rfl, fun _ => ⟨m, rfl⟩⟩
        constructor
        · intro pid
          obtain ⟨es, hpre, heq, hfull⟩ := hall pid
          refine ⟨addressed (tag i) next pid ++ es, ?_, ?_, ?_⟩
          · rw [forwards, hf]
            exact (List.prefix_append_right_inj _).mpr hpre
          · rw [heq, hds1, pushXtxs_append]
          · intro hok
            rw [forwards, hf, hfull (hr hok)]
        · intro hok tx' htx'
          rcases List.mem_cons.mp htx' with rfl | htx'
          · exact ⟨_, next, hf, hpids⟩
          · exact hmem (hr hok) tx' htx'

end RelayerUnix

end TorSim
