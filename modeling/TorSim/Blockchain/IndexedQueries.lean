/-
  TorSim.Blockchain.IndexedQueries — what a query of a transaction reports.

  In the deployment with several processes the index lives in a manager, and
  `txindexer.store(tx)` sends it a copy of the transaction as it is at that
  moment: after the mark of the commit, before the height and the status of the
  block are written.  The block is encoded last.  A query answers from the copy.

  Main results:
    * `reports_iff` — an indexed copy reports a transaction exactly where four
      of its fields agree.
    * `agrees_iff` — what a commit leaves in the index, against its block.
    * `queries_agree_iff` — **in every run, which commits leave an index that
      reports the last block**.
-/
import TorSim.Blockchain.Commit

namespace TorSim

open TorSim.Lib

variable {τ : Type}

namespace Node

variable [Sha256]

/-! ## §1. What a query reports. -/

/-- `query_tx(tx.hash())` answers with the height, status, output and memo of `tx`. -/
def Reports (ix : TransactionIndexer) (tx : Transaction) : Prop :=
  ∃ d text doc, tx.hash = .ok d ∧ Handlers.queryTx (hex d) ix = .ok text
    ∧ Json.loads text = .ok doc
    ∧ doc.getItem "height" = .ok (.int tx.height)
    ∧ doc.getItem "status" = .ok (.int tx.status.value)
    ∧ doc.getItem "out" = .ok tx.out
    ∧ doc.getItem "memo" = .ok tx.memo

/-- The four fields a query is asked for. -/
structure SameReport (copy tx : Transaction) : Prop where
  height : copy.height = tx.height
  status : copy.status = tx.status
  out : copy.out = tx.out
  memo : copy.memo = tx.memo

omit [Sha256] in
theorem value_inj {s t : TxStatus} (h : s.value = t.value) : s = t := by
  have hs := congrArg TxStatus.ofValue h
  rw [TxStatus.ofValue_value, TxStatus.ofValue_value] at hs
  exact Except.ok.inj hs

/-- The answer is the document of the indexed copy. -/
theorem queryTx_eq_ok {ix : TransactionIndexer} {copy : Transaction} {d : Bytes} {text : String}
    (hq : ix.query d = some copy) (h : Handlers.queryTx (hex d) ix = .ok text) :
    ∃ doc, copy.asJson = .ok doc ∧ text = Json.dumps doc := by
  rw [Handlers.queryTx, fromhex_hex] at h
  simp only [bind, Except.bind, hq] at h
  cases hdoc : copy.asJson with
  | error e =>
      rw [hdoc] at h
      cases h
  | ok doc =>
      rw [hdoc] at h
      cases h
      exact ⟨doc, rfl, rfl⟩

/-- **A copy in the index reports a transaction with its hash exactly where the four
fields agree.** -/
theorem reports_iff {ix : TransactionIndexer} {copy tx : Transaction} {d : Bytes}
    (hd : tx.hash = .ok d) (hq : ix.query d = some copy) (hcopy : copy.hash = .ok d)
    (henc : tx.Encodable) (hwf : copy.memo.wf = true) :
    Reports ix tx ↔ SameReport copy tx := by
  constructor
  · rintro ⟨d', text, doc, hd', hquery, hloads, hheight, hstatus, hout, hmemo⟩
    cases Except.ok.inj (hd.symm.trans hd')
    obtain ⟨doc', hdoc, rfl⟩ := queryTx_eq_ok hq hquery
    obtain ⟨hcenc, x, r, _, _, rfl⟩ := Transaction.asJson_eq_ok hdoc
    rw [Json.loads_dumps (Transaction.wf_entries hcenc hwf _ _)] at hloads
    cases hloads
    simp only [Json.getItem, Transaction.entries, List.lookup_cons, List.lookup_nil] at hheight hstatus hout hmemo
    exact ⟨by simpa using hheight, value_inj (by simpa using hstatus), by simpa using hout,
      by simpa using hmemo⟩
  · intro h
    have hcenc : copy.Encodable := by
      refine ⟨Transaction.hash_eq_ok hcopy, ?_, ?_, ?_⟩
      · rw [h.out]
        exact henc.out
      · rw [h.height]
        exact henc.height_nonneg
      · rw [h.height]
        exact henc.height_lt
    obtain ⟨x, r, _, _, hdoc⟩ := Transaction.asJson_of_encodable hcenc
    refine ⟨d, _, _, hd, ?_, Json.loads_dumps (Transaction.wf_entries hcenc hwf (hex x) (hex r)),
      ?_, ?_, ?_, ?_⟩
    · rw [Handlers.queryTx, fromhex_hex]
      simp only [bind, Except.bind, hq, hdoc]
      rfl
    all_goals simp only [Json.getItem, Transaction.entries, List.lookup_cons, List.lookup_nil]
    · rw [← h.height]
      rfl
    · rw [← h.status]
      rfl
    · rw [← h.out]
      rfl
    · rw [← h.memo]
      rfl

/-! ## §2. The index after a commit, against the block. -/

/-- Every transaction of the last block is reported. -/
def LastReported (n : Node τ) : Prop :=
  ∀ b, n.chain.blocks.blocks.getLast? = some b → ∀ tx ∈ b.txs, Reports n.index tx

/-- The last transaction of the batch with the hash of `e` reached the batch with the
block's height, was executed with success and has the output and memo of `e`. -/
def IndexedAlike (p : Proposal τ) (e : Executed τ) : Prop :=
  ∀ d l, e.tx.hash = .ok d → TransactionIndexer.lastWith d (p.done.map Executed.tx) = some l →
    l.height = p.height ∧ l.status = .success ∧ l.out = e.tx.out
      ∧ openMarks "commit" l.memo = openMarks "commit" e.tx.memo

/-- The mark of the commit on a transaction. -/
def MarkedAs (time : PyFloat) (tx m : Transaction) : Prop :=
  ∃ memo, stampMemo "commit" time tx.memo = .ok memo ∧ m = { tx with memo := memo }

omit [Sha256] in
theorem find?_rel {α : Type} {R : α → α → Prop} {f : α → Bool} (hR : ∀ x y, R x y → f x = f y)
    {xs ys : List α} (h : List.Forall₂ R xs ys) : Option.Rel R (xs.find? f) (ys.find? f) := by
  induction h with
  | nil => exact .none
  | @cons x y xs ys hxy _ ih =>
      rw [List.find?_cons, List.find?_cons, ← hR x y hxy]
      cases f x with
      | true => exact .some hxy
      | false => exact ih

/-- The last transaction with a hash, before and after the mark. -/
theorem lastWith_marked {time : PyFloat} {txs ms : List Transaction} (d : Bytes)
    (h : List.Forall₂ (MarkedAs time) txs ms) :
    Option.Rel (MarkedAs time) (TransactionIndexer.lastWith d txs)
      (TransactionIndexer.lastWith d ms) := by
  refine find?_rel ?_ (List.forall₂_reverse_iff.mpr h)
  rintro tx _ ⟨memo, _, rfl⟩
  rfl

/-- The transaction that a marked batch leaves in the index for a hash, and what it
was before the mark. -/
theorem copy_of_marked {time : PyFloat} {es ms : List (Executed τ)}
    (hmarked : mapE (Chain.markCommit time) es = .ok ms) {m : Executed τ} (hm : m ∈ ms)
    {d : Bytes} (hd : m.tx.hash = .ok d) :
    ∃ l lm, TransactionIndexer.lastWith d (es.map Executed.tx) = some l
      ∧ TransactionIndexer.lastWith d (ms.map Executed.tx) = some lm ∧ lm.hash = .ok d
      ∧ MarkedAs time l lm := by
  have hall : List.Forall₂ (MarkedAs time) (es.map Executed.tx) (ms.map Executed.tx) := by
    rw [List.forall₂_map_left_iff, List.forall₂_map_right_iff]
    refine (mapE_eq_ok hmarked).imp ?_
    intro e m hem
    obtain ⟨memo, hmemo, rfl⟩ := Chain.markCommit_iff.mp hem
    exact ⟨memo, hmemo, rfl⟩
  obtain ⟨lm, hlm, hlmd⟩ := TransactionIndexer.lastWith_of_mem (List.mem_map_of_mem hm) hd
  have hrel := lastWith_marked d hall
  rw [hlm] at hrel
  cases hl : TransactionIndexer.lastWith d (es.map Executed.tx) with
  | none =>
      rw [hl] at hrel
      cases hrel
  | some l =>
      rw [hl] at hrel
      cases hrel with
      | some h => exact ⟨l, lm, rfl, hlm, hlmd, h⟩

omit [Sha256] in
/-- The fields of a marked transaction in the index, against those of another one in
the block. -/
theorem sameReport_iff {time : PyFloat} {height : Int} {e m : Executed τ} {l lm : Transaction}
    (hm : Chain.markCommit time e = .ok m) (hlm : MarkedAs time l lm) :
    SameReport lm (Chain.updateTx height m).tx ↔ l.height = height ∧ l.status = .success
      ∧ l.out = e.tx.out ∧ openMarks "commit" l.memo = openMarks "commit" e.tx.memo := by
  obtain ⟨memo, hmemo, rfl⟩ := Chain.markCommit_iff.mp hm
  obtain ⟨lmemo, hlmemo, rfl⟩ := hlm
  rw [← stampMemo_inj hlmemo hmemo]
  exact ⟨fun h => ⟨h.height, h.status, h.out, h.memo⟩,
    fun ⟨hh, hs, ho, hmm⟩ => ⟨hh, hs, ho, hmm⟩⟩

/-- The last block after a commit that completes. -/
theorem lastBlock_of_commit {n : Node τ} {p : Proposal τ} {time : PyFloat}
    {slots : List (Executed τ)} (hphase : n.chain.phase = .executing p) (hrest : p.rest = [])
    (hidle : (n.commit time p).chain.phase = .idle)
    (hhistory : (n.commit time p).chain.history = n.chain.history ++ [⟨p.committed slots, slots⟩]) :
    (n.commit time p).chain.blocks.blocks.getLast? = some (p.committed slots)
      ∧ ∀ tx ∈ (p.committed slots).txs, tx.Encodable := by
  rw [commit_chain] at hidle hhistory ⊢
  rcases Chain.commit_cases hphase hrest time with hhalt | ⟨slots', hstep⟩
  · rw [hhalt] at hidle
    cases hidle
  · obtain ⟨_, hblocks, _⟩ := Chain.committedOk_of_commit hstep
    obtain ⟨text, hstr, _⟩ := except_bind_ok hstep.stored
    have hsame := List.append_cancel_left (hstep.history.symm.trans hhistory)
    have hslots : slots' = slots := congrArg Committed.slots (List.singleton_inj.mp hsame)
    subst hslots
    exact ⟨by rw [hblocks, List.getLast?_concat], Block.encodable_of_asStr hstr⟩

/-- **A commit that completes leaves an index that reports its block exactly where
every transaction of the batch is indexed alike.** -/
theorem agrees_iff {n : Node τ} {p : Proposal τ} {time : PyFloat}
    (hphase : n.chain.phase = .executing p) (hrest : p.rest = [])
    (hidle : (n.commit time p).chain.phase = .idle) :
    LastReported (n.commit time p) ↔ ∀ e ∈ p.done, IndexedAlike p e := by
  obtain ⟨marked, hmarked, hhash, hhistory, hquery⟩ := stored_in_index hidle
  obtain ⟨hlast, henc⟩ := lastBlock_of_commit hphase hrest hidle hhistory
  have hone : ∀ e m, m ∈ marked → Chain.markCommit time e = .ok m →
      (Reports (n.commit time p).index (Chain.updateTx p.height m).tx ↔ IndexedAlike p e) := by
    intro e m hm hem
    obtain ⟨d, hd⟩ := hhash m hm
    have hed : e.tx.hash = .ok d := by
      obtain ⟨memo, _, rfl⟩ := Chain.markCommit_iff.mp hem
      exact hd
    obtain ⟨l, lm, hl, hlm, hlmd, hmarkedAs⟩ := copy_of_marked hmarked hm hd
    have hindexed : (n.commit time p).index.query d = some lm := by
      rw [hquery, hlm]
      rfl
    have hwf : lm.memo.wf = true := by
      obtain ⟨memo, hmemo, rfl⟩ := hmarkedAs
      obtain ⟨_, _, _, _, _, _, _, rfl⟩ := stampMemo_eq_ok hmemo
      rfl
    have htx : (Chain.updateTx p.height m).tx.Encodable :=
      henc _ (List.mem_map_of_mem (List.mem_map_of_mem hm))
    rw [reports_iff (show (Chain.updateTx p.height m).tx.hash = .ok d from hd) hindexed hlmd htx hwf,
      sameReport_iff hem hmarkedAs]
    constructor
    · intro h d' l' hd' hl'
      cases Except.ok.inj (hed.symm.trans hd')
      cases Option.some.inj (hl.symm.trans hl')
      exact h
    · exact fun h => h d l hed hl
  constructor
  · intro h e he
    obtain ⟨m, hm, hem⟩ := forall₂_mem_left (mapE_eq_ok hmarked) he
    exact (hone e m hm hem).mp
      (h _ hlast _ (List.mem_map_of_mem (List.mem_map_of_mem hm)))
  · intro h b hb tx htx
    cases Option.some.inj (hlast.symm.trans hb)
    obtain ⟨s, hs, rfl⟩ := List.mem_map.mp htx
    obtain ⟨m, hm, rfl⟩ := List.mem_map.mp hs
    obtain ⟨e, he, hem⟩ := mapE_mem_right hmarked hm
    exact (hone e m hm hem).mpr (h e he)

/-! ## §3. Whole runs. -/

section Runs

variable [Contracts]

/-- If the action is a commit that returns, every transaction of the block it
committed is reported. -/
def AgreesAfter (cfg : Config) (n : Node τ) (a : Chain.Action τ) : Prop :=
  ∀ time n', a = .commit time → step cfg n a = some n' → n'.chain.phase = .idle → LastReported n'

/-- If the action commits a batch of ready transactions, they are indexed alike. -/
def CommitsAlike (n : Node τ) (a : Chain.Action τ) : Prop :=
  ∀ time p, a = .commit time → n.chain.phase = .executing p → p.rest = [] →
    (∀ e ∈ p.done, CommitReady p.height e.tx) → ∀ e ∈ p.done, IndexedAlike p e

theorem agreesAfter_iff {cfg : Config} {n : Node τ} (hn : Sound n) (a : Chain.Action τ) :
    AgreesAfter cfg n a ↔ CommitsAlike n a := by
  constructor
  · rintro h time p rfl hphase hrest hall
    have hstep : step cfg n (.commit time) = some (n.commit time p) := by
      rw [step, hphase]
      simp [hrest]
    have hidle := (hn.returns_iff hphase hrest time).mpr hall
    exact (agrees_iff hphase hrest hidle).mp (h time _ rfl hstep hidle)
  · rintro h time n' rfl hstep hidle
    rw [step] at hstep
    split at hstep
    next p hphase =>
        split at hstep
        next hrest =>
            cases hstep
            have hnil := List.isEmpty_iff.mp hrest
            exact (agrees_iff hphase hnil hidle).mpr
              (h time p rfl hphase hnil ((hn.returns_iff hphase hnil time).mp hidle))
        next => cases hstep
    next => cases hstep

/-- **In every run, every commit that returns leaves an index that reports the block
it committed exactly where every such commit indexes its batch alike.** -/
theorem queries_agree_iff (cfg : Config) (n0 : Node τ) (acts : List (Chain.Action τ))
    (h0 : n0.chain.Fresh) (hempty : n0.chain.pool.items = []) :
    Along (step cfg) (AgreesAfter cfg) n0 acts ↔ Along (step cfg) CommitsAlike n0 acts :=
  along_congr (P := Sound) (fun _ _ _ hn h => step_sound hn h) (fun _ a hn => agreesAfter_iff hn a)
    acts (sound_of_fresh h0 hempty)

end Runs

/-- In a batch of one transaction only its own height and status matter. -/
theorem indexedAlike_one {p : Proposal τ} {e : Executed τ} (hp : p.done = [e]) {d : Bytes}
    (hd : e.tx.hash = .ok d) :
    IndexedAlike p e ↔ e.tx.height = p.height ∧ e.tx.status = .success := by
  have hlast : TransactionIndexer.lastWith d (p.done.map Executed.tx) = some e.tx := by
    have hself : e.tx ∈ p.done.map Executed.tx := by
      rw [hp]
      exact List.mem_singleton_self _
    obtain ⟨l, hl, _⟩ := TransactionIndexer.lastWith_of_mem hself hd
    have hmem := TransactionIndexer.mem_of_lastWith hl
    rw [hp, List.map_singleton, List.mem_singleton] at hmem
    rw [hl, hmem]
  constructor
  · intro h
    obtain ⟨hh, hs, _, _⟩ := h d _ hd hlast
    exact ⟨hh, hs⟩
  · intro h d' l hd' hl
    cases Except.ok.inj (hd.symm.trans hd')
    cases Option.some.inj (hlast.symm.trans hl)
    exact ⟨h.1, h.2, rfl, rfl⟩

/-- A batch of one ready transaction is indexed alike if it came with the block's
height and succeeded. -/
theorem commitsAlike_one [Contracts] {n : Node τ} {p : Proposal τ} {e : Executed τ}
    (hphase : n.chain.phase = .executing p) (hrest : p.rest = []) (hp : p.done = [e])
    (hready : CommitReady p.height e.tx) (time : PyFloat) :
    CommitsAlike n (.commit time) ↔ e.tx.height = p.height ∧ e.tx.status = .success := by
  obtain ⟨d, hd⟩ := Transaction.hash_of_hashable hready.toHashable
  rw [← indexedAlike_one hp hd]
  have hall : (∀ e' ∈ p.done, CommitReady p.height e'.tx) ∧ (∀ e' ∈ p.done, e' = e) := by
    rw [hp]
    exact ⟨List.forall_mem_singleton.mpr hready, List.forall_mem_singleton.mpr rfl⟩
  constructor
  · intro h
    exact h time p rfl hphase hrest hall.1 e (by rw [hp]; exact List.mem_singleton_self e)
  · intro h _ q _ hq _ _ e' he'
    cases hphase.symm.trans hq
    rw [hall.2 e' he']
    exact h

omit [Sha256] in
/-- The batch of a submitted transaction, executed. -/
theorem afterOne_done (tx : Transaction) (f : Proposal Nat → Executed Nat → Bool)
    (h : (afterOne tx).map (fun r => match r.2.done with
      | [e] => decide (CommitReady r.2.height e.tx) && f r.2 e
      | _ => false) = some true) :
    ∃ n p e, runFrom (@step Nat Sha256.plain Contracts.plain {}) started (executeOne tx) = some n
      ∧ n.chain.phase = .executing p ∧ p.rest = [] ∧ p.done = [e]
      ∧ CommitReady p.height e.tx ∧ f p e = true := by
  obtain ⟨⟨n, p⟩, hafter, heval⟩ := Option.map_eq_some_iff.mp h
  obtain ⟨hrun, hphase, hrest⟩ := afterOne_eq_some hafter
  dsimp only at heval
  split at heval
  next e hdone =>
      obtain ⟨hready, hf⟩ := Bool.and_eq_true_iff.mp heval
      exact ⟨n, p, e, hrun, hphase, hrest, hdone, of_decide_eq_true hready, hf⟩
  next => cases heval

omit [Sha256] in
/-- A transaction submitted with the height its block will have is reported. -/
theorem queries_agree_iff_sample :
    Along (@step Nat Sha256.plain Contracts.plain {})
      (@AgreesAfter Nat Sha256.plain Contracts.plain {}) started
      (executeOne { Chain.sampleTx with height := 1 } ++ [.commit PyFloat.zero]) := by
  let _ := Sha256.plain
  let _ := Contracts.plain
  refine (queries_agree_iff {} started _ Chain.started_fresh rfl).mpr ?_
  obtain ⟨n, p, e, hrun, hphase, hrest, hdone, hready, hok⟩ :=
    afterOne_done { Chain.sampleTx with height := 1 }
      (fun p e => decide (e.tx.height = p.height ∧ e.tx.status = .success))
      (by decide +kernel)
  refine (along_concat _ _).mpr ⟨along_of_forall ?_ _, ?_⟩
  · intro a ha n time p hcommit
    rw [hcommit] at ha
    simp [executeOne] at ha
  · intro m hm
    cases hrun.symm.trans hm
    exact (commitsAlike_one hphase hrest hdone hready _).mpr (of_decide_eq_true hok)

omit [Sha256] in
/-- **A transaction submitted with the default height is reported with that height, not
with its block's.** -/
theorem query_reports_other_height :
    ∃ n : Node Nat,
      runFrom (@step Nat Sha256.plain Contracts.plain {}) started (executeOne Chain.sampleTx)
          = some n
        ∧ ¬ @AgreesAfter Nat Sha256.plain Contracts.plain {} n (.commit PyFloat.zero) := by
  let _ := Sha256.plain
  let _ := Contracts.plain
  obtain ⟨n, p, e, hrun, hphase, hrest, hdone, hready, hbad⟩ :=
    afterOne_done Chain.sampleTx (fun p e => decide (e.tx.height ≠ p.height))
      (by decide +kernel)
  have hn : Sound n := run_invariant (fun _ _ _ hs h => step_sound hs h) _ hrun
    (sound_of_fresh Chain.started_fresh rfl)
  refine ⟨n, hrun, fun h => ?_⟩
  have halike := (commitsAlike_one hphase hrest hdone hready _).mp ((agreesAfter_iff hn _).mp h)
  exact of_decide_eq_true hbad halike.1

end Node

end TorSim
