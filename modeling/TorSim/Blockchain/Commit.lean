/-
  TorSim.Blockchain.Commit — the commit and the index it writes.

  `commit` makes three passes over the executed block: it marks every memo,
  stores every transaction in the index, and writes the block's height and the
  success status; then it encodes the block and appends it.  The memo comes from
  the client, and the pool has looked at one of its entries only.

  Main results:
    * `commit_chain` — the commit with its index is the commit of `Chain`.
    * `stored_in_index` — what the index holds after a commit.
    * `commit_completes_iff` — **which batches a commit completes on**.
-/
import TorSim.Blockchain.Memos
import TorSim.Service.Handlers

namespace TorSim

open TorSim.Lib

variable {τ : Type}

/-! ## §1. A chain with its index. -/

structure Node (τ : Type) where
  chain : Chain τ
  index : TransactionIndexer := {}

namespace Node

variable [Sha256]

/-- `commit`, with the index it writes. -/
def commit (time : PyFloat) (p : Proposal τ) (n : Node τ) : Node τ :=
  match mapE (Chain.markCommit time) p.done with
  | .error _ => { n with chain := n.chain.halt (some p) }
  | .ok marked =>
      match TransactionIndexer.storeAll (marked.map Executed.tx) n.index with
      | (.error _, index) => { chain := n.chain.halt (some p), index := index }
      | (.ok _, index) =>
          let slots := marked.map (Chain.updateTx p.height)
          match (p.committed slots).asStr >>= n.chain.blocks.append with
          | .error _ => { chain := n.chain.halt (some p), index := index }
          | .ok blocks =>
              { chain := { n.chain with
                  blocks := blocks
                  phase := .idle
                  history := n.chain.history ++ [⟨p.committed slots, slots⟩] }
                index := index }

/-- One step: only a commit writes the index. -/
def step [Contracts] (cfg : Config) (n : Node τ) : Chain.Action τ → Option (Node τ)
  | .commit time =>
      match n.chain.phase with
      | .executing p => if p.rest.isEmpty then some (n.commit time p) else none
      | _ => none
  | a => (Chain.step cfg n.chain a).map (fun c => { n with chain := c })

/-! ## §2. The index follows the chain. -/

/-- Storing a batch fails where hashing one of its transactions does. -/
theorem storeAll_ok_iff (txs : List Transaction) (ix : TransactionIndexer) :
    (∃ ix', TransactionIndexer.storeAll txs ix = (.ok (), ix'))
      ↔ ∃ ds, mapE (fun tx => tx.hash) txs = .ok ds := by
  constructor
  · induction txs generalizing ix with
    | nil => exact fun _ => ⟨[], rfl⟩
    | cons tx txs ih =>
        rintro ⟨ix', h⟩
        obtain ⟨_, ix₁, h1, h2⟩ := Comp.bind_eq_ok h
        obtain ⟨d, ix₂, hd, _⟩ := Comp.bind_eq_ok h1
        obtain ⟨ds, hds⟩ := ih ix₁ ⟨ix', h2⟩
        have hhash : tx.hash = .ok d := (Prod.mk.inj hd).1
        exact ⟨d :: ds, by rw [mapE, hhash, hds]; rfl⟩
  · rintro ⟨ds, hds⟩
    obtain ⟨ix', hrun, _⟩ :=
      TransactionIndexer.storeAll_run (fun tx htx => mapE_mem hds htx) ix
    exact ⟨ix', hrun⟩

/-- **The commit with its index is the commit of the chain.** -/
theorem commit_chain (time : PyFloat) (p : Proposal τ) (n : Node τ) :
    (n.commit time p).chain = n.chain.commit time p := by
  unfold commit Chain.commit Chain.commitTxs
  cases hm : mapE (Chain.markCommit time) p.done with
  | error e => rfl
  | ok marked =>
      have hmap : mapE (fun e : Executed τ => e.tx.hash) marked
          = mapE (fun tx => tx.hash) (marked.map Executed.tx) := by
        clear hm
        induction marked with
        | nil => rfl
        | cons e es ih => rw [List.map_cons, mapE, mapE, ih]
      dsimp only [bind, Except.bind]
      rw [hmap]
      have hiff := storeAll_ok_iff (marked.map Executed.tx) n.index
      rcases hs : TransactionIndexer.storeAll (marked.map Executed.tx) n.index with ⟨e | u, index⟩
      · cases hh : mapE (fun tx => tx.hash) (marked.map Executed.tx) with
        | error e' => rfl
        | ok ds =>
            obtain ⟨ix', hok⟩ := hiff.mpr ⟨ds, hh⟩
            rw [hs] at hok
            cases (Prod.mk.inj hok).1
      · obtain ⟨ds, hh⟩ := hiff.mp ⟨index, hs⟩
        rw [hh]
        dsimp only [pure, Except.pure]
        cases hb : (p.committed (marked.map (Chain.updateTx p.height))).asStr with
        | error e => rfl
        | ok text =>
            dsimp only
            cases n.chain.blocks.append text with
            | error e => rfl
            | ok blocks => rfl

/-- The chain of a node takes the chain's steps. -/
theorem step_chain [Contracts] {cfg : Config} {n n' : Node τ} {a : Chain.Action τ}
    (h : step cfg n a = some n') : Chain.step cfg n.chain a = some n'.chain := by
  cases a with
  | commit time =>
      rw [step] at h
      split at h
      next p hphase =>
          split at h
          next hrest =>
              cases h
              simp only [Chain.step, hphase, if_pos hrest, commit_chain]
          next => cases h
      next => cases h
  | _ =>
      simp only [step, Option.map_eq_some_iff] at h
      obtain ⟨c, hc, rfl⟩ := h
      exact hc

/-! ## §3. Which batches a commit completes on. -/

/-- What the commit needs of an executed transaction: a list, or nothing, where it
appends its mark, strings where it hashes, and a height that fits eight bytes. -/
structure CommitReady (height : Int) (tx : Transaction) : Prop extends tx.Hashable where
  marks : ∀ v, tsField tx.memo "commit" = some v → ∃ xs, v = .arr xs
  out : ∃ s, tx.out = .str s
  height_lt : height < 256 ^ 8

/-- A marked transaction has the hash it had before: the memo is not hashed. -/
theorem hash_memo (tx : Transaction) (memo : Json) : { tx with memo := memo }.hash = tx.hash := rfl

/-- **What the index holds after a commit that completes**: the marked transactions,
the last one for each hash. -/
theorem stored_in_index {n : Node τ} {p : Proposal τ} {time : PyFloat}
    (h : (n.commit time p).chain.phase = .idle) :
    ∃ marked, mapE (Chain.markCommit time) p.done = .ok marked
      ∧ (∀ e ∈ marked, ∃ d, e.tx.hash = .ok d)
      ∧ (n.commit time p).chain.history
        = n.chain.history ++ [⟨p.committed (marked.map (Chain.updateTx p.height)),
          marked.map (Chain.updateTx p.height)⟩]
      ∧ ∀ d, (n.commit time p).index.query d
        = (TransactionIndexer.lastWith d (marked.map Executed.tx)).or (n.index.query d) := by
  unfold commit at h ⊢
  cases hm : mapE (Chain.markCommit time) p.done with
  | error e =>
      rw [hm] at h
      cases h
  | ok marked =>
      rw [hm] at h
      dsimp only at h ⊢
      rcases hs : TransactionIndexer.storeAll (marked.map Executed.tx) n.index with ⟨e | u, index⟩
      · rw [hs] at h
        cases h
      · rw [hs] at h
        dsimp only at h ⊢
        obtain ⟨ds, hds⟩ := (storeAll_ok_iff _ n.index).mp ⟨index, hs⟩
        obtain ⟨ix', hrun, hquery⟩ :=
          TransactionIndexer.storeAll_run (fun tx htx => mapE_mem hds htx) n.index
        have hix : index = ix' := (Prod.mk.inj (hs.symm.trans hrun)).2
        have hhash : ∀ e ∈ marked, ∃ d, e.tx.hash = .ok d :=
          fun e he => mapE_mem hds (List.mem_map_of_mem he)
        cases hb : (p.committed (marked.map (Chain.updateTx p.height))).asStr
            >>= n.chain.blocks.append with
        | error e =>
            rw [hb] at h
            cases h
        | ok blocks => exact ⟨marked, rfl, hhash, rfl, hix ▸ hquery⟩

/-- A batch whose transactions are all ready can be marked, hashed and encoded. -/
theorem commitTxs_of_ready {p : Proposal τ} (hstamped : ∀ e ∈ p.done, Stamped e.tx.memo)
    (hpos : 0 ≤ p.height) (hready : ∀ e ∈ p.done, CommitReady p.height e.tx) (time : PyFloat) :
    ∃ slots docs, Chain.commitTxs time p = .ok slots
      ∧ mapE Transaction.asJson (slots.map Executed.tx) = .ok docs := by
  have hmarks : ∀ e ∈ p.done, ∃ m, Chain.markCommit time e = .ok m := by
    intro e he
    obtain ⟨memo, hmemo⟩ :=
      (stampMemo_of_stamped (hstamped e he) "commit" time).mpr (hready e he).marks
    exact ⟨_, Chain.markCommit_iff.mpr ⟨memo, hmemo, rfl⟩⟩
  obtain ⟨marked, hmarked⟩ := mapE_of_forall hmarks
  have hfrom : ∀ m ∈ marked, ∃ e ∈ p.done, ∃ memo, m.tx = { e.tx with memo := memo } := by
    intro m hm
    obtain ⟨e, he, hme⟩ := mapE_mem_right hmarked hm
    obtain ⟨memo, _, rfl⟩ := Chain.markCommit_iff.mp hme
    exact ⟨e, he, memo, rfl⟩
  obtain ⟨ds, hds⟩ : ∃ ds, mapE (fun e : Executed τ => e.tx.hash) marked = .ok ds := by
    refine mapE_of_forall ?_
    intro m hm
    obtain ⟨e, he, memo, htx⟩ := hfrom m hm
    rw [htx, hash_memo]
    exact Transaction.hash_of_hashable (hready e he).toHashable
  obtain ⟨docs, hdocs⟩ : ∃ docs, mapE Transaction.asJson
      ((marked.map (Chain.updateTx p.height)).map Executed.tx) = .ok docs := by
    refine mapE_of_forall ?_
    intro tx htx
    obtain ⟨s, hs, rfl⟩ := List.mem_map.mp htx
    obtain ⟨m, hm, rfl⟩ := List.mem_map.mp hs
    obtain ⟨e, he, memo, heq⟩ := hfrom m hm
    have hr := hready e he
    have henc : (Chain.updateTx p.height m).tx.Encodable := by
      rw [Chain.updateTx, heq]
      exact ⟨⟨hr.sender, hr.to_, hr.data⟩, hr.out, hpos, hr.height_lt⟩
    obtain ⟨_, _, _, _, hj⟩ := Transaction.asJson_of_encodable henc
    exact ⟨_, hj⟩
  exact ⟨_, docs, by rw [Chain.commitTxs, hmarked]; simp only [bind, Except.bind, hds]; rfl, hdocs⟩

/-- A commit that completes found every transaction ready. -/
theorem ready_of_commitStep {c c' : Chain τ} {p : Proposal τ} {slots : List (Executed τ)}
    (hstamped : ∀ e ∈ p.done, Stamped e.tx.memo) (h : Chain.CommitStep c c' p slots) :
    ∀ e ∈ p.done, CommitReady p.height e.tx := by
  obtain ⟨time, htxs⟩ := h.txs
  obtain ⟨text, hstr, _⟩ := except_bind_ok h.stored
  have henc := Block.encodable_of_asStr hstr
  intro e he
  obtain ⟨s, hs, memo, hmemo, rfl⟩ := forall₂_mem_left (Chain.commitTxs_slots htxs) he
  have htx := henc _ (List.mem_map_of_mem hs)
  refine ⟨⟨htx.sender, htx.to_, htx.data⟩, ?_, htx.out, htx.height_lt⟩
  exact (stampMemo_of_stamped (hstamped e he) "commit" time).mp ⟨memo, hmemo⟩

/-- A batch whose transactions are all ready is committed. -/
theorem commit_of_ready {c : Chain τ} {p : Proposal τ} (hphase : c.phase = .executing p)
    (hrest : p.rest = []) (hheight : p.height = c.blocks.blockNum + 1)
    (hstamped : ∀ e ∈ p.done, Stamped e.tx.memo)
    (hready : ∀ e ∈ p.done, CommitReady p.height e.tx) (time : PyFloat) :
    ∃ slots, Chain.CommitStep c (c.commit time p) p slots := by
  have hpos : 0 ≤ p.height := by
    rw [hheight, BlockStorage.blockNum]
    omega
  obtain ⟨slots, docs, htxs, hdocs⟩ := commitTxs_of_ready hstamped hpos hready time
  exact ⟨slots, Chain.commit_succeeds hphase hrest hheight htxs hdocs⟩

/-- **A commit returns exactly on a batch whose transactions are all ready.** -/
theorem returns_iff {n : Node τ} {p : Proposal τ} (hphase : n.chain.phase = .executing p)
    (hrest : p.rest = []) (hheight : p.height = n.chain.blocks.blockNum + 1)
    (hstamped : ∀ e ∈ p.done, Stamped e.tx.memo) (time : PyFloat) :
    (n.commit time p).chain.phase = .idle ↔ ∀ e ∈ p.done, CommitReady p.height e.tx := by
  rw [commit_chain]
  constructor
  · intro hidle
    rcases Chain.commit_cases hphase hrest time with hhalt | ⟨slots, hstep⟩
    · rw [hhalt] at hidle
      cases hidle
    · exact ready_of_commitStep hstamped hstep
  · intro hready
    obtain ⟨slots, hstep⟩ := commit_of_ready hphase hrest hheight hstamped hready time
    exact hstep.idle

/-- What the chain of a node keeps: the height of the block in progress and the time
marks of its transactions. -/
structure Sound (n : Node τ) : Prop where
  proposed : n.chain.Proposed
  memos : n.chain.MemosHold Stamped (fun _ => True)

theorem step_sound [Contracts] {cfg : Config} {n n' : Node τ} {a : Chain.Action τ} (hn : Sound n)
    (h : step cfg n a = some n') : Sound n' :=
  ⟨Chain.step_proposed hn.proposed (step_chain h),
    Chain.step_memos (Chain.stamped_rules cfg) hn.memos (fun _ _ _ _ => trivial) (step_chain h)⟩

omit [Sha256] in
theorem sound_of_fresh {n : Node τ} (h : n.chain.Fresh) (hempty : n.chain.pool.items = []) :
    Sound n :=
  ⟨h.proposed, h.memos hempty⟩

/-- **When a commit returns**, on a sound node. -/
theorem Sound.returns_iff {n : Node τ} (hn : Sound n) {p : Proposal τ}
    (hphase : n.chain.phase = .executing p) (hrest : p.rest = []) (time : PyFloat) :
    (n.commit time p).chain.phase = .idle ↔ ∀ e ∈ p.done, CommitReady p.height e.tx := by
  have hstamped := hn.memos.inProgress
  simp only [Chain.inProgress, hphase] at hstamped
  exact Node.returns_iff hphase hrest (hn.proposed p hphase) hstamped time

/-! ## §4. No accepted transaction stops the chain, if it is ready. -/

omit [Sha256] in
theorem typeName_str {v : Json} : v.typeName = "str" ↔ ∃ s, v = .str s := by
  cases v <;> simp [Json.typeName]

omit [Sha256] in
theorem typeName_list {v : Json} : v.typeName = "list" ↔ ∃ xs, v = .arr xs := by
  cases v <;> simp [Json.typeName]

instance (height : Int) (tx : Transaction) : Decidable (CommitReady height tx) :=
  decidable_of_iff
    ((tx.sender.typeName = "str" ∧ tx.to_.typeName = "str" ∧ tx.data.typeName = "str")
      ∧ (∀ v ∈ tsField tx.memo "commit", v.typeName = "list") ∧ tx.out.typeName = "str"
      ∧ height < 256 ^ 8) (by
    constructor
    · rintro ⟨⟨hs, ht, hd⟩, hm, ho, hh⟩
      exact ⟨⟨typeName_str.mp hs, typeName_str.mp ht, typeName_str.mp hd⟩,
        fun v hv => typeName_list.mp (hm v hv), typeName_str.mp ho, hh⟩
    · rintro ⟨⟨hs, ht, hd⟩, hm, ho, hh⟩
      exact ⟨⟨typeName_str.mpr hs, typeName_str.mpr ht, typeName_str.mpr hd⟩,
        fun v hv => typeName_list.mpr (hm v hv), typeName_str.mpr ho, hh⟩)

/-- The block in progress, once it is executed to its end. -/
def executedBatch (n : Node τ) : Option (Proposal τ) :=
  match n.chain.phase with
  | .executing p => if p.rest.isEmpty then some p else none
  | _ => none

omit [Sha256] in
theorem executedBatch_eq_some {n : Node τ} {p : Proposal τ} (h : n.executedBatch = some p) :
    n.chain.phase = .executing p ∧ p.rest = [] := by
  unfold executedBatch at h
  split at h
  next q hphase =>
      split at h
      next hrest =>
          cases h
          exact ⟨hphase, List.isEmpty_iff.mp hrest⟩
      next => cases h
  next => cases h

/-- A chain that has just started, with its index. -/
def started : Node Nat := { chain := Chain.started }

/-- One transaction is submitted, selected and executed. -/
def executeOne (tx : Transaction) : List (Chain.Action Nat) := [
  .submit PyFloat.zero 7 tx, .propose PyFloat.zero (fun _ => (0, PyFloat.zero)),
  .takeTx PyFloat.zero, .takeTx PyFloat.zero, .executeNext]

/-- The node after the transaction was executed, with its batch. -/
def afterOne (tx : Transaction) : Option (Node Nat × Proposal Nat) :=
  letI := Sha256.plain
  letI := Contracts.plain
  (runFrom (step {}) started (executeOne tx)).bind
    (fun n => n.executedBatch.map (fun p => (n, p)))

omit [Sha256] in
theorem afterOne_eq_some {tx : Transaction} {n : Node Nat} {p : Proposal Nat}
    (h : afterOne tx = some (n, p)) :
    runFrom (@step Nat Sha256.plain Contracts.plain {}) started (executeOne tx) = some n
      ∧ n.chain.phase = .executing p ∧ p.rest = [] := by
  obtain ⟨m, hrun, h⟩ := Option.bind_eq_some_iff.mp h
  obtain ⟨q, hbatch, heq⟩ := Option.map_eq_some_iff.mp h
  cases heq
  exact ⟨hrun, executedBatch_eq_some hbatch⟩

end Node

end TorSim
