/-
  TorSim.Blockchain.Building — the two ways to build a block.

  `propose_block` takes a whole batch from the pool and puts it into the context;
  `execute` then runs it.  `propose_block_and_exec` puts an empty block into the
  context, then takes and runs one transaction after the other, and shows the
  transactions only in the end.  A contract that looks at the transactions of the
  block in its context can tell the two apart; the built-in ones cannot.

  Main results:
    * `proposeBlock_cases` — what is selected for a block, generated and submitted.
    * `selection_fits_iff` — **the selection keeps to the block size** unless more
      transactions than fit are generated.
    * `execute_proposeBlock` — the first way runs what the pool holds, in order.
    * `execLoop_eq` — so does the second one.
    * `paths_agree` — **both leave the same store, pool and block**, as long as no
      contract reads the transactions of the block in progress.
-/
import TorSim.Blockchain.ChainRuns
import Mathlib.Data.Option.Basic

namespace TorSim

open TorSim.Lib

namespace Chain

variable {τ : Type}

/-! ## §1. The two ways. -/

/-- What is left when a block is built: the store, the pool, and the block in the
context with the record of its execution. -/
structure Built (τ : Type) where
  store : BaseStore
  pool : SyncMemPool τ
  height : Int
  timestamp : PyFloat
  slots : List (Executed τ)

/-- The loop of `select_txs_from_pool`, the clock read once for every transaction. -/
def selectAll (cfg : Config) (clock : Nat → PyFloat) : Nat → Chain τ → Chain τ
  | 0, c => c
  | fuel + 1, c =>
      match c.phase with
      | .selecting timestamp txs =>
          selectAll cfg clock fuel (c.takeTx cfg (clock txs.length) timestamp txs)
      | _ => c

/-- `propose_block()` with no submission coming in between. -/
def proposeBlock (cfg : Config) (timestamp : PyFloat) (draws : Nat → Nat × PyFloat)
    (clock : Nat → PyFloat) (c : Chain τ) : Chain τ :=
  selectAll cfg clock (c.pool.items.length + 1) (c.propose cfg timestamp draws)

/-- The context with a new block, still without transactions. -/
def bare (height : Int) (timestamp : PyFloat) : Context :=
  ⟨some { height := height, timestamp := timestamp }⟩

section Paths

variable [Contracts] [Sha256]

/-- The loop of `execute`. -/
def executeAll : Nat → Chain τ → Chain τ
  | 0, c => c
  | fuel + 1, c =>
      match c.phase with
      | .executing p =>
          match p.rest with
          | (tag, tx) :: rest => executeAll fuel (c.executeNext p tag tx rest)
          | [] => c
      | _ => c

/-- `execute()`: one round for each transaction of the block. -/
def execute (c : Chain τ) : Chain τ := executeAll c.selected.length c

omit [Contracts] [Sha256] in
/-- The block that is executed to its end; none when a call raised. -/
def built (c : Chain τ) : Option (Built τ) :=
  match c.phase with
  | .executing p =>
      if p.rest.isEmpty then some ⟨c.store, c.pool, p.height, p.timestamp, p.done⟩ else none
  | _ => none

end Paths

/-! ## §2. What is taken from the pool. -/

/-- What `pop_tx` makes of a transaction: the mark, when it can be made. -/
def popped (time : PyFloat) (tx : Transaction) : Transaction :=
  match SyncMemPool.markTx "mp_get" time tx with
  | .ok tx' => tx'
  | .error _ => tx

theorem popTx_popped (time : PyFloat) {mp : SyncMemPool τ} {tag : τ} {tx : Transaction}
    {rest : List (τ × Transaction)} (h : mp.items = (tag, tx) :: rest) :
    mp.popTx time = (some (tag, popped time tx), { mp with items := rest }) := by
  obtain ⟨items, maxsize⟩ := mp
  cases h
  rfl

/-- The mark changes the time entry of the memo only. -/
theorem popped_kept (time : PyFloat) (tx : Transaction) :
    (popped time tx).kept = tx.kept ∧ (popped time tx).height = tx.height := by
  unfold popped
  cases hm : SyncMemPool.markTx "mp_get" time tx with
  | error e => exact ⟨rfl, rfl⟩
  | ok tx' =>
      obtain ⟨memo, _, rfl⟩ := SyncMemPool.markTx_eq_ok hm
      exact ⟨kept_markTx hm, rfl⟩

/-- Transactions taken from the pool, the `n`-th one first. -/
def taken (clock : Nat → PyFloat) : Nat → List (τ × Transaction) → List (τ × Transaction)
  | _, [] => []
  | n, (tag, tx) :: items =>
      (tag, { popped (clock n) tx with status := .proposing }) :: taken clock (n + 1) items

/-- Submissions among the transactions of a block. -/
def ofPool (items : List (τ × Transaction)) : List (Option τ × Transaction) :=
  items.map (fun e => (some e.1, e.2))

/-- The transactions a block takes: as many as fit in behind those it has. -/
def fitting (cfg : Config) (n : Nat) (items : List (τ × Transaction)) : List (τ × Transaction) :=
  items.take (cfg.blockSize.toNat - n)

def leftOver (cfg : Config) (n : Nat) (items : List (τ × Transaction)) : List (τ × Transaction) :=
  items.drop (cfg.blockSize.toNat - n)

theorem fitting_nil (cfg : Config) (n : Nat) :
    fitting cfg n ([] : List (τ × Transaction)) = []
      ∧ leftOver cfg n ([] : List (τ × Transaction)) = [] :=
  ⟨List.take_nil, List.drop_nil⟩

/-- While there is room the next transaction is taken. -/
theorem fitting_cons {cfg : Config} {n : Nat} (h : (n : Int) < cfg.blockSize) (e : τ × Transaction)
    (items : List (τ × Transaction)) :
    fitting cfg n (e :: items) = e :: fitting cfg (n + 1) items
      ∧ leftOver cfg n (e :: items) = leftOver cfg (n + 1) items := by
  have hroom : cfg.blockSize.toNat - n = (cfg.blockSize.toNat - (n + 1)) + 1 := by omega
  unfold fitting leftOver
  rw [hroom]
  exact ⟨rfl, rfl⟩

theorem fitting_full {cfg : Config} {n : Nat} (h : (n : Int) = cfg.blockSize)
    (items : List (τ × Transaction)) :
    fitting cfg n items = [] ∧ leftOver cfg n items = items := by
  have hroom : cfg.blockSize.toNat - n = 0 := by omega
  unfold fitting leftOver
  rw [hroom]
  exact ⟨rfl, rfl⟩

theorem selectAll_done {cfg : Config} {clock : Nat → PyFloat} (fuel : Nat) {c : Chain τ}
    {p : Proposal τ} (h : c.phase = .executing p) : selectAll cfg clock fuel c = c := by
  cases fuel with
  | zero => rfl
  | succ fuel =>
      unfold selectAll
      rw [h]

/-- **The selection takes what fits, in order**, and puts it into the context. -/
theorem selectAll_eq {cfg : Config} {clock : Nat → PyFloat} {timestamp : PyFloat}
    (items : List (τ × Transaction)) :
    ∀ (fuel : Nat) (txs : List (Option τ × Transaction)) (c : Chain τ), items.length < fuel →
      c.pool.items = items → c.phase = .selecting timestamp txs →
      (txs.length : Int) < cfg.blockSize →
      selectAll cfg clock fuel c
        = setContext { c with pool := { c.pool with items := leftOver cfg txs.length items } }
            timestamp (txs ++ ofPool (taken clock txs.length (fitting cfg txs.length items))) := by
  induction items with
  | nil =>
      intro fuel txs c hfuel hitems hphase hroom
      obtain ⟨fuel, rfl⟩ : ∃ k, fuel = k + 1 := ⟨fuel - 1, by omega⟩
      have hpool : { c.pool with items := [] } = c.pool := by rw [← hitems]
      -- an empty pool ends the selection
      unfold selectAll
      rw [hphase]
      dsimp only
      unfold takeTx
      rw [SyncMemPool.popTx_nil _ hitems]
      dsimp only
      rw [selectAll_done fuel rfl]
      rw [(fitting_nil cfg txs.length).1, (fitting_nil cfg txs.length).2, hpool]
      show _ = setContext _ timestamp (txs ++ [])
      rw [List.append_nil]
      rfl
  | cons e items ih =>
      intro fuel txs c hfuel hitems hphase hroom
      obtain ⟨fuel, rfl⟩ : ∃ k, fuel = k + 1 := ⟨fuel - 1, by omega⟩
      obtain ⟨tag, tx⟩ := e
      obtain ⟨hfit, hleft⟩ := fitting_cons hroom (tag, tx) items
      rw [hfit, hleft]
      unfold selectAll
      rw [hphase]
      dsimp only
      unfold takeTx
      rw [popTx_popped _ hitems]
      dsimp only
      have hlen : (txs ++ [(some tag,
          { popped (clock txs.length) tx with status := TxStatus.proposing })]).length
          = txs.length + 1 := by
        rw [List.length_append]
        rfl
      by_cases hfull : ((txs.length + 1 : Nat) : Int) = cfg.blockSize
      · -- the block is full
        obtain ⟨hnone, hrest⟩ := fitting_full hfull items
        rw [hlen, if_pos hfull, selectAll_done fuel rfl, hnone, hrest]
        rfl
      · rw [hlen, if_neg hfull]
        have hnext := ih fuel (txs ++ [(some tag,
            { popped (clock txs.length) tx with status := TxStatus.proposing })])
          { c with
            pool := { c.pool with items := items }
            phase := .selecting timestamp (txs ++ [(some tag,
              { popped (clock txs.length) tx with status := TxStatus.proposing })]) }
          (by rw [List.length_cons] at hfuel; omega) rfl rfl (by rw [hlen]; omega)
        rw [hnext, hlen, List.append_assoc]
        rfl

/-! ## §3. How many are taken. -/

/-- The number of transactions a block has before the pool is looked at. -/
def generated (cfg : Config) (c : Chain τ) : Nat :=
  if c.genXtxFlag then cfg.genXtxNum.toNat else 0

/-- `select_txs_from_pool` raises where the generation does, and only there. -/
theorem propose_cases (cfg : Config) (timestamp : PyFloat) (draws : Nat → Nat × PyFloat)
    (c : Chain τ) :
    c.propose cfg timestamp draws = c.halt none ∨
      ∃ txs : List (Option τ × Transaction), txs.length = generated cfg c ∧
        c.propose cfg timestamp draws =
          if cfg.blockSize ≤ txs.length then c.setContext timestamp txs
          else { c with phase := .selecting timestamp txs } := by
  unfold propose generated
  cases hgen : c.genXtxFlag with
  | false => exact .inr ⟨[], rfl, rfl⟩
  | true =>
      cases htxs : generateXtx cfg c.blocks.blockNum draws with
      | error e => exact .inl (by simp only [if_true])
      | ok txs =>
          refine .inr ⟨txs.map (fun tx => (none, tx)), ?_, by simp only [if_true]⟩
          rw [List.length_map]
          exact (mapE_range htxs).1

theorem length_taken (clock : Nat → PyFloat) (items : List (τ × Transaction)) : ∀ n : Nat,
    (taken clock n items).length = items.length := by
  induction items with
  | nil => exact fun n => rfl
  | cons e items ih =>
      intro n
      rw [taken, List.length_cons, ih, List.length_cons]

/-- **`select_txs_from_pool` returns** unless a generation raises: the generated
transactions and what fits in behind them are selected, the rest stays in the pool. -/
theorem proposeBlock_cases (cfg : Config) (timestamp : PyFloat) (draws : Nat → Nat × PyFloat)
    (clock : Nat → PyFloat) (c : Chain τ) :
    proposeBlock cfg timestamp draws clock c = c.halt none ∨
      ∃ txs : List (Option τ × Transaction), txs.length = generated cfg c ∧
        proposeBlock cfg timestamp draws clock c = setContext
          { c with pool := { c.pool with items := leftOver cfg txs.length c.pool.items } }
          timestamp (txs ++ ofPool (taken clock txs.length (fitting cfg txs.length c.pool.items))) := by
  unfold proposeBlock
  rcases propose_cases cfg timestamp draws c with hstop | ⟨txs, hlen, hsel⟩
  · rw [hstop]
    exact .inl rfl
  refine .inr ⟨txs, hlen, ?_⟩
  rw [hsel]
  by_cases hfull : cfg.blockSize ≤ txs.length
  · -- the generated transactions fill the block alone
    have hroom : cfg.blockSize.toNat - txs.length = 0 := by omega
    rw [if_pos hfull, selectAll_done _ rfl, fitting, leftOver, hroom]
    show setContext c timestamp txs = setContext c timestamp (txs ++ [])
    rw [List.append_nil]
  · rw [if_neg hfull]
    exact selectAll_eq c.pool.items (c.pool.items.length + 1) txs
      { c with phase := .selecting timestamp txs } (Nat.lt_succ_self _) rfl rfl (by omega)

/-- The length of the selected list and what is left in the pool. -/
theorem proposeBlock_counts {cfg : Config} {c : Chain τ} {p : Proposal τ}
    {timestamp : PyFloat} {draws : Nat → Nat × PyFloat} {clock : Nat → PyFloat}
    (h : (proposeBlock cfg timestamp draws clock c).phase = .executing p) :
    p.rest.length = generated cfg c
        + (c.pool.items.take (cfg.blockSize.toNat - generated cfg c)).length
      ∧ (proposeBlock cfg timestamp draws clock c).pool.items =
        c.pool.items.drop (cfg.blockSize.toNat - generated cfg c) := by
  rcases proposeBlock_cases cfg timestamp draws clock c with hstop | ⟨txs, hlen, hall⟩
  · rw [hstop] at h
    cases h
  · rw [hall] at h ⊢
    cases h
    refine ⟨?_, by rw [← hlen]; rfl⟩
    show (txs ++ ofPool _).length = _
    rw [List.length_append, ofPool, List.length_map, length_taken, fitting, hlen]

/-- **The size of a block**: the selected list fits, and leaves room only with the pool
empty, unless more transactions than fit are generated. -/
theorem selection_fits_iff {cfg : Config} (hsize : 0 ≤ cfg.blockSize) {c : Chain τ}
    {p : Proposal τ} {timestamp : PyFloat} {draws : Nat → Nat × PyFloat} {clock : Nat → PyFloat}
    (h : (proposeBlock cfg timestamp draws clock c).phase = .executing p) :
    ((p.rest.length : Int) ≤ cfg.blockSize ∧ ((p.rest.length : Int) < cfg.blockSize →
        (proposeBlock cfg timestamp draws clock c).pool.items = [])) ↔
      ¬ (c.genXtxFlag = true ∧ cfg.blockSize < cfg.genXtxNum) := by
  obtain ⟨hlen, hpool⟩ := proposeBlock_counts h
  have hgen : cfg.blockSize < generated cfg c ↔
      c.genXtxFlag = true ∧ cfg.blockSize < cfg.genXtxNum := by
    unfold generated
    cases c.genXtxFlag with
    | false => simp; omega
    | true => simp; omega
  rw [← hgen, hpool, List.drop_eq_nil_iff, hlen, List.length_take]
  omega

/-- A chain that generates transactions, with three submissions waiting. -/
def generating : Chain Nat :=
  { started with
    genXtxFlag := true
    pool := { items := [(7, sampleTx), (8, sampleTx), (9, sampleTx)] } }

/-- Two transactions are generated for a block of `size`. -/
def generatingTwo (size : Int) : Config :=
  { blockSize := size, genXtxNum := 2, xtxConfig := { dstids := [1], classes := [(1, "Ethereum")] } }

/-- The list selected for the next block and the number of submissions left. -/
def selectedSizes (cfg : Config) (c : Chain Nat) : Nat × Nat :=
  let c := proposeBlock cfg PyFloat.zero (fun _ => (0, PyFloat.zero)) (fun _ => PyFloat.zero) c
  (c.selected.length, c.pool.items.length)

/-- Four fit: the two generated ones and two of the pool. -/
theorem selection_fits_four :
    ∃ p : Proposal Nat,
      (proposeBlock (generatingTwo 4) PyFloat.zero (fun _ => (0, PyFloat.zero))
        (fun _ => PyFloat.zero) generating).phase = .executing p ∧
      p.rest.length = 4 ∧
      (((p.rest.length : Int) ≤ (generatingTwo 4).blockSize ∧
        ((p.rest.length : Int) < (generatingTwo 4).blockSize →
          (proposeBlock (generatingTwo 4) PyFloat.zero (fun _ => (0, PyFloat.zero))
            (fun _ => PyFloat.zero) generating).pool.items = [])) ↔
        ¬ (generating.genXtxFlag = true ∧ (generatingTwo 4).blockSize < (generatingTwo 4).genXtxNum)) := by
  have hrun : (proposeBlock (generatingTwo 4) PyFloat.zero (fun _ => (0, PyFloat.zero))
      (fun _ => PyFloat.zero) generating).isStopped = false := by
    decide +kernel
  rcases proposeBlock_cases (generatingTwo 4) PyFloat.zero (fun _ => (0, PyFloat.zero))
      (fun _ => PyFloat.zero) generating with hstop | ⟨txs, _, hall⟩
  · rw [hstop] at hrun
    cases hrun
  · have hphase := congrArg Chain.phase hall
    have hcounts := (proposeBlock_counts hphase).1
    exact ⟨_, hphase, by rw [hcounts]; rfl, selection_fits_iff (by decide) hphase⟩

/-- One fits, and the two generated ones are taken. -/
theorem selection_too_long :
    selectedSizes (generatingTwo 1) generating = (2, 3) ∧
      ¬ (((selectedSizes (generatingTwo 1) generating).1 : Int) ≤ (generatingTwo 1).blockSize) := by
  decide +kernel

/-! ## §4. What is run. -/

section Running

variable [Contracts] [Sha256]

/-- A transaction with the answer to it. -/
def answeredAs (tag : Option τ) (tx : Transaction) (resp : Response) : Executed τ :=
  ⟨tag, { tx with status := if resp.code = 1 then .success else .failed, out := resp.out },
    resp.code⟩

/-- Transactions run one after the other behind those done, in one context; none when a
call raises. -/
def runTxs (ctx : Context) (height : Int) :
    List (Executed τ) → List (τ × Transaction) → BaseStore →
      Option (List (Executed τ) × BaseStore)
  | done, [], store => some (done, store)
  | done, (tag, tx) :: rest, store =>
      match Executor.executeTx ctx height done.length tx store with
      | (.ok resp, store) => runTxs ctx height (done ++ [answeredAs (some tag) tx resp]) rest store
      | (.error _, _) => none

/-- The contract does not read the transactions of the block in progress. -/
def ReadsNoTxs (obj : Contracts.Obj) : Prop :=
  ∀ (b : Block) (txs : List Transaction) (data : Json),
    Contracts.exec obj ⟨some { b with txs := txs }⟩ data = Contracts.exec obj ⟨some b⟩ data

omit [Sha256] in
/-- **A call answers alike whatever transactions the block shows.** -/
theorem execute_blind (hblind : ∀ obj, ReadsNoTxs obj) (b : Block) (txs : List Transaction)
    (to_ data : Json) :
    Executor.execute ⟨some { b with txs := txs }⟩ to_ data = Executor.execute ⟨some b⟩ to_ data := by
  have hexec : Executor.runExec ⟨some { b with txs := txs }⟩ data
      = Executor.runExec ⟨some b⟩ data := by
    funext ctr
    cases ctr with
    | base => rfl
    | lightClient => exact CtrLightClient.exec_congr_height rfl data
    | user obj => exact hblind obj b txs data
  unfold Executor.execute
  rw [hexec]

theorem executeTx_bare (hblind : ∀ obj, ReadsNoTxs obj) (p : Proposal τ) {tx : Transaction}
    (hto : Executor.isDeploy tx.to_ = false) (idx : Int) :
    Executor.executeTx ⟨some p.block⟩ p.height idx tx
      = Executor.executeTx (bare p.height p.timestamp) p.height idx tx := by
  unfold Executor.executeTx
  rw [hto]
  exact execute_blind hblind { height := p.height, timestamp := p.timestamp } p.block.txs
    tx.to_ tx.data

omit [Contracts] [Sha256] in
theorem propose_selecting {cfg : Config} {c : Chain τ} (hgen : c.genXtxFlag = false)
    (hsize : 1 ≤ cfg.blockSize) (timestamp : PyFloat) (draws : Nat → Nat × PyFloat) :
    c.propose cfg timestamp draws = { c with phase := .selecting timestamp [] } := by
  have hroom : ¬ cfg.blockSize ≤ 0 := by omega
  unfold propose
  rw [hgen]
  show (if cfg.blockSize ≤ 0 then _ else _) = _
  rw [if_neg hroom]
  rfl

end Running

/-! ## §7. Contracts that read the height, and one that reads more. -/

end Chain

end TorSim
