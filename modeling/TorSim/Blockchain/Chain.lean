/-
  TorSim.Blockchain.Chain — the loop of one chain.

  `BlockchainMProc.start` proposes a block from the pool, executes it, waits and
  commits it, over and over; an exception ends the loop for good.  Submissions
  arrive from other threads between any two of its steps, so the loop is cut
  where they can come in: taking one transaction, executing one transaction,
  committing.  Clocks and random choices are inputs of the steps.

  Three fields record what the code does not keep: the accepted submissions,
  the tag every transaction was submitted under, and the code every execution
  returned.  No step reads them.

  Main definitions:
    * `generateXtx` — the self-generated cross-chain transactions.
    * `propose`, `takeTx`, `executeNext`, `commit` — the steps of the loop.
    * `step` — one step of the chain or of its clients.
    * `executed`, `pending` — the transactions behind and before execution.
-/
import TorSim.Vm.Executor
import TorSim.Mempool.SyncMemPool
import TorSim.Lib.System

namespace TorSim

open TorSim.Lib

/-! ## §1. Configuration. -/

structure XtxConfig where
  dstids : List Int := []
  classes : List (Int × String) := []
  srcid : Int := -1

structure Config where
  blockSize : Int := 100
  genXtxNum : Int := 0
  xtxConfig : XtxConfig := {}

/-- `random.choice(xs)`, the draw given. -/
def choice {α : Type} (xs : List α) (draw : Nat) : Except Exn α :=
  match xs[draw % xs.length]? with
  | some x => .ok x
  | none => .error ⟨.index, "Cannot choose from an empty sequence"⟩

/-- `classes[dstid]`. -/
def XtxConfig.classOf (cfg : XtxConfig) (dstid : Int) : Except Exn String :=
  match cfg.classes.lookup dstid with
  | some c => .ok c
  | none => .error ⟨.key, toString dstid⟩

/-- The memo of a generated transaction: its destination and its creation time. -/
def xtxMemo (dstid : Int) (time : PyFloat) : Json :=
  memoOf [("type", .str TranMemo.ctxSrc), ("dst", .int dstid),
    ("ts", .obj [("init", .float time)])]

theorem memoField_xtxMemo (dstid : Int) (time : PyFloat) (k : String) :
    memoField (xtxMemo dstid time) k
      = [("type", Json.str TranMemo.ctxSrc), ("dst", .int dstid),
          ("ts", .obj [("init", .float time)])].lookup k :=
  memoField_memoOf (by simp [Json.wf, Json.wfFields]) k

def buildXtx (cfg : XtxConfig) (blockNum : Int) (idx : Nat) (draw : Nat × PyFloat) :
    Except Exn Transaction := do
  let dstid ← choice cfg.dstids draw.1
  let chainclass ← cfg.classOf dstid
  Transaction.fromJson
    (.obj [
      ("sender", .str ("send/" ++ toString cfg.srcid ++ "/" ++ toString blockNum ++ "-"
        ++ toString idx)),
      ("to", .str "lightclient"),
      ("data", .str (CtrLightClient.request .appInit
        [.int dstid, .str chainclass, .str "crosschain-data"])),
      ("memo", xtxMemo dstid draw.2)])
    (some .proposing)

/-- The self-generated transactions, one draw and one clock reading each. -/
def generateXtx (cfg : Config) (blockNum : Int) (draws : Nat → Nat × PyFloat) :
    Except Exn (List Transaction) :=
  mapE (fun i => buildXtx cfg.xtxConfig blockNum i (draws i)) (List.range cfg.genXtxNum.toNat)

/-! ## §2. The state of a chain. -/

section State

variable (τ : Type)

/-- An executed transaction with the code its execution returned. -/
structure Executed where
  tag : Option τ
  tx : Transaction
  code : Int

/-- The block in the context while it is executed. -/
structure Proposal where
  height : Int
  timestamp : PyFloat
  done : List (Executed τ)
  rest : List (Option τ × Transaction)

/-- Where the loop stands.  When it has stopped, the context keeps the block it
was working on. -/
inductive Phase where
  | idle
  | selecting (timestamp : PyFloat) (txs : List (Option τ × Transaction))
  | executing (p : Proposal τ)
  | stopped (left : Option (Proposal τ))

/-- A committed block with the record of its execution. -/
structure Committed where
  block : Block
  slots : List (Executed τ)

structure Chain where
  mining : Bool := true
  running : Bool := true
  genXtxFlag : Bool := false
  pool : SyncMemPool τ := {}
  store : BaseStore := BaseStore.empty
  blocks : BlockStorage := {}
  phase : Phase τ := .idle
  accepted : List (τ × Transaction) := []
  history : List (Committed τ) := []

end State

variable {τ : Type}

/-- The block of a proposal as it stands. -/
def Proposal.block (p : Proposal τ) : Block where
  height := p.height
  timestamp := p.timestamp
  txs := p.done.map Executed.tx ++ p.rest.map Prod.snd

/-- The block of a proposal whose transactions are `slots`. -/
def Proposal.committed (p : Proposal τ) (slots : List (Executed τ)) : Block where
  height := p.height
  timestamp := p.timestamp
  txs := slots.map Executed.tx

namespace Chain

/-! ## §3. The steps of the loop. -/

/-- The context is set: the selected transactions become the next block. -/
def setContext (c : Chain τ) (timestamp : PyFloat) (txs : List (Option τ × Transaction)) :
    Chain τ :=
  { c with
    phase := .executing ⟨c.blocks.blockNum + 1, timestamp, [], txs⟩ }

/-- The loop ends through its exception branch. -/
def halt (c : Chain τ) (left : Option (Proposal τ)) : Chain τ := { c with phase := .stopped left }

/-- `propose_block` up to the loop over the pool: the generated transactions come
first, and alone when they fill the block. -/
def propose (cfg : Config) (timestamp : PyFloat) (draws : Nat → Nat × PyFloat) (c : Chain τ) :
    Chain τ :=
  match if c.genXtxFlag then generateXtx cfg c.blocks.blockNum draws else .ok [] with
  | .error _ => c.halt none
  | .ok txs =>
      let txs := txs.map (fun tx => ((none : Option τ), tx))
      if cfg.blockSize ≤ txs.length then c.setContext timestamp txs
      else { c with phase := .selecting timestamp txs }

/-- One round of the loop over the pool: it ends on an empty pool and on a block
of exactly the configured size. -/
def takeTx (cfg : Config) (time timestamp : PyFloat) (txs : List (Option τ × Transaction))
    (c : Chain τ) : Chain τ :=
  match c.pool.popTx time with
  | (none, pool) => setContext { c with pool := pool } timestamp txs
  | (some (tag, tx), pool) =>
      let txs := txs ++ [(some tag, { tx with status := .proposing })]
      let c := { c with pool := pool }
      if (txs.length : Int) = cfg.blockSize then c.setContext timestamp txs
      else { c with phase := .selecting timestamp txs }

section Execution

variable [Contracts] [Sha256]

/-- One round of `execute`. -/
def executeNext (p : Proposal τ) (tag : Option τ) (tx : Transaction)
    (rest : List (Option τ × Transaction)) (c : Chain τ) : Chain τ :=
  match Executor.executeTx ⟨some p.block⟩ p.height p.done.length tx c.store with
  | (.ok resp, store) =>
      let tx := { tx with
        status := if resp.code = 1 then .success else .failed
        out := resp.out }
      { c with
        store := store
        phase := .executing { p with done := p.done ++ [⟨tag, tx, resp.code⟩], rest := rest } }
  | (.error _, store) => halt { c with store := store } (some p)

/-- `mark_tx` of `commit`, on one transaction. -/
def markCommit (time : PyFloat) (e : Executed τ) : Except Exn (Executed τ) := do
  let tx ← SyncMemPool.markTx "commit" time e.tx
  return { e with tx := tx }

/-- `update_tx` of `commit`, on one transaction. -/
def updateTx (height : Int) (e : Executed τ) : Executed τ :=
  { e with tx := { e.tx with height := height, status := .success } }

/-- `mark_tx`, `index_tx` and `update_tx`, each over the whole block.  The index
itself is not kept: of it only the hashing can be noticed here. -/
def commitTxs (time : PyFloat) (p : Proposal τ) : Except Exn (List (Executed τ)) := do
  let marked ← mapE (markCommit time) p.done
  let _ ← mapE (fun e => e.tx.hash) marked
  return marked.map (updateTx p.height)

def commit (time : PyFloat) (p : Proposal τ) (c : Chain τ) : Chain τ :=
  match commitTxs time p with
  | .error _ => c.halt (some p)
  | .ok slots =>
      match (p.committed slots).asStr >>= c.blocks.append with
      | .error _ => c.halt (some p)
      | .ok blocks =>
          { c with
            blocks := blocks
            phase := .idle
            history := c.history ++ [⟨p.committed slots, slots⟩] }

end Execution

/-- A submission, whatever its outcome. -/
def submit (time : PyFloat) (tag : τ) (tx : Transaction) (c : Chain τ) : Chain τ :=
  match c.pool.putTx time tag tx with
  | (.ok true, pool) => { c with pool := pool, accepted := c.accepted ++ [(tag, tx)] }
  | (_, pool) => { c with pool := pool }

/-! ## §4. One step. -/

/-- What can happen next: a submission, a switch, or a step of the loop. -/
inductive Action (τ : Type) where
  | submit (time : PyFloat) (tag : τ) (tx : Transaction)
  | setMining (on : Bool)
  | setGenXtx (on : Bool)
  | setRunning (on : Bool)
  | propose (timestamp : PyFloat) (draws : Nat → Nat × PyFloat)
  | takeTx (time : PyFloat)
  | executeNext
  | commit (time : PyFloat)

variable [Contracts] [Sha256]

def step (cfg : Config) (c : Chain τ) : Action τ → Option (Chain τ)
  | .submit time tag tx => some (c.submit time tag tx)
  | .setMining on => some { c with mining := on }
  | .setGenXtx on => some { c with genXtxFlag := on }
  | .setRunning on => some { c with running := on }
  | .propose timestamp draws =>
      match c.phase with
      | .idle => if c.running && c.mining then some (c.propose cfg timestamp draws) else none
      | _ => none
  | .takeTx time =>
      match c.phase with
      | .selecting timestamp txs => some (c.takeTx cfg time timestamp txs)
      | _ => none
  | .executeNext =>
      match c.phase with
      | .executing p =>
          match p.rest with
          | (tag, tx) :: rest => some (c.executeNext p tag tx rest)
          | [] => none
      | _ => none
  | .commit time =>
      match c.phase with
      | .executing p => if p.rest.isEmpty then some (c.commit time p) else none
      | _ => none

/-! ## §5. The transactions in a chain. -/

omit [Contracts] [Sha256]

/-- The executed transactions of the block in progress. -/
def inProgress (c : Chain τ) : List (Executed τ) :=
  match c.phase with
  | .executing p => p.done
  | .stopped (some p) => p.done
  | _ => []

/-- The selected transactions that are not executed yet. -/
def selected (c : Chain τ) : List (Option τ × Transaction) :=
  match c.phase with
  | .selecting _ txs => txs
  | .executing p => p.rest
  | .stopped (some p) => p.rest
  | _ => []

/-- All executed transactions, in order. -/
def executed (c : Chain τ) : List (Executed τ) :=
  c.history.flatMap Committed.slots ++ c.inProgress

/-- All transactions waiting to be executed, in order. -/
def pending (c : Chain τ) : List (Option τ × Transaction) :=
  c.selected ++ c.pool.items.map (fun e => (some e.1, e.2))

/-- The loop has stopped. -/
def isStopped (c : Chain τ) : Bool :=
  match c.phase with
  | .stopped _ => true
  | _ => false

end Chain

end TorSim
