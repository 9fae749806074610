/-
  TorSim.Relayer.AsyncRelayer — a relayer from one chain to one other.

  `listen_block` puts the header of a block into `queue_header` and its
  successful cross-chain transactions into `queue_xtx`, whatever chain they are
  meant for; `check_xtx` decides that later, when `deal_xtx` takes them out.
  Any exception of a round is caught, and the next round tries the same block.

  The queues are modelled as everything ever put into them, each entry under the
  number of the block it was put for and its position there.

  Main definitions:
    * `filterHeader`, `filterTxs`, `checkXtx` — the functions of the relayer.
    * `listen` — one round of `listen_block`, with exceptions thrown into it.
    * `step` — the source chain and the listening task, interleaved.
-/
import TorSim.Relayer.RelayerUnix

namespace TorSim

open TorSim.Lib

/-- A relayer and its destination, with the checks of `__init__`. -/
structure AsyncRelayerConfig where
  src : Connector
  dst : Connector
  mode : Mode
  rlytp : Option ToRRelayerType := none
  inter : Option Connector := none
  rlytp_iff : rlytp.isSome ↔ mode = .tor
  pap_inter : rlytp = some .pap → inter.isSome
  par_inter : rlytp = some .par → src.isinter ≠ dst.isinter

namespace AsyncRelayer

/-- ToR mode, the relayer that only forwards headers. -/
def isPar (cfg : AsyncRelayerConfig) : Bool := cfg.mode == .tor && cfg.rlytp == some .par

/-- ToR mode, the relayer that only forwards transactions. -/
def isPap (cfg : AsyncRelayerConfig) : Bool := cfg.mode == .tor && cfg.rlytp == some .pap

/-! ## §1. What a block puts into the queues. -/

/-- Everything put so far: headers under their block number, transactions under
their block number and position. -/
structure Queues where
  header : List (Int × Json) := []
  xtx : List ((Int × Nat) × Transaction) := []

/-- `queue_header.put(header)`. -/
def Queues.putHeader (bn : Int) (header : Json) (q : Queues) : Queues :=
  { q with header := q.header ++ [(bn, header)] }

/-- `queue_xtx.put(tx)`. -/
def Queues.putXtx (bn : Int) (i : Nat) (tx : Transaction) (q : Queues) : Queues :=
  { q with xtx := q.xtx ++ [((bn, i), tx)] }

/-- `mark_tx` and `is_xtx` have the text of the other relayer's. -/
def markTx (timeKey : String) (time : PyFloat) (tx : Transaction) : Except Exn Transaction :=
  RelayerUnix.markTx timeKey time tx

def isXtx (tx : Transaction) : Except Exn Bool := RelayerUnix.isXtx tx

/-- An exception thrown in from outside, or none. -/
def interrupt {σ : Type} : Option Exn → Comp σ Unit
  | none => pure ()
  | some e => Comp.raise e

/-- The exceptions thrown into a round: in `filter_header` before the header is
put, and in `filter_txs` before each transaction and after the last. -/
structure Faults where
  header : Option Exn := none
  txs : Nat → Option Exn := fun _ => none

/-- Whether headers go into the queue. -/
def putsHeader (cfg : AsyncRelayerConfig) : Bool :=
  cfg.mode == .aor || cfg.mode == .nor || isPar cfg

def filterHeader (cfg : AsyncRelayerConfig) (fault : Option Exn) (bn : Int) (header : Json) :
    Comp Queues Unit := do
  interrupt fault
  if putsHeader cfg then Comp.update (Queues.putHeader bn header) else pure ()

/-- One round of `filter_txs`: the number of transactions put into the queue. -/
def filterTx (time : PyFloat) (bn : Int) (i : Nat) (tx : Transaction) : Comp Queues Nat := do
  let xtx ← Comp.lift (isXtx tx)
  if xtx && tx.status == .success then do
    let tx ← Comp.lift (markTx "listened" time tx)
    Comp.update (Queues.putXtx bn i tx)
    return 1
  else return 0

def filterTxsFrom (faults : Nat → Option Exn) (time : Nat → PyFloat) (bn : Int) :
    Nat → List Transaction → Comp Queues Nat
  | i, [] => do
      interrupt (faults i)
      return 0
  | i, tx :: txs => do
      interrupt (faults i)
      let n ← filterTx (time i) bn i tx
      let cnt ← filterTxsFrom faults time bn (i + 1) txs
      return n + cnt

def filterTxs (cfg : AsyncRelayerConfig) (faults : Nat → Option Exn) (time : Nat → PyFloat)
    (bn : Int) (txs : List Transaction) : Comp Queues Nat :=
  if isPar cfg then pure 0 else filterTxsFrom faults time bn 0 txs

/-! ## §2. `check_xtx`. -/

/-- Whether the transaction goes to this relayer's destination by its memo. -/
def isForDst (cfg : AsyncRelayerConfig) (memo : Json) : Except Exn Bool := do
  let dst ← memo.get "dst" (.int (-1))
  let pid ← dst.toInt
  return decide (pid = cfg.dst.pid)

/-- The type a transaction gets when it goes to this relayer's destination. -/
def nextType (cfg : AsyncRelayerConfig) (memo xtxtype : Json) : Except Exn (Option String) :=
  match cfg.mode with
  | .nor =>
      if xtxtype.isStr TranMemo.ctxSrc then do
        let here ← isForDst cfg memo
        return if here then some TranMemo.ctxDst else none
      else return none
  | .aor =>
      if xtxtype.isStr TranMemo.ctxSrc then
        return if cfg.dst.isinter then some TranMemo.ctxInter else none
      else if xtxtype.isStr TranMemo.ctxInter then do
        let here ← isForDst cfg memo
        return if here then some TranMemo.ctxDst else none
      else return none
  | .tor =>
      if isPap cfg && xtxtype.isStr TranMemo.ctxSrc then do
        let here ← isForDst cfg memo
        return if here then some TranMemo.ctxDst else none
      else return none

/-- `check_xtx`: the memo of the transaction to send, if it is this relayer's to
forward. -/
def checkXtx (cfg : AsyncRelayerConfig) (xtx : Transaction) : Except Exn (Option Json) := do
  let memo ← Json.loadsValue xtx.memo
  let xtxtype ← memo.getItem "type"
  let next ← nextType cfg memo xtxtype
  match memo, next with
  | .obj kvs, some ty => return some (rewriteMemo kvs ty cfg.src.pid)
  | _, _ => return none

/-! ## §3. `listen_block`. -/

variable {τ : Type}

/-- What a fetched block puts into the queues. -/
def filterBlock (cfg : AsyncRelayerConfig) (faults : Faults) (time : Nat → PyFloat) (bn : Int)
    (block : Block) (header : Json) : Comp Queues Nat := do
  filterHeader cfg faults.header bn header
  filterTxs cfg faults.txs time bn block.txs

/-- `except Exception`: the same block again. -/
def afterError (nextbn : Int) (e : Exn) : Listen :=
  if e.isException then .listening nextbn else .stopped

variable [Sha256]

/-- One round of `listen_block`. -/
def listen (cfg : AsyncRelayerConfig) (link : Link) (faults : Faults) (time : Nat → PyFloat)
    (nextbn : Int) (q : Queues) (c : Chain τ) : Listen × Queues :=
  match (RelayerUnix.fetch link nextbn c).1 with
  | .error e => (afterError nextbn e, q)
  | .ok (block, header) =>
      match filterBlock cfg faults time nextbn block header q with
      | (.ok _, q') => (.listening (nextbn + 1), q')
      | (.error e, q') => (afterError nextbn e, q')

/-- The source chain, the listening task and its queues. -/
structure Session (τ : Type) where
  chain : Chain τ
  listen : Listen := .created
  queues : Queues := {}

/-- What happens: a step of the chain, the start of the task, a round, the stop.
The start reads the height the destination has reached, a counter from `0` up. -/
inductive Action (τ : Type) where
  | chain (a : Chain.Action τ)
  | start (maxbn : Except Exn Nat) (link : Link)
  | round (link : Link) (faults : Faults) (time : Nat → PyFloat)
  | stop

/-- The first block: the one after the destination's, or the latest of the source. -/
def firstBlock (maxbn : Nat) (link : Link) (c : Chain τ) : Except Exn Int :=
  if maxbn = 0 then (Connector.queryBlockNumber link c).1 else .ok (maxbn + 1)

variable [Contracts]

def step (ccfg : Config) (cfg : AsyncRelayerConfig) (s : Session τ) :
    Action τ → Option (Session τ)
  | .chain a =>
      match Chain.step ccfg s.chain a with
      | some c => some { s with chain := c }
      | none => none
  | .start maxbn link =>
      match s.listen with
      | .created =>
          match (do
            let n ← maxbn
            firstBlock n link s.chain) with
          | .ok bn => some { s with listen := .listening bn }
          | .error _ => some { s with listen := .stopped }
      | _ => none
  | .round link faults time =>
      match s.listen with
      | .listening nextbn =>
          let (l, q) := listen cfg link faults time nextbn s.queues s.chain
          some { s with listen := l, queues := q }
      | _ => none
  | .stop =>
      match s.listen with
      | .listening _ => some { s with listen := .stopped }
      | _ => none

end AsyncRelayer

end TorSim
