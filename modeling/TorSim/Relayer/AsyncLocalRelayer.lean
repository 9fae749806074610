/-
  TorSim.Relayer.AsyncLocalRelayer — a relayer in the process of its chains.

  `listen_block` puts headers and cross-chain transactions of the source chain into
  two queues; `deal_header` and `deal_xtx` take them out, one at a time, and send
  transactions to the destination chain.  `send_tx` tells by its result whether the
  pool had room, and no task looks at the result.  An exception ends the task it is
  raised in; `listen_block` tries the same block again.

  The tasks are coroutines.  They give way in their sleeps and on an empty queue;
  here anything may come in between any two requests, so a statement about every run
  covers the order of the code too.

  What a task has taken for the destination and what it has in hand, also when it has
  stopped, is recorded; no step reads the record.

  Main definitions:
    * `filterHeader`, `filterTxs`, `listen` — from a block into the queues.
    * `takeHeader`, `sendHeader` — one round of `deal_header`.
    * `takeXtx`, `advance` — the steps of one round of `deal_xtx`.
    * `step` — the three chains and the tasks, interleaved.
-/
import TorSim.Relayer.AsyncLocalConnector
import TorSim.Relayer.AsyncRelayer

namespace TorSim

open TorSim.Lib

/-- The chains a relayer works with; the relay chain in ToR mode only. -/
inductive Role where
  | src
  | dst
  | inter
  deriving Repr, DecidableEq

/-- Where a submission comes from: the header of a block, the first-layer transaction
for an `inter_height`, or the cross-chain transaction at a place in the source chain. -/
inductive LocalOrigin where
  | client
  | header (bn : Int)
  | layer1 (interHeight : Int)
  | xtx (root : Int × Nat)
  deriving Repr, DecidableEq

namespace AsyncLocalRelayer

open AsyncRelayer (isPar isPap putsHeader checkXtx)

/-! ## §1. The state. -/

/-- The two queues.  `none` is the stop signal. -/
structure Queues where
  header : List (Option (Int × Json)) := []
  xtx : List (Option ((Int × Nat) × Transaction)) := []

/-- Where `wait_header` and what follows it stand. -/
inductive Wait where
  /-- The loop on the relay chain's record of the source chain. -/
  | inter (synced : Int)
  /-- The look-up of the height at which the relay chain confirmed the header. -/
  | csHeight
  /-- The loop on the destination's record. -/
  | dst (height : Int)
  /-- The first-layer transaction. -/
  | layer1 (interHeight : Int)
  /-- The mark and the sending. -/
  | ready
  deriving Repr, DecidableEq

/-- The transaction `deal_xtx` is working on, and the one it builds of it. -/
structure Dealing where
  root : Int × Nat
  xtx : Transaction
  state : String
  tx : Transaction
  wait : Wait

/-- `deal_header`, with the header in hand or stopped on. -/
structure HeaderTask where
  alive : Bool := true
  hand : Option (Int × Json) := none
  taken : List Int := []

/-- `deal_xtx` with its local variables, and the transaction in hand or stopped on. -/
structure XtxTask where
  alive : Bool := true
  dealing : Option Dealing := none
  syncedHeight : Int := 0
  l1txSent : List Int := []
  hand : Option (Int × Nat) := none
  taken : List (Int × Nat) := []

/-- `startbn` records the first block. -/
structure State where
  chains : Role → Blockchain LocalOrigin
  listen : Listen := .created
  startbn : Int := 0
  queues : Queues := {}
  headerTask : HeaderTask := {}
  xtxTask : XtxTask := {}

/-- Change one chain. -/
def State.setChain (role : Role) (c : Blockchain LocalOrigin) (s : State) : State :=
  { s with chains := Function.update s.chains role c }

/-! ## §2. `listen_block`. -/

/-- `queue_header.put(header)`. -/
def Queues.putHeader (bn : Int) (header : Json) (q : Queues) : Queues :=
  { q with header := q.header ++ [some (bn, header)] }

/-- `queue_xtx.put(tx)`. -/
def Queues.putXtx (root : Int × Nat) (tx : Transaction) (q : Queues) : Queues :=
  { q with xtx := q.xtx ++ [some (root, tx)] }

def filterHeader (cfg : AsyncRelayerConfig) (bn : Int) (header : Json) : Comp Queues Unit :=
  if putsHeader cfg then Comp.update (Queues.putHeader bn header) else pure ()

section Listening

variable [Sha256]

/-- One round of `filter_txs`: a copy of a successful cross-chain transaction is marked
and put.  `mark_tx` and `is_xtx` have the text of the other relayers'. -/
def filterTx (time : PyFloat) (root : Int × Nat) (tx : Transaction) : Comp Queues Unit := do
  let xtx ← Comp.lift (RelayerUnix.isXtx tx)
  if xtx && tx.status == .success then do
    let doc ← Comp.lift tx.asJson
    let tx ← Comp.lift (Transaction.fromJson doc)
    let tx ← Comp.lift (RelayerUnix.markTx "listened" time tx)
    Comp.update (Queues.putXtx root tx)
  else pure ()

def filterTxsFrom (time : Nat → PyFloat) (bn : Int) : Nat → List Transaction → Comp Queues Unit
  | _, [] => pure ()
  | i, tx :: txs => do
      filterTx (time i) (bn, i) tx
      filterTxsFrom time bn (i + 1) txs

def filterTxs (cfg : AsyncRelayerConfig) (time : Nat → PyFloat) (bn : Int)
    (txs : List Transaction) : Comp Queues Unit :=
  if isPar cfg then pure () else filterTxsFrom time bn 0 txs

/-- What a fetched block puts into the queues. -/
def filterBlock (cfg : AsyncRelayerConfig) (time : Nat → PyFloat) (bn : Int) (block : Block)
    (header : Json) : Comp Queues Unit := do
  filterHeader cfg bn header
  filterTxs cfg time bn block.txs

/-- The block and its header. -/
def fetch (nextbn : Int) : Comp (Blockchain LocalOrigin) (Block × Json) := do
  let block ← AsyncLocalConnector.queryBlock nextbn
  let header ← Comp.lift block.header
  return (block, header)

/-- One round of `listen_block` on the source chain. -/
def listen (cfg : AsyncRelayerConfig) (time : Nat → PyFloat) (nextbn : Int) (q : Queues)
    (c : Blockchain LocalOrigin) : Listen × Queues :=
  match (fetch nextbn c).1 with
  | .error e => (AsyncRelayer.afterError nextbn e, q)
  | .ok (block, header) =>
      match filterBlock cfg time nextbn block header q with
      | (.ok _, q') => (.listening (nextbn + 1), q')
      | (.error e, q') => (AsyncRelayer.afterError nextbn e, q')

end Listening

section Steps

variable [Contracts]

/-- The start of `listen_block`: the block after the greatest one the destination knows,
or the latest of the source. -/
def start (cfg : AsyncRelayerConfig) (s : State) : State :=
  match AsyncLocalConnector.queryMaxXbn cfg.dst cfg.src.pid (s.chains .dst) with
  | (.error _, c) => { s.setChain .dst c with listen := .stopped }
  | (.ok maxbn, c) =>
      let maxbn := if maxbn = 0 then (s.chains .src).blocks.blockNum - 1 else maxbn
      { s.setChain .dst c with listen := .listening (maxbn + 1), startbn := maxbn + 1 }

/-! ## §3. `deal_header`. -/

/-- `queue_header.get()`; none while the task is busy or the queue empty. -/
def takeHeader (s : State) : Option State :=
  if s.headerTask.alive && s.headerTask.hand.isNone then
    match s.queues.header with
    | [] => none
    | none :: rest => some { s with
        queues := { s.queues with header := rest }
        headerTask := { s.headerTask with alive := false } }
    | some (bn, header) :: rest => some { s with
        queues := { s.queues with header := rest }
        headerTask := { s.headerTask with
          hand := some (bn, header)
          taken := s.headerTask.taken ++ [bn] } }
  else none

omit [Contracts] in
/-- The `header_sync` transaction of a header. -/
def headerTx (cfg : AsyncRelayerConfig) (time : PyFloat) (header : Json) :
    Except Exn Transaction := do
  let height ← header.getItem "height"
  return cfg.dst.buildTx
    (CtrLightClient.request .headerSync
      [.int cfg.src.pid, .str cfg.src.paratype, height, header])
    (memoOf [("type", .str TranMemo.ctxHdr), ("src", .int cfg.src.pid), ("height", height),
      ("ts", .obj [("header/send", .float time)])])

/-- `dst.send_tx(tx)` for the header in hand, the result not looked at. -/
def sendHeader (cfg : AsyncRelayerConfig) (time put : PyFloat) (s : State) : Option State :=
  if s.headerTask.alive then
    match s.headerTask.hand with
    | none => none
    | some (bn, header) =>
        match headerTx cfg time header with
        | .error _ => some { s with headerTask := { s.headerTask with alive := false } }
        | .ok tx =>
            match AsyncLocalConnector.sendTx put (.header bn) tx (s.chains .dst) with
            | (.ok _, c) =>
                some { s.setChain .dst c with headerTask := { s.headerTask with hand := none } }
            | (.error _, c) =>
                some { s.setChain .dst c with headerTask := { s.headerTask with alive := false } }
  else none

/-! ## §4. `deal_xtx`. -/

/-- The type the state is verified under: `Simple` between chains of different
types in ToR mode. -/
def srcType (cfg : AsyncRelayerConfig) : String :=
  if cfg.mode = .tor ∧ cfg.src.paratype ≠ cfg.dst.paratype then "Simple" else cfg.src.paratype

/-- What `wait_header` does first. -/
def firstWait (cfg : AsyncRelayerConfig) (height : Int) : Except Exn Wait :=
  match cfg.mode with
  | .nor => .ok (.dst height)
  | .aor => .ok (.dst height)
  | .tor => if isPap cfg then .ok (.inter 0) else .error ⟨.runtime, "invalid relayer mode"⟩

section Dealing

variable [Sha256]

omit [Contracts] in
/-- From the proof to the wait: the transaction that carries the state. -/
def prepare (cfg : AsyncRelayerConfig) (time : PyFloat) (root : Int × Nat) (xtx : Transaction)
    (memo : Json) : Comp (Blockchain LocalOrigin) Dealing := do
  let proof ← AsyncLocalConnector.queryXtxProof xtx
  let doc ← Comp.lift xtx.asJson
  let state := Json.dumps (.obj [("tx", doc), ("proof", .str proof)])
  let tx := cfg.dst.buildTx
    (CtrLightClient.request .validateState
      [.int cfg.src.pid, .str (srcType cfg), .int xtx.height, .str state])
    memo
  let tx ← Comp.lift (RelayerUnix.markTx "ready" time tx)
  let wait ← Comp.lift (firstWait cfg xtx.height)
  return { root := root, xtx := xtx, state := state, tx := tx, wait := wait }

omit [Contracts] in
/-- The head of the loop of `deal_xtx`; none while the task is busy or the queue empty.  A
transaction that is not this relayer's to forward is not taken for the destination. -/
def takeXtx (cfg : AsyncRelayerConfig) (time : PyFloat) (s : State) : Option State :=
  if s.xtxTask.alive && s.xtxTask.dealing.isNone then
    match s.queues.xtx with
    | [] => none
    | none :: rest => some { s with
        queues := { s.queues with xtx := rest }
        xtxTask := { s.xtxTask with alive := false } }
    | some (root, xtx) :: rest =>
        let s := { s with queues := { s.queues with xtx := rest } }
        let t := { s.xtxTask with hand := some root, taken := s.xtxTask.taken ++ [root] }
        match checkXtx cfg xtx with
        | .error _ => some { s with xtxTask := { t with alive := false } }
        | .ok none => some s
        | .ok (some memo) =>
            match (prepare cfg time root xtx memo (s.chains .src)).1 with
            | .error _ => some { s with xtxTask := { t with alive := false } }
            | .ok dealing => some { s with xtxTask := { t with dealing := some dealing } }
  else none

end Dealing

/-- The chain whose headers `wait_header` counts at the destination. -/
def countedPid (cfg : AsyncRelayerConfig) : Int :=
  match cfg.mode, cfg.inter with
  | .tor, some inter => inter.pid
  | _, _ => cfg.src.pid

omit [Contracts] in
/-- The first-layer transaction: the state under the relay chain's header. -/
def layer1Tx (cfg : AsyncRelayerConfig) (inter : Connector) (time : PyFloat) (interHeight : Int)
    (state : String) : Transaction :=
  cfg.dst.buildTx
    (CtrLightClient.request .validateState
      [.int inter.pid, .str inter.paratype, .int interHeight, .str state])
    (memoOf [("type", .str TranMemo.ctxDstL1), ("dst", .int cfg.dst.pid),
      ("ts", .obj [("relayer/L1send", .float time)])])

/-- Run a computation on one chain. -/
def onChain {α : Type} (role : Role) (x : Comp (Blockchain LocalOrigin) α) :
    Comp (Role → Blockchain LocalOrigin) α :=
  Comp.zoom (fun cs => cs role) (fun c cs => Function.update cs role c) x

/-- The next step of `deal_xtx` with a transaction in hand. -/
def advanceDealing (cfg : AsyncRelayerConfig) (time put : PyFloat) (t : XtxTask) (h : Dealing) :
    Comp (Role → Blockchain LocalOrigin) XtxTask :=
  match h.wait, cfg.inter with
  | .inter synced, some inter =>
      if synced < h.xtx.height then do
        let n ← onChain .inter (AsyncLocalConnector.queryMaxXbn inter cfg.src.pid)
        return { t with dealing := some { h with wait := .inter n } }
      else return { t with dealing := some { h with wait := .csHeight } }
  | .csHeight, some inter => do
      let n ← onChain .inter
        (AsyncLocalConnector.queryHeaderCsHeight inter cfg.src.pid h.xtx.height)
      return { t with dealing := some { h with wait := .dst n } }
  | .dst height, _ =>
      if t.syncedHeight < height then do
        let n ← onChain .dst (AsyncLocalConnector.queryMaxXbn cfg.dst (countedPid cfg))
        return { t with syncedHeight := n }
      else
        return { t with dealing := some { h with
          wait := if cfg.mode = .tor then .layer1 height else .ready } }
  | .layer1 interHeight, some inter =>
      if h.xtx.height ∈ t.l1txSent then
        return { t with dealing := some { h with wait := .ready } }
      else do
        let tx := layer1Tx cfg inter time interHeight h.state
        let _ ← onChain .dst (AsyncLocalConnector.sendTx put (.layer1 interHeight) tx)
        return { t with
          l1txSent := h.xtx.height :: t.l1txSent
          dealing := some { h with wait := .ready } }
  | .ready, _ => do
      let tx ← Comp.lift (RelayerUnix.markTx "send" time h.tx)
      let _ ← onChain .dst (AsyncLocalConnector.sendTx put (.xtx h.root) tx)
      return { t with dealing := none, hand := none }
  | _, none => Comp.raise ⟨.attribute, "'NoneType' object has no attribute 'query_max_xbn'"⟩

/-- An exception ends the task. -/
def advance (cfg : AsyncRelayerConfig) (time put : PyFloat) (s : State) : Option State :=
  if s.xtxTask.alive then
    match s.xtxTask.dealing with
    | none => none
    | some h =>
        match advanceDealing cfg time put s.xtxTask h s.chains with
        | (.ok t, cs) => some { s with chains := cs, xtxTask := t }
        | (.error _, cs) => some { s with
            chains := cs
            xtxTask := { s.xtxTask with alive := false, dealing := none } }
  else none

/-! ## §5. One step. -/

/-- What can happen: a step of a chain, or a step of a task. -/
inductive Action where
  | chain (role : Role) (a : Blockchain.Action LocalOrigin)
  | start
  | round (time : Nat → PyFloat)
  | stopListen
  | stopHeader
  | stopXtx
  | takeHeader
  | sendHeader (time put : PyFloat)
  | takeXtx (time : PyFloat)
  | advance (time put : PyFloat)

omit [Contracts] in
/-- Whoever else submits is a client. -/
def byClient : Blockchain.Action LocalOrigin → Bool
  | .submit _ tag _ => decide (tag = .client)
  | _ => true

variable [Sha256]

def step (ccfg : Role → Config) (cfg : AsyncRelayerConfig) (s : State) : Action → Option State
  | .chain role a =>
      if byClient a then (Blockchain.step (ccfg role) (s.chains role) a).map (s.setChain role ·)
      else none
  | .start =>
      match s.listen with
      | .created => some (start cfg s)
      | _ => none
  | .round time =>
      match s.listen with
      | .listening nextbn =>
          let r := listen cfg time nextbn s.queues (s.chains .src)
          some { s with listen := r.1, queues := r.2 }
      | _ => none
  | .stopListen =>
      match s.listen with
      | .listening _ => some { s with listen := .stopped }
      | _ => none
  | .stopHeader => some { s with queues := { s.queues with header := s.queues.header ++ [none] } }
  | .stopXtx => some { s with queues := { s.queues with xtx := s.queues.xtx ++ [none] } }
  | .takeHeader => takeHeader s
  | .sendHeader time put => sendHeader cfg time put s
  | .takeXtx time => takeXtx cfg time s
  | .advance time put => advance cfg time put s

end Steps

end AsyncLocalRelayer

end TorSim
