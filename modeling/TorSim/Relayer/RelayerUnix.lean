/-
  TorSim.Relayer.RelayerUnix — a relayer from one chain to several.

  `listen_block` walks over the blocks of the source chain; of each it puts the
  header and the cross-chain transactions into the queues of the destinations
  they are meant for.  Per destination `deal_header` turns headers into
  `header_sync` transactions, and `deal_xtx` turns cross-chain transactions into
  `validate_state` transactions, each held back until the destination has
  synchronised far enough.  An exception ends the task it is raised in.

  A step runs from one request to the next.  Requests go to other processes, so
  between two steps anything may happen elsewhere.

  Main definitions:
    * `filterHeader`, `filterTxs` — what a block puts into the queues.
    * `listen` — one round of `listen_block`.
    * `dealHeader` — one round of `deal_header`.
    * `takeXtx`, `advance` — the steps of one round of `deal_xtx`.
-/
import TorSim.Relayer.Connector
import Mathlib.Data.List.Infix

namespace TorSim

open TorSim.Lib

/-! ## §1. Configuration. -/

inductive Mode where
  | nor
  | aor
  | tor
  deriving Repr, DecidableEq

/-- In ToR mode: between a parachain and the relay chain (`par`, headers only), or
between parachains (`pap`, cross-chain transactions only). -/
inductive ToRRelayerType where
  | par
  | pap
  deriving Repr, DecidableEq

/-- A relayer and its destinations, with the checks of `__init__` and `add_dst`. -/
structure RelayerConfig where
  src : Connector
  mode : Mode
  rlytp : Option ToRRelayerType := none
  inter : Option Connector := none
  dsts : List Connector
  pids_nodup : (dsts.map Connector.pid).Nodup
  src_not_dst : ∀ d ∈ dsts, d.pid ≠ src.pid
  rlytp_iff : rlytp.isSome ↔ mode = .tor
  pap_inter : rlytp = some .pap → inter.isSome

/-- Outside ToR mode there is no relayer type. -/
theorem nor_rlytp : (none : Option ToRRelayerType).isSome ↔ Mode.nor = .tor := by decide

theorem nor_pap : (none : Option ToRRelayerType) = some .pap →
    (none : Option Connector).isSome := by
  intro h
  cases h

theorem nor_par {p : Prop} : (none : Option ToRRelayerType) = some .par → p := by
  intro h
  cases h

namespace RelayerConfig

/-- `all_pids()`. -/
def allPids (cfg : RelayerConfig) : List Int := cfg.dsts.map Connector.pid

/-- The connector of a destination. -/
def dst (cfg : RelayerConfig) (pid : Int) : Option Connector :=
  cfg.dsts.find? (fun d => d.pid == pid)

/-- ToR mode, the relayer that only forwards headers. -/
def isPar (cfg : RelayerConfig) : Bool := cfg.mode == .tor && cfg.rlytp == some .par

/-- ToR mode, the relayer that only forwards transactions. -/
def isPap (cfg : RelayerConfig) : Bool := cfg.mode == .tor && cfg.rlytp == some .pap

end RelayerConfig

/-- The fixed id of the relay chain. -/
def interPid : Int := 30000

/-! ## §2. The state of a relayer. -/

section State

variable (κ : Type)

/-- Where `wait_header` and what follows it stand. -/
inductive Wait where
  /-- The loop on the relay chain's record of the source chain. -/
  | inter
  /-- The look-up of the height at which the relay chain confirmed the header. -/
  | csHeight
  /-- The loop on the destination's record. -/
  | dst (height : Int)
  /-- The first-layer transaction. -/
  | layer1 (interHeight : Int)
  /-- The mark and the sending. -/
  | ready
  deriving Repr, DecidableEq

/-- The transaction `deal_xtx` is working on, and the one it builds of it. -/
structure Dealing where
  tag : κ
  xtx : Transaction
  state : String
  tx : Transaction
  wait : Wait

/-- The task `deal_xtx` with its local variables. -/
structure XtxTask where
  alive : Bool := true
  dealing : Option (Dealing κ) := none
  syncedHeight : Int := 0
  syncedInterHeight : Int := 0
  torCsHeightOnInter : List (Int × Int) := []
  l1txSent : List Int := []

/-- The queues and tasks of one destination.  `none` is the stop signal. -/
structure DstTool where
  queueHeader : List (Option Json) := []
  queueXtx : List (Option (κ × Transaction)) := []
  headerAlive : Bool := true
  xtxTask : XtxTask κ := {}

/-- Where `listen_block` stands, `nextbn` the next block to fetch. -/
inductive Listen where
  | created
  | listening (nextbn : Int)
  | stopped
  deriving Repr, DecidableEq

/-- `startbn` records the first block; no step reads it. -/
structure Relayer where
  listen : Listen := .created
  startbn : Int := 0
  dsts : Int → DstTool κ := fun _ => {}

end State

variable {κ τ : Type}

/-- `queue_header.put(header)`. -/
def DstTool.pushHeader (header : Json) (d : DstTool κ) : DstTool κ :=
  { d with queueHeader := d.queueHeader ++ [some header] }

/-- `queue_xtx.put(tx)`, one after the other. -/
def DstTool.pushXtxs (es : List (κ × Transaction)) (d : DstTool κ) : DstTool κ :=
  { d with queueXtx := d.queueXtx ++ es.map some }

namespace RelayerUnix

/-! ## §3. What a block puts into the queues. -/

/-- `mark_tx(tx, time_key)`. -/
def markTx (timeKey : String) (time : PyFloat) (tx : Transaction) : Except Exn Transaction := do
  let memo ← stampRelayer timeKey time tx.memo
  return { tx with memo := memo }

def isXtx (tx : Transaction) : Except Exn Bool := do
  let memo ← Json.loadsValue tx.memo
  let ty ← memo.get "type" .null
  return ty.isStr TranMemo.ctxSrc || ty.isStr TranMemo.ctxInter

/-- The assertion of `get_connector`. -/
def getConnector (cfg : RelayerConfig) (pid : Int) : Except Exn Unit :=
  assertE (decide (pid ∈ cfg.allPids)) ("pid(" ++ toString pid ++ ") not in dsts("
    ++ "dict_keys(" ++ (Json.arr (cfg.allPids.map Json.int)).toStr ++ "))")

/-- Change the tools of one destination. -/
def updateDst (pid : Int) (f : DstTool κ → DstTool κ) (dsts : Int → DstTool κ) :
    Int → DstTool κ :=
  Function.update dsts pid (f (dsts pid))

def putHeader (cfg : RelayerConfig) (header : Json) (pid : Int) : Comp (Int → DstTool κ) Unit := do
  Comp.lift (getConnector cfg pid)
  Comp.update (updateDst pid (DstTool.pushHeader header))

def putTx (cfg : RelayerConfig) (tag : κ) (tx : Transaction) (pid : Int) :
    Comp (Int → DstTool κ) Unit := do
  Comp.lift (getConnector cfg pid)
  Comp.update (updateDst pid (DstTool.pushXtxs [(tag, tx)]))

/-- `dst_ids` of `filter_header`. -/
def headerDsts (cfg : RelayerConfig) : List Int :=
  match cfg.mode with
  | .nor => cfg.allPids
  | .aor => if cfg.src.isinter then cfg.allPids else [interPid]
  | .tor =>
      if cfg.isPar then (if cfg.src.isinter then cfg.allPids else [interPid]) else []

def filterHeader (cfg : RelayerConfig) (header : Json) : Comp (Int → DstTool κ) Unit :=
  Comp.forEach (fun pid => if pid ≠ cfg.src.pid then putHeader cfg header pid else pure ())
    (headerDsts cfg)

/-- The next hop of a cross-chain transaction by its type: the type it gets, and
the relay chain unless it goes where its memo says. -/
def nextHop (cfg : RelayerConfig) (xtxtype : Json) : Option (String × Option Int) :=
  match cfg.mode with
  | .nor => if xtxtype.isStr TranMemo.ctxSrc then some (TranMemo.ctxDst, none) else none
  | .aor =>
      if xtxtype.isStr TranMemo.ctxSrc then some (TranMemo.ctxInter, some interPid)
      else if xtxtype.isStr TranMemo.ctxInter then some (TranMemo.ctxDst, none)
      else none
  | .tor =>
      if cfg.isPap && xtxtype.isStr TranMemo.ctxSrc then some (TranMemo.ctxDst, none) else none

/-- `parse_next_pid`: the destination, `-1` for none, and the rewritten transaction. -/
def parseNextPid (cfg : RelayerConfig) (xtx : Transaction) : Except Exn (Transaction × Int) := do
  let memo ← Json.loadsValue xtx.memo
  let xtxtype ← memo.getItem "type"
  match memo, nextHop cfg xtxtype with
  | .obj kvs, some (ty, hop) => do
      let xtx := { xtx with memo := rewriteMemo kvs ty cfg.src.pid }
      match hop with
      | some pid => return (xtx, pid)
      | none => do
          let dst ← memo.get "dst" (.int (-1))
          let pid ← dst.toInt
          return (xtx, pid)
  | _, _ => return (xtx, -1)

/-- What `filter_txs` forwards of a transaction, and where to: nothing unless it
is a successful cross-chain transaction with a next hop. -/
def forward (cfg : RelayerConfig) (time : PyFloat) (tx : Transaction) :
    Except Exn (Option (Int × Transaction)) := do
  let xtx ← isXtx tx
  if xtx && tx.status == .success then do
    let (tx, pid) ← parseNextPid cfg tx
    if pid = -1 then return none
    else do
      let tx ← markTx "listened" time tx
      return some (pid, tx)
  else return none

/-- One round of `filter_txs`: the number of transactions put into a queue. -/
def filterTx (cfg : RelayerConfig) (time : PyFloat) (tag : κ) (tx : Transaction) :
    Comp (Int → DstTool κ) Nat := do
  let next ← Comp.lift (forward cfg time tx)
  match next with
  | none => return 0
  | some (pid, tx) => do
      putTx cfg tag tx pid
      return 1

def filterTxsFrom (cfg : RelayerConfig) (time : Nat → PyFloat) (tag : Nat → κ) :
    Nat → List Transaction → Comp (Int → DstTool κ) Nat
  | _, [] => pure 0
  | i, tx :: txs => do
      let n ← filterTx cfg (time i) (tag i) tx
      let cnt ← filterTxsFrom cfg time tag (i + 1) txs
      return n + cnt

def filterTxs (cfg : RelayerConfig) (time : Nat → PyFloat) (tag : Nat → κ)
    (txs : List Transaction) : Comp (Int → DstTool κ) Nat :=
  if cfg.isPar then pure 0 else filterTxsFrom cfg time tag 0 txs

/-! ## §4. `listen_block`. -/

/-- `"cannot find block" in str(e)`. -/
def saysNoBlock (e : Exn) : Bool := decide ("cannot find block".toList <:+: e.msg.toList)

/-- The two `except` clauses of the loop: try the same block again, or stop. -/
def afterError (nextbn : Int) (e : Exn) : Listen :=
  if e.cls == .connection then .listening nextbn
  else if e.isException && saysNoBlock e then .listening nextbn
  else .stopped

section Steps

variable [Contracts] [Sha256]

omit [Contracts] in
/-- The block and its header. -/
def fetch (link : Link) (nextbn : Int) : Comp (Chain τ) (Block × Json) := do
  let block ← Connector.queryBlock link nextbn
  let header ← Comp.lift block.header
  return (block, header)

/-- What a fetched block puts into the queues. -/
def filterBlock (cfg : RelayerConfig) (time : Nat → PyFloat) (tag : Nat → κ) (block : Block)
    (header : Json) : Comp (Int → DstTool κ) Nat := do
  filterHeader cfg header
  filterTxs cfg time tag block.txs

omit [Contracts] in
/-- One round of `listen_block` on the source chain. -/
def listen (cfg : RelayerConfig) (link : Link) (time : Nat → PyFloat) (tag : Nat → κ)
    (nextbn : Int) (rl : Relayer κ) (c : Chain τ) : Relayer κ × Chain τ :=
  match fetch link nextbn c with
  | (.error e, c') => ({ rl with listen := afterError nextbn e }, c')
  | (.ok (block, header), c') =>
      match filterBlock cfg time tag block header rl.dsts with
      | (.ok _, dsts) => ({ rl with listen := .listening (nextbn + 1), dsts := dsts }, c')
      | (.error e, dsts) => ({ rl with listen := afterError nextbn e, dsts := dsts }, c')

omit [Contracts] in
/-- The start of `listen_block`: the latest block is the first one fetched. -/
def start (link : Link) (rl : Relayer κ) (c : Chain τ) : Relayer κ × Chain τ :=
  match Connector.queryBlockNumber link c with
  | (.error _, c') => ({ rl with listen := .stopped }, c')
  | (.ok height, c') => ({ rl with listen := .listening height, startbn := height }, c')

/-! ## §5. `deal_header`. -/

/-- The `header_sync` transaction of a header. -/
def headerTx (cfg : RelayerConfig) (dst : Connector) (time : PyFloat) (header : Json) :
    Except Exn Transaction := do
  let height ← header.getItem "height"
  return dst.buildTx
    (CtrLightClient.request .headerSync
      [.int cfg.src.pid, .str cfg.src.paratype, height, header])
    (memoOf [("type", .str TranMemo.ctxHdr), ("src", .int cfg.src.pid), ("height", height),
      ("ts", .obj [("header/send", .float time)])])

omit [Contracts] in
/-- One round of `deal_header` on the destination chain; none without a header. -/
def dealHeader (cfg : RelayerConfig) (dst : Connector) (link : Link) (time put : PyFloat)
    (tag : Json → τ) (d : DstTool κ) (c : Chain τ) : Option (DstTool κ × Chain τ) :=
  if d.headerAlive then
    match d.queueHeader with
    | [] => none
    | none :: rest => some ({ d with queueHeader := rest, headerAlive := false }, c)
    | some header :: rest =>
        let sent : Comp (Chain τ) String := do
          let tx ← Comp.lift (headerTx cfg dst time header)
          Connector.sendTx link put (tag header) tx
        match sent c with
        | (.ok _, c') => some ({ d with queueHeader := rest }, c')
        | (.error _, c') => some ({ d with queueHeader := rest, headerAlive := false }, c')
  else none

/-! ## §6. `deal_xtx`. -/

/-- The type the state is verified under: `Simple` between chains of different
types in ToR mode. -/
def srcType (cfg : RelayerConfig) (dst : Connector) : String :=
  if cfg.mode = .tor ∧ cfg.src.paratype ≠ dst.paratype then "Simple" else cfg.src.paratype

/-- What `wait_header` does first. -/
def firstWait (cfg : RelayerConfig) (height : Int) : Except Exn Wait :=
  match cfg.mode with
  | .nor => .ok (.dst height)
  | .aor => .ok (.dst height)
  | .tor => if cfg.isPap then .ok .inter else .error ⟨.runtime, "invalid relayer mode"⟩

omit [Contracts] in
/-- From the proof to the wait: the transaction that carries the state. -/
def prepare (cfg : RelayerConfig) (dst : Connector) (link : Link) (time : PyFloat) (tag : κ)
    (xtx : Transaction) : Comp (Chain τ) (Dealing κ) := do
  let proof ← Connector.queryXtxProof link xtx
  let doc ← Comp.lift xtx.asJson
  let state := Json.dumps (.obj [("tx", doc), ("proof", .str proof)])
  let tx := dst.buildTx
    (CtrLightClient.request .validateState
      [.int cfg.src.pid, .str (srcType cfg dst), .int xtx.height, .str state])
    xtx.memo
  let tx ← Comp.lift (markTx "ready" time tx)
  let wait ← Comp.lift (firstWait cfg xtx.height)
  return { tag := tag, xtx := xtx, state := state, tx := tx, wait := wait }

omit [Contracts] in
/-- The head of the loop of `deal_xtx`, on the source chain; none while the task is
busy or the queue empty. -/
def takeXtx (cfg : RelayerConfig) (dst : Connector) (link : Link) (time : PyFloat)
    (d : DstTool κ) (c : Chain τ) : Option (DstTool κ × Chain τ) :=
  if d.xtxTask.alive && d.xtxTask.dealing.isNone then
    match d.queueXtx with
    | [] => none
    | none :: rest => some ({ d with
        queueXtx := rest
        xtxTask := { d.xtxTask with alive := false } }, c)
    | some (tag, xtx) :: rest =>
        match prepare cfg dst link time tag xtx c with
        | (.ok dealing, c') => some ({ d with
            queueXtx := rest
            xtxTask := { d.xtxTask with dealing := some dealing } }, c')
        | (.error _, c') => some ({ d with
            queueXtx := rest
            xtxTask := { d.xtxTask with alive := false } }, c')
  else none

/-- The chain whose headers `wait_header` counts at the destination. -/
def countedPid (cfg : RelayerConfig) : Int :=
  match cfg.mode, cfg.inter with
  | .tor, some inter => inter.pid
  | _, _ => cfg.src.pid

/-- The first-layer transaction: the state under the relay chain's header. -/
def layer1Tx (inter dst : Connector) (time : PyFloat) (interHeight : Int) (state : String) :
    Transaction :=
  dst.buildTx
    (CtrLightClient.request .validateState
      [.int inter.pid, .str inter.paratype, .int interHeight, .str state])
    (memoOf [("type", .str TranMemo.ctxDstL1), ("dst", .int dst.pid),
      ("ts", .obj [("relayer/L1send", .float time)])])

/-- Run a computation on one chain. -/
def onChain {α : Type} (pid : Int) (x : Comp (Chain τ) α) : Comp (Int → Chain τ) α :=
  Comp.zoom (fun cs => cs pid) (fun c cs => Function.update cs pid c) x

/-- The tags of the two transactions `deal_xtx` sends. -/
structure XtxTags (κ τ : Type) where
  layer1 : Int → τ
  xtx : Int → κ → τ

/-- The next step of `deal_xtx` with a transaction in hand. -/
def advanceDealing (cfg : RelayerConfig) (inter : Option Connector) (dst : Connector) (link : Link)
    (time put : PyFloat) (tags : XtxTags κ τ) (t : XtxTask κ) (h : Dealing κ) :
    Comp (Int → Chain τ) (XtxTask κ) :=
  match h.wait, inter with
  | .inter, some inter =>
      if t.syncedInterHeight < h.xtx.height then do
        let n ← onChain inter.pid (inter.queryMaxXbn link cfg.src.pid)
        return { t with syncedInterHeight := n }
      else return { t with dealing := some { h with wait := .csHeight } }
  | .csHeight, some inter =>
      let cached := (t.torCsHeightOnInter.lookup h.xtx.height).getD 0
      if cached = 0 then do
        let n ← onChain inter.pid (inter.queryHeaderCsHeight link cfg.src.pid h.xtx.height)
        return { t with
          torCsHeightOnInter := (h.xtx.height, n) :: t.torCsHeightOnInter
          dealing := some { h with wait := .dst n } }
      else return { t with dealing := some { h with wait := .dst cached } }
  | .dst height, _ =>
      if t.syncedHeight < height then do
        let n ← onChain dst.pid (dst.queryMaxXbn link (countedPid cfg))
        return { t with syncedHeight := n }
      else
        return { t with dealing := some { h with
          wait := if cfg.mode = .tor then .layer1 height else .ready } }
  | .layer1 interHeight, some inter =>
      if h.xtx.height ∈ t.l1txSent then
        return { t with dealing := some { h with wait := .ready } }
      else do
        let tx := layer1Tx inter dst time interHeight h.state
        let _ ← onChain dst.pid (Connector.sendTx link put (tags.layer1 interHeight) tx)
        return { t with
          l1txSent := h.xtx.height :: t.l1txSent
          dealing := some { h with wait := .ready } }
  | .ready, _ => do
      let tx ← Comp.lift (markTx "send" time h.tx)
      let _ ← onChain dst.pid (Connector.sendTx link put (tags.xtx h.xtx.height h.tag) tx)
      return { t with dealing := none }
  | _, none => Comp.raise ⟨.attribute, "'NoneType' object has no attribute 'query_max_xbn'"⟩

/-- An exception ends the task. -/
def advance (cfg : RelayerConfig) (dst : Connector) (link : Link) (time put : PyFloat)
    (tags : XtxTags κ τ) (d : DstTool κ) (cs : Int → Chain τ) :
    Option (DstTool κ × (Int → Chain τ)) :=
  if d.xtxTask.alive then
    match d.xtxTask.dealing with
    | none => none
    | some h =>
        match advanceDealing cfg cfg.inter dst link time put tags d.xtxTask h cs with
        | (.ok t, cs') => some ({ d with xtxTask := t }, cs')
        | (.error _, cs') => some ({ d with
            xtxTask := { d.xtxTask with alive := false, dealing := none } }, cs')
  else none

end Steps

end RelayerUnix

end TorSim
