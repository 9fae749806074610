/-
  TorSim.Relayer.Connector — a relayer's connection to one chain.

  The connector formats requests and reads answers.  The transport below it is
  not part of the program: it delivers a request and its answer, or loses one
  of the two, and never delivers a request twice.

  Main definitions:
    * `Link`, `request` — one request over the transport.
    * `queryBlock`, `queryXtxProof`, `queryMaxXbn`, `queryHeaderCsHeight` — the
      queries of a relayer.
    * `buildTx`, `sendTx` — the transactions a relayer sends.
-/
import TorSim.Service.Handlers
import TorSim.Vm.SyncedHeaders

namespace TorSim

open TorSim.Lib

/-- `ConnectorUnix` once it has asked the chain for its id and type. -/
structure Connector where
  pid : Int
  paratype : String
  sender : String := "default"
  to_ : String := "lightclient"
  isinter : Bool := false

/-- What the transport does with one request. -/
inductive Link where
  | delivered
  | lost (e : Exn)
  | unanswered (e : Exn)

/-- One request: lost, or handled and answered, or handled and its answer lost. -/
def request {σ α : Type} (link : Link) (x : Comp σ α) : Comp σ α := fun s =>
  match link with
  | .delivered => Handlers.answer x s
  | .lost e => (.error e, s)
  | .unanswered e => (.error e, (x s).2)

namespace Connector

variable {τ : Type} [Contracts] [Sha256]

/-! ## §1. Queries. -/

def queryBlockNumber (link : Link) : Comp (Chain τ) Int :=
  request link Handlers.queryBlockNumber

omit [Contracts] in
def queryBlock (link : Link) (bn : Int) : Comp (Chain τ) Block := do
  let msg ← request link (Handlers.queryBlock bn)
  Comp.lift (Block.fromStr msg)

omit [Contracts] in
def queryXtxProof (link : Link) (xtx : Transaction) : Comp (Chain τ) String := do
  let h ← Comp.lift xtx.hash
  request link (Handlers.queryTxProof (hex h))

omit [Sha256] in
/-- The output of a query of the light client, which must have code `1`. -/
def callLightClient (cn : Connector) (link : Link) (func : String) (args : List Json)
    (failure : String) : Comp (Chain τ) Json := do
  let resp ← request link
    (Handlers.callCtr (.str cn.to_) (.str (CtrLightClient.queryText func args)))
  Comp.lift (assertE (resp.code == 1) (failure
    ++ Json.dumps (.obj [("code", .int resp.code), ("out", resp.out)])))
  return resp.out

omit [Sha256] in
/-- The greatest height of chain `pid` synchronised at this chain. -/
def queryMaxXbn (cn : Connector) (link : Link) (pid : Int) : Comp (Chain τ) Int := do
  let out ← callLightClient cn link "query_header_maxn" [.int pid] "execute failed! response: "
  Comp.lift out.toInt

omit [Sha256] in
/-- The height of this chain at which the header of chain `pid` and height `height`
was confirmed. -/
def queryHeaderCsHeight (cn : Connector) (link : Link) (pid height : Int) :
    Comp (Chain τ) Int := do
  let out ← callLightClient cn link "query_header" [.int pid, .int height]
    "query failed! response: "
  let header ← Comp.lift (Json.loadsValue out)
  let cs ← Comp.lift (header.getItem "cs_height")
  Comp.lift cs.toInt

/-! ## §2. Transactions. -/

def buildTx (cn : Connector) (data : String) (memo : Json) : Transaction where
  sender := .str cn.sender
  to_ := .str cn.to_
  data := .str data
  memo := memo

omit [Contracts] in
/-- `send_tx`: the hash of the accepted transaction. -/
def sendTx (link : Link) (time : PyFloat) (tag : τ) (tx : Transaction) :
    Comp (Chain τ) String := do
  let info ← Comp.lift tx.asJson
  request link (Handlers.sendTx time tag info)

end Connector

end TorSim
