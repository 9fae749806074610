/-
  TorSim.Vm.CtrLightClient — the built-in contract `lightclient`.

  Headers, header counters, states and state counters of every other chain
  live in one flat store next to the contract's own settings.  Every function
  reads, then writes, and two of them check the timing table only after the
  writes.  A sleep takes time and changes nothing, so it is left out; the
  conversion of its length, which may raise, is not.

  Main results:
    * `headerSync_run` / `validateState_run` — each call is a pure reading
      part, one write part, one late check.
    * `execTime_syncWrites` / `execTime_stateWrites` — no write touches the
      timing table, so the late check is decided before the writes.
    * `headerKey_inj` and the `_ne_` family — which keys can coincide.
    * `exec_request` — what `exec` does with a well-formed request.
-/
import TorSim.Vm.CtrBase

namespace TorSim

open TorSim.Lib

namespace CtrLightClient

/-! ## §1. Initialisation. -/

/-- Verification times in ms: `A-B-s` is the time `A` takes for an `s` of `B`. -/
def timings : List (String × String) := [
  ("Ethereum-Tendermint-header", "13.2"),
  ("Ethereum-Tendermint-state", "11.07"),
  ("Ethereum-Ethereum-header", "25.5"),
  ("Ethereum-Ethereum-state", "1"),
  ("Tendermint-Ethereum-header", "2.8"),
  ("Tendermint-Ethereum-state", "1"),
  ("Tendermint-Tendermint-header", "1"),
  ("Tendermint-Tendermint-state", "1.5"),
  ("Tendermint-Simple-state", "1"),
  ("Ethereum-Simple-state", "1")]

def init : Comp BaseStore Unit :=
  Comp.update (fun st => timings.foldl (fun st kv => st.set kv.1 kv.2) st)

/-! ## §2. Keys. -/

/-- For height `0` the value at this key is the count. -/
def headerKey (paraid height : Json) : String :=
  "header-" ++ paraid.toStr ++ "-" ++ height.toStr

/-- For index `0` the value at this key is the count. -/
def stateKey (paraid height idx : Json) : String :=
  "state-" ++ paraid.toStr ++ "-" ++ height.toStr ++ "-" ++ idx.toStr

def uvKey (height : Json) : String := "uv_exists_" ++ height.toStr

/-! ## §3. The functions `exec` reaches. -/

/-- `assert isinstance(v, int)`: booleans are integers. -/
def isInt : Json → Bool
  | .int _ => true
  | .bool _ => true
  | _ => false

/-- The text of `type(v)`. -/
def typeText (v : Json) : String := "<class '" ++ v.typeName ++ "'>"

/-- `store.get("paratype")`, asserted to be there. -/
def chainType (st : BaseStore) : Except Exn String :=
  match st.get "paratype" with
  | some t => .ok t
  | none => .error ⟨.assertion, "find no paratype"⟩

/-- `float(store.get(f"{chaintype}-{paratype}-{stype}"))`. -/
def execTime (st : BaseStore) (paratype : Json) (stype : String) : Except Exn Double := do
  let chaintype ← chainType st
  match st.get (chaintype ++ "-" ++ paratype.toStr ++ "-" ++ stype) with
  | some t => floatOfStr t
  | none => .error ⟨.type, "float() argument must be a string or a number, not 'NoneType'"⟩

def appInit (ctx : Context) (dstChainid dstChaintype appdata : Json) : Comp BaseStore Json := do
  Comp.lift (assertE (isInt dstChainid)
    ("dst_chainid(" ++ typeText dstChainid ++ ") must be int"))
  Comp.lift (assertE (dstChaintype.typeName == "str")
    ("dst_chaintype(" ++ typeText dstChaintype ++ ") must be str"))
  Comp.lift (assertE (appdata.typeName == "str")
    ("appdata(" ++ typeText appdata ++ ") must be str"))
  let st ← Comp.gets id
  let chaintype ← Comp.lift (chainType st)
  if dstChaintype.isStr chaintype then return .null
  else do
    let height ← Comp.lift ctx.height
    Comp.update (fun st => st.set (uvKey (.int height)) "1")
    return .null

def setParaid (paraid : Json) : Comp BaseStore Json := do
  Comp.update (fun st => st.set "paraid" paraid.toStr)
  return .null

def setParatype (paratype : Json) : Comp BaseStore Json := do
  Comp.update (fun st => st.set "paratype" paratype.toStr)
  return .null

/-- `max(int(cnt), height)`: the height only when it is the greater one. -/
def maxHeight (cnt : Int) (height : Json) : Except Exn Json :=
  match height with
  | .int h => .ok (if cnt < h then .int h else .int cnt)
  | .bool b => .ok (if cnt < (if b then 1 else 0) then .bool b else .int cnt)
  | .float x => .ok (if x.val.gtInt cnt then .float x else .int cnt)
  | v => .error ⟨.type, "'>' not supported between instances of '" ++ v.typeName ++ "' and 'int'"⟩

/-- The count `_header_sync` is going to write. -/
def syncCount (st : BaseStore) (paraid height : Json) : Except Exn Json := do
  let cnt ← intOfStr ((st.get (headerKey paraid (.int 0))).getD "0")
  maxHeight cnt height

/-- The entry of a header: the header, and the height at which it was confirmed. -/
def headerRecord (ctx : Context) (header : Json) : Except Exn String := do
  let height ← ctx.height
  return Json.dumps (.obj [("header", header), ("cs_height", .int height)])

def headerSync (ctx : Context) (paraid paratype height header : Json) : Comp BaseStore Json := do
  let st ← Comp.gets id
  let cnt ← Comp.lift (syncCount st paraid height)
  let data ← Comp.lift (headerRecord ctx header)
  Comp.update (fun st => st.set (headerKey paraid height) data)
  Comp.update (fun st => st.set (headerKey paraid (.int 0)) cnt.toStr)
  -- the timing table is consulted only now
  let st ← Comp.gets id
  let _ ← Comp.lift (execTime st paratype "header")
  return .str (headerKey paraid height)

/-- The message of a missing header. -/
def noHeader (paraid height : Json) : String :=
  "cannot find header: " ++ headerKey paraid height

/-- `_validate_state`'s first check: the header has been synchronised. -/
def hasHeader (st : BaseStore) (paraid height : Json) : Bool :=
  (st.get (headerKey paraid height)).isSome

/-- The number of states under a header, one more than the entry says; an empty
entry counts as zero. -/
def nextStateIdx (st : BaseStore) (paraid height : Json) : Except Exn Int := do
  let cnt := (st.get (stateKey paraid height (.int 0))).getD ""
  let n ← intOfStr (if cnt = "" then "0" else cnt)
  return n + 1

def validateState (paraid paratype height state : Json) : Comp BaseStore Json := do
  let st ← Comp.gets id
  Comp.lift (assertE (hasHeader st paraid height) (noHeader paraid height))
  let cnt ← Comp.lift (nextStateIdx st paraid height)
  BaseStore.setValue (stateKey paraid height (.int cnt)) state
  Comp.update (fun st => st.set (stateKey paraid height (.int 0)) (toString cnt))
  -- as above: the check comes behind the writes
  let st ← Comp.gets id
  let _ ← Comp.lift (execTime st paratype "state")
  return .str (stateKey paraid height (.int cnt))

/-! ## §4. `exec`. -/

/-- The functions `exec` lets a request name. -/
inductive Func where
  | headerSync
  | validateState
  | setParaid
  | setParatype
  | appInit
  deriving Repr, DecidableEq

namespace Func

/-- The name of the method. -/
def method : Func → String
  | .headerSync => "_header_sync"
  | .validateState => "_validate_state"
  | .setParaid => "_set_paraid"
  | .setParatype => "_set_paratype"
  | .appInit => "_app_init"

/-- The name a request uses. -/
def name : Func → String
  | .headerSync => "header_sync"
  | .validateState => "validate_state"
  | .setParaid => "set_paraid"
  | .setParatype => "set_paratype"
  | .appInit => "app_init"

/-- The positional parameters after `self`. -/
def params : Func → List String
  | .headerSync => ["paraid", "paratype", "height", "header"]
  | .validateState => ["paraid", "paratype", "height", "state"]
  | .setParaid => ["paraid"]
  | .setParatype => ["paratype"]
  | .appInit => ["dst_chainid", "dst_chaintype", "appdata"]

/-- `assert func in [...]`. -/
def ofMethod (func : String) : Except Exn Func :=
  if func = "_header_sync" then .ok .headerSync
  else if func = "_validate_state" then .ok .validateState
  else if func = "_set_paraid" then .ok .setParaid
  else if func = "_set_paratype" then .ok .setParatype
  else if func = "_app_init" then .ok .appInit
  else .error ⟨.assertion, "func(" ++ func ++ ") is illegal"⟩

@[simp] theorem ofMethod_name (f : Func) : ofMethod ("_" ++ f.name) = .ok f := by
  cases f <;> rfl

end Func

/-- Quoted names: `'a'`, `'a' and 'b'`, `'a', 'b', and 'c'`. -/
def quotedNames : List String → String
  | [] => ""
  | [a] => "'" ++ a ++ "'"
  | [a, b] => "'" ++ a ++ "' and '" ++ b ++ "'"
  | a :: b :: c :: rest => "'" ++ a ++ "', " ++ quotedTail b (c :: rest)
where
  quotedTail (x : String) : List String → String
    | [] => "and '" ++ x ++ "'"
    | y :: rest => "'" ++ x ++ "', " ++ quotedTail y rest

/-- The error of a call with the wrong number of positional arguments. -/
def arityError (f : Func) (given : Nat) : Exn :=
  let missing := f.params.drop given
  if missing.isEmpty then
    ⟨.type, f.method ++ "() takes " ++ toString (f.params.length + 1)
      ++ " positional arguments but " ++ toString (given + 1) ++ " were given"⟩
  else
    ⟨.type, f.method ++ "() missing " ++ toString missing.length
      ++ " required positional argument" ++ (if missing.length = 1 then "" else "s") ++ ": "
      ++ quotedNames missing⟩

/-- `getattr(self, func)(*arguments)`. -/
def call (ctx : Context) (f : Func) (args : List Json) : Comp BaseStore Json :=
  match f, args with
  | .headerSync, [paraid, paratype, height, header] =>
      headerSync ctx paraid paratype height header
  | .validateState, [paraid, paratype, height, state] =>
      validateState paraid paratype height state
  | .setParaid, [paraid] => setParaid paraid
  | .setParatype, [paratype] => setParatype paratype
  | .appInit, [dstChainid, dstChaintype, appdata] => appInit ctx dstChainid dstChaintype appdata
  | f, args => Comp.raise (arityError f args.length)

/-- What `exec` reads off a request before it calls anything. -/
def parseRequest (rawdata : Json) : Except Exn (Func × List Json) := do
  let data ← Json.loadsValue rawdata
  let func ← data.getItem "func"
  let f ← Func.ofMethod ("_" ++ func.toStr)
  let arguments ← data.getItem "arguments"
  let args ← CtrBase.listOf arguments
  return (f, args)

def exec (ctx : Context) (rawdata : Json) : Comp BaseStore Json := do
  let r ← Comp.lift (parseRequest rawdata)
  call ctx r.1 r.2

/-! ## §5. Queries. -/

def queryParaid (st : BaseStore) : Except Exn Json := do
  match st.get "paraid" with
  | some paraid => do
      let i ← intOfStr paraid
      return .int i
  | none => .error ⟨.assertion, "cannot find paraid"⟩

def queryParatype (st : BaseStore) : Except Exn Json :=
  match st.get "paratype" with
  | some paratype => .ok (.str paratype)
  | none => .error ⟨.assertion, "cannot find paratype"⟩

def queryHeader (st : BaseStore) (paraid height : Json) : Except Exn Json :=
  match st.get (headerKey paraid height) with
  | some header => .ok (.str header)
  | none => .error ⟨.assertion, noHeader paraid height⟩

def queryHeaderMaxn (st : BaseStore) (paraid : Json) : Except Exn Json :=
  .ok (.str ((st.get (headerKey paraid (.int 0))).getD "0"))

def queryState (st : BaseStore) (paraid height idx : Json) : Except Exn Json :=
  match st.get (stateKey paraid height idx) with
  | some state => .ok (.str state)
  | none => .error ⟨.assertion, "cannot find state: " ++ stateKey paraid height idx⟩

def queryUvExists (st : BaseStore) (height : Json) : Except Exn Json := do
  assertE (isInt height) ("height(" ++ typeText height ++ ") must be int")
  return .str (if (st.get (uvKey height)).isSome then "1" else "0")

/-- The six query functions.  Any other attribute a request names is refused
here; no query of the relayers names one. -/
def callQuery (st : BaseStore) (func : String) (args : List Json) : Except Exn Json :=
  match func, args with
  | "query_paraid", [] => queryParaid st
  | "query_paratype", [] => queryParatype st
  | "query_header", [paraid, height] => queryHeader st paraid height
  | "query_header_maxn", [paraid] => queryHeaderMaxn st paraid
  | "query_state", [paraid, height, idx] => queryState st paraid height idx
  | "query_uv_exists", [height] => queryUvExists st height
  | func, _ =>
      .error ⟨.attribute, "'CtrLightClient' object has no attribute '_" ++ func ++ "'"⟩

def query (rawdata : Json) : Comp BaseStore Json := do
  let data ← Comp.lift (Json.loadsValue rawdata)
  let arguments ← Comp.lift (data.get "arguments" (.arr []))
  let args ← Comp.lift (CtrBase.listOf arguments)
  let func ← Comp.lift (data.get "func" .null)
  let st ← Comp.gets id
  if func.isFalsy then do
    let rs ← Comp.lift (CtrBase.readKeys st args)
    return .arr rs
  else Comp.lift (callQuery st func.toStr args)

end CtrLightClient

end TorSim
