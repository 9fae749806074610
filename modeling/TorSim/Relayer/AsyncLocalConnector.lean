/-
  TorSim.Relayer.AsyncLocalConnector — a connection to a chain in the same process.

  `AsyncLocalConnector` calls the methods of the chain: no request is lost, an
  exception of the chain arrives as it is, and `send_tx` returns what `put_tx`
  returned.

  Main definitions:
    * `queryBlock`, `queryMaxXbn`, `queryHeaderCsHeight` — the queries of a relayer.
    * `sendTx` — a submission, and whether it was accepted.

  Main results:
    * `queryMaxXbn_run` — **the greatest synchronised height**, the chain unchanged.
-/
import TorSim.Blockchain.LocalChain
import TorSim.Relayer.ConnectorLaws

namespace TorSim

open TorSim.Lib

namespace AsyncLocalConnector

variable {τ : Type}

/-! ## §1. The methods. -/

section Methods

variable [Contracts]

/-- `bc.query_state(to, data)`, in the context of the block in progress. -/
def queryState (cn : Connector) (data : String) : Comp (Blockchain τ) Response := fun c =>
  ((Executor.query c.loop.context (.str cn.to_) (.str data) c.store).1,
    { c with store := (Executor.query c.loop.context (.str cn.to_) (.str data) c.store).2 })

/-- The output of a query of the light client, which must have code `1`. -/
def callLightClient (cn : Connector) (func : String) (args : List Json) :
    Comp (Blockchain τ) Json := do
  let resp ← queryState cn (CtrLightClient.queryText func args)
  Comp.lift (assertE (resp.code == 1) "")
  return resp.out

/-- The greatest height of chain `pid` synchronised at this chain. -/
def queryMaxXbn (cn : Connector) (pid : Int) : Comp (Blockchain τ) Int := do
  let out ← callLightClient cn "query_header_maxn" [.int pid]
  Comp.lift out.toInt

/-- The height of this chain at which the header of chain `pid` and height `height`
was confirmed. -/
def queryHeaderCsHeight (cn : Connector) (pid height : Int) : Comp (Blockchain τ) Int := do
  let out ← callLightClient cn "query_header" [.int pid, .int height]
  let header ← Comp.lift (Json.loadsValue out)
  let cs ← Comp.lift (header.getItem "cs_height")
  Comp.lift cs.toInt

omit [Contracts] in
def queryBlockNumber : Comp (Blockchain τ) Int := Comp.gets (fun c => c.blocks.blockNum)

omit [Contracts] in
def noBlock (bn : Int) : String := "cannot find block(" ++ toString bn ++ ")"

omit [Contracts] in
/-- The block itself, not a copy. -/
def queryBlock (bn : Int) : Comp (Blockchain τ) Block := do
  let c ← Comp.gets id
  let blk ← Comp.lift (c.blocks.getBlockByHeight bn)
  match blk with
  | none => Comp.raise ⟨.runtime, noBlock bn⟩
  | some blk => return blk

omit [Contracts] in
/-- The proof of a transaction is its hash. -/
def queryXtxProof [Sha256] (xtx : Transaction) : Comp (Blockchain τ) String := do
  let h ← Comp.lift xtx.hash
  let proof ← Comp.lift (fromhex (hex h))
  return hex proof

omit [Contracts] in
/-- `send_tx`: `False` when the pool is full. -/
def sendTx (time : PyFloat) (tag : τ) (tx : Transaction) : Comp (Blockchain τ) Bool :=
  Blockchain.putTx time tag tx

end Methods

/-! ## §2. What the queries leave behind. -/

variable [Contracts] [Sha256]

omit [Sha256] in
/-- The light client answers alike in every context. -/
theorem query_context {st : BaseStore} (h : Executor.Installed st) (ctx : Context) (data : Json) :
    Executor.query ctx (.str "lightclient") data st
      = Executor.query {} (.str "lightclient") data st := by
  unfold Executor.query
  rw [Comp.gets_bind_run, Comp.gets_bind_run, id, h, Comp.lift_ok_bind_run,
    Comp.lift_ok_bind_run]
  rfl

/-- A query changes the store at most, and not where the light client is installed. -/
structure Queried (c c' : Blockchain τ) : Prop where
  frame : c' = { c with store := c'.store }
  store : Executor.Installed c.store → c'.store = c.store

omit [Sha256] in
theorem queryState_run {cn : Connector} {func : String} {args : List Json}
    {c c' : Blockchain τ} {r : Except Exn Response} (hto : cn.to_ = "lightclient") (hf : func ≠ "")
    (hargs : ∀ a ∈ args, a.wf = true)
    (h : queryState cn (CtrLightClient.queryText func args) c = (r, c')) :
    Queried c c' ∧ (Executor.Installed c.store → ∀ resp, r = .ok resp → resp.code = 1 →
      ∃ out, CtrLightClient.callQuery c.store func args = .ok out ∧ resp.out = .str out.toStr) := by
  unfold queryState at h
  rw [hto] at h
  have hrun : Executor.Installed c.store →
      (Executor.query c.loop.context (.str "lightclient")
        (.str (CtrLightClient.queryText func args)) c.store).2 = c.store
      ∧ ∀ resp, (Executor.query c.loop.context (.str "lightclient")
        (.str (CtrLightClient.queryText func args)) c.store).1 = .ok resp → resp.code = 1 →
        ∃ out, CtrLightClient.callQuery c.store func args = .ok out
          ∧ resp.out = .str out.toStr := by
    intro hc
    rw [query_context hc]
    rcases hq : Executor.query {} (.str "lightclient")
      (.str (CtrLightClient.queryText func args)) c.store with ⟨r, st⟩
    exact Executor.query_request hc hf hargs hq
  cases h
  exact ⟨⟨rfl, fun hc => (hrun hc).1⟩, fun hc => (hrun hc).2⟩

omit [Sha256] in
theorem callLightClient_run {cn : Connector} {func : String} {args : List Json}
    {c c' : Blockchain τ} {r : Except Exn Json} (hto : cn.to_ = "lightclient") (hf : func ≠ "")
    (hargs : ∀ a ∈ args, a.wf = true) (h : callLightClient cn func args c = (r, c')) :
    Queried c c' ∧ (Executor.Installed c.store → ∀ v, r = .ok v →
      ∃ out, CtrLightClient.callQuery c.store func args = .ok out ∧ v = .str out.toStr) := by
  unfold callLightClient at h
  rw [Comp.bind_run] at h
  rcases hq : queryState cn (CtrLightClient.queryText func args) c with ⟨r1, c1⟩
  obtain ⟨hframe, hout⟩ := queryState_run hto hf hargs hq
  rw [hq] at h
  cases r1 with
  | error e =>
      cases h
      refine ⟨hframe, fun _ v hv => ?_⟩
      cases hv
  | ok resp =>
      dsimp only at h
      cases hcode : resp.code == 1 with
      | true =>
          rw [hcode] at h
          cases h
          refine ⟨hframe, fun hc v hv => ?_⟩
          cases hv
          exact hout hc resp rfl (by simpa using hcode)
      | false =>
          rw [hcode] at h
          cases h
          refine ⟨hframe, fun _ v hv => ?_⟩
          cases hv

omit [Sha256] in
/-- **The greatest synchronised height**, `0` before the first. -/
theorem queryMaxXbn_run {cn : Connector} {pid : Int} {c c' : Blockchain τ} {r : Except Exn Int}
    (hto : cn.to_ = "lightclient") (h : queryMaxXbn cn pid c = (r, c')) :
    Queried c c' ∧ (Executor.Installed c.store → ∀ n hs, r = .ok n →
      CtrLightClient.HeadersAt c.store pid hs → n = peak 0 hs) := by
  unfold queryMaxXbn at h
  rw [Comp.bind_run] at h
  rcases hcall : callLightClient cn "query_header_maxn" [.int pid] c with ⟨r1, c1⟩
  obtain ⟨hframe, hout⟩ := callLightClient_run hto (by decide) (by simp [Json.wf]) hcall
  rw [hcall] at h
  cases r1 with
  | error e =>
      cases h
      refine ⟨hframe, fun _ n hs hr => ?_⟩
      cases hr
  | ok v =>
      cases h
      refine ⟨hframe, fun hc n hs hr hst => ?_⟩
      obtain ⟨out, hq, rfl⟩ := hout hc v rfl
      cases hq
      have hread : intOfStr _ = .ok n := hr
      rw [Json.toStr_str, hst.counter_read] at hread
      exact (Except.ok.inj hread).symm

omit [Sha256] in
theorem queryHeaderCsHeight_queried {cn : Connector} {pid height : Int} {c c' : Blockchain τ}
    {r : Except Exn Int} (hto : cn.to_ = "lightclient")
    (h : queryHeaderCsHeight cn pid height c = (r, c')) : Queried c c' := by
  unfold queryHeaderCsHeight at h
  rw [Comp.bind_run] at h
  rcases hcall : callLightClient cn "query_header" [.int pid, .int height] c with ⟨r1, c1⟩
  obtain ⟨hframe, _⟩ := callLightClient_run hto (by decide) (by simp [Json.wf]) hcall
  rw [hcall] at h
  cases r1 with
  | error e =>
      cases h
      exact hframe
  | ok v =>
      -- what is read off the answer touches the chain no more
      have hstate : (((Comp.lift (Json.loadsValue v)) >>= fun header =>
          Comp.lift (header.getItem "cs_height") >>= fun cs => Comp.lift cs.toInt)
          : Comp (Blockchain τ) Int) c1 = (r, c') := h
      cases hload : Json.loadsValue v with
      | error e =>
          rw [hload] at hstate
          cases hstate
          exact hframe
      | ok header =>
          rw [hload, Comp.lift_ok_bind_run] at hstate
          cases hitem : header.getItem "cs_height" with
          | error e =>
              rw [hitem] at hstate
              cases hstate
              exact hframe
          | ok cs =>
              rw [hitem] at hstate
              cases hstate
              exact hframe

omit [Contracts] [Sha256] in
/-- A block that is found stands at its place. -/
theorem queryBlock_run {bn : Int} {c c' : Blockchain τ} {r : Except Exn Block}
    (h : queryBlock bn c = (r, c')) :
    c' = c ∧ ∀ b, r = .ok b → c.blocks.getBlockByHeight bn = .ok (some b) := by
  unfold queryBlock at h
  rw [Comp.gets_bind_run, id] at h
  cases hget : c.blocks.getBlockByHeight bn with
  | error e =>
      rw [hget] at h
      cases h
      refine ⟨rfl, fun b hb => ?_⟩
      cases hb
  | ok found =>
      rw [hget, Comp.lift_ok_bind_run] at h
      cases found with
      | none =>
          cases h
          refine ⟨rfl, fun b hb => ?_⟩
          cases hb
      | some b =>
          cases h
          refine ⟨rfl, fun b' hb => ?_⟩
          cases hb
          rfl

end AsyncLocalConnector

end TorSim
