/-
  TorSim.Vm.SyncedHeaders — a light client at work under its name.

  As long as the code under `lightclient` is the light client's, every request
  is answered, queries change nothing, and the header entries of a chain are
  those of the `header_sync` calls executed for it, with the greatest height in
  the counter.

  Main definitions:
    * `Installed` — the contract answers under its name.
    * `HeadersAt` — the entries of one chain, as a list of heights.

  Main results:
    * `executeTx_request` — **a well-formed request is answered**.
    * `HeadersAt.sync` / `sync_other` — one more header.
    * `query_request` — **a query of the light client changes nothing**.
    * `startStore_noHeader` — a started store has no header.
-/
import TorSim.Vm.Executor
import TorSim.Lib.Ladder

namespace TorSim

open TorSim.Lib

namespace CtrLightClient

/-! ## §1. The header entries of one chain. -/

/-- `int(json.loads(text)["cs_height"])`. -/
def csHeight (text : String) : Except Exn Int := do
  let header ← Json.loads text
  let cs ← header.getItem "cs_height"
  cs.toInt

/-- The header entries of chain `p` are those of the heights `hs`. -/
structure HeadersAt (st : BaseStore) (p : Int) (hs : List Int) : Prop where
  nonneg : ∀ h ∈ hs, 0 ≤ h
  counter : st.get (headerKey (.int p) (.int 0))
    = if hs = [] then none else some (toString (peak 0 hs))
  entries : ∀ h : Int, 0 < h → (hasHeader st (.int p) (.int h) = true ↔ h ∈ hs)
  records : ∀ h : Int, 0 < h → ∀ text, st.get (headerKey (.int p) (.int h)) = some text →
    ∃ n, 1 ≤ n ∧ csHeight text = .ok n

/-- Two stores have the same header entries of chain `p`. -/
def SameHeaders (p : Int) (st st' : BaseStore) : Prop :=
  ∀ h : Int, 0 ≤ h → st'.get (headerKey (.int p) (.int h)) = st.get (headerKey (.int p) (.int h))

theorem headersAt_nil {st : BaseStore} {p : Int}
    (h : ∀ k : Int, 0 ≤ k → st.get (headerKey (.int p) (.int k)) = none) : HeadersAt st p [] := by
  refine ⟨by simp, h 0 (by omega), ?_, ?_⟩
  · intro k hk
    rw [hasHeader, h k (by omega)]
    simp
  · intro k hk text htext
    rw [h k (by omega)] at htext
    cases htext

theorem HeadersAt.congr {st st' : BaseStore} {p : Int} {hs : List Int} (h : HeadersAt st p hs)
    (hsame : SameHeaders p st st') : HeadersAt st' p hs := by
  refine ⟨h.nonneg, ?_, ?_, ?_⟩
  · rw [hsame 0 (by omega), h.counter]
  · intro k hk
    rw [hasHeader, hsame k (by omega)]
    exact h.entries k hk
  · intro k hk text htext
    rw [hsame k (by omega)] at htext
    exact h.records k hk text htext

/-- The counter can be read: it is the greatest height, or `0`. -/
theorem HeadersAt.counter_read {st : BaseStore} {p : Int} {hs : List Int} (h : HeadersAt st p hs) :
    intOfStr ((st.get (headerKey (.int p) (.int 0))).getD "0") = .ok (peak 0 hs) := by
  rw [h.counter]
  by_cases hnil : hs = []
  · rw [if_pos hnil, hnil]
    rfl
  · rw [if_neg hnil]
    exact intOfStr_toString _

theorem csHeight_record {header : Json} (hwf : header.wf = true) (n : Int) :
    csHeight (Json.dumps (.obj [("header", header), ("cs_height", .int n)])) = .ok n := by
  have hdoc : (Json.obj [("header", header), ("cs_height", .int n)]).wf = true := by
    rw [Json.wf_obj_iff]
    refine ⟨by simp, ?_⟩
    simp [Json.wf, hwf]
  rw [csHeight, Json.loads_dumps hdoc]
  rfl

/-- **One more header** of the chain itself. -/
theorem HeadersAt.sync {st : BaseStore} {p : Int} {hs : List Int} (hst : HeadersAt st p hs)
    {block : Block} (hblock : 1 ≤ block.height) (t : Json) {h : Int} (hh : 0 ≤ h) {hd : Json}
    (hwf : hd.wf = true) :
    HeadersAt (headerSync ⟨some block⟩ (.int p) t (.int h) hd st).2 p (hs ++ [h]) := by
  rw [headerSync_writes hst.counter_read block t h hd]
  have hne : ∀ {k : Int}, 0 < k →
      headerKey (.int p) (.int k) ≠ headerKey (.int p) (.int 0) := by
    intro k hk heq
    have := ((headerKey_inj (by omega) (by omega)).mp heq).2
    omega
  refine ⟨?_, ?_, ?_, ?_⟩
  · intro k hk
    rcases List.mem_append.mp hk with hk | hk
    · exact hst.nonneg k hk
    · rw [List.mem_singleton.mp hk]
      exact hh
  · rw [BaseStore.get_set_self, if_neg (by simp), peak_snoc]
  · intro k hk
    rw [hasHeader, BaseStore.get_set_ne (hne hk), List.mem_append, List.mem_singleton]
    by_cases hkh : k = h
    · subst hkh
      rw [BaseStore.get_set_self]
      simp
    · have hkne : headerKey (.int p) (.int k) ≠ headerKey (.int p) (.int h) := by
        rw [Ne, headerKey_inj (by omega) hh]
        exact fun heq => hkh heq.2
      rw [BaseStore.get_set_ne hkne, ← hasHeader, hst.entries k hk]
      simp [hkh]
  · intro k hk text htext
    rw [BaseStore.get_set_ne (hne hk)] at htext
    by_cases hkh : k = h
    · subst hkh
      rw [BaseStore.get_set_self] at htext
      cases htext
      exact ⟨block.height, hblock, csHeight_record hwf _⟩
    · have hkne : headerKey (.int p) (.int k) ≠ headerKey (.int p) (.int h) := by
        rw [Ne, headerKey_inj (by omega) hh]
        exact fun heq => hkh heq.2
      rw [BaseStore.get_set_ne hkne] at htext
      exact hst.records k hk text htext

/-- A header of another chain changes nothing here. -/
theorem sync_other {p p' : Int} (hp : p ≠ p') (ctx : Context) (t : Json) {h : Int} (hh : 0 ≤ h)
    (hd : Json) (st : BaseStore) :
    SameHeaders p st (headerSync ctx (.int p') t (.int h) hd st).2 := by
  intro k hk
  have hne : ∀ {j : Int}, 0 ≤ j → headerKey (.int p) (.int k) ≠ headerKey (.int p') (.int j) := by
    intro j hj heq
    exact hp ((headerKey_inj hk hj).mp heq).1
  rcases headerSync_state ctx (.int p') t (.int h) hd st with hs | hs
  · rw [hs]
  · obtain ⟨cnt, data, _, _, heq⟩ := syncWrites_eq_ok hs
    rw [heq, BaseStore.get_set_ne (hne (by omega)), BaseStore.get_set_ne (hne hh)]

end CtrLightClient

/-! ## §2. Queries. -/

namespace CtrLightClient

/-- The document of a query: the function's name and its arguments. -/
def queryText (func : String) (args : List Json) : String :=
  Json.dumps (.obj [("func", .str func), ("arguments", .arr args)])

/-- **A well-formed query is the function it names.** -/
theorem query_run {func : String} (hf : func ≠ "") {args : List Json}
    (hargs : ∀ a ∈ args, a.wf = true) (st : BaseStore) :
    query (.str (queryText func args)) st = (callQuery st func args, st) := by
  have hwf : (Json.obj [("func", .str func), ("arguments", .arr args)]).wf = true := by
    rw [Json.wf_obj_iff]
    refine ⟨by simp, ?_⟩
    simp [Json.wf, (Json.wfList_iff args).mpr hargs]
  have hload : Json.loadsValue (.str (queryText func args))
      = .ok (.obj [("func", .str func), ("arguments", .arr args)]) := Json.loads_dumps hwf
  unfold query
  rw [hload]
  simp [Json.get, List.lookup_cons, CtrBase.listOf, Json.isFalsy, hf]

end CtrLightClient

/-! ## §3. The contract under its name. -/

namespace Executor

open CtrLightClient

variable [Contracts] [Sha256]

/-- The light client answers under `lightclient`. -/
def Installed (st : BaseStore) : Prop := contractAt st (.str "lightclient") = .ok .lightClient

omit [Sha256] in
theorem Installed.congr {st st' : BaseStore} (h : Installed st)
    (hget : st'.get "lightclient" = st.get "lightclient") : Installed st' := by
  have hsame : contractAt st' (.str "lightclient") = contractAt st (.str "lightclient") := by
    simp only [contractAt, BaseStore.getValue, hget]
  exact hsame.trans h

omit [Sha256] in
/-- Every call of the light client leaves it installed. -/
theorem Installed.call {st : BaseStore} (h : Installed st) (ctx : Context) (f : Func)
    (args : List Json) : Installed (call ctx f args st).2 :=
  h.congr (call_keeps (by decide) (by decide) (by decide) (by decide) ctx f args st)

/-- **A well-formed request is answered**: the store is the call's, the code `1`
with its result, or `0` with the text of its exception. -/
theorem executeTx_request {st : BaseStore} (h : Installed st) {f : Func} {args : List Json}
    (hargs : ∀ a ∈ args, a.wf = true) (ctx : Context) (height idx : Int) {tx : Transaction}
    (hto : tx.to_ = .str "lightclient") (hdata : tx.data = .str (request f args)) :
    executeTx ctx height idx tx st
      = (.ok (match (call ctx f args st).1 with
          | .ok out => Response.new 1 out
          | .error e => Response.new 0 (.str e.msg)), (call ctx f args st).2) := by
  have hdep : isDeploy tx.to_ = false := by
    rw [hto]
    rfl
  unfold executeTx
  rw [hdep]
  show execute ctx tx.to_ tx.data st = _
  rw [execute_eq, hto, h, hdata]
  dsimp only
  have hrun : runExec ctx (.str (request f args)) (CodeMeta.lightClient : CodeMeta Contracts.Obj)
      = call ctx f args := exec_request hargs ctx f
  rw [hrun]
  rcases hx : call ctx f args st with ⟨e | out, st'⟩
  · have hcaught := caught_call ctx f args st
    rw [hx] at hcaught
    exact Comp.attempt_caught (Comp.bind_of_error hx) (hcaught e rfl)
  · exact Comp.attempt_ok (Comp.bind_of_ok hx)

omit [Sha256] in
/-- **A query of the light client is answered and changes nothing.** -/
theorem query_request {st : BaseStore} (h : Installed st) {func : String} (hf : func ≠ "")
    {args : List Json} (hargs : ∀ a ∈ args, a.wf = true) {r : Except Exn Response}
    {st' : BaseStore}
    (hrun : query {} (.str "lightclient") (.str (queryText func args)) st = (r, st')) :
    st' = st ∧ ∀ resp, r = .ok resp → resp.code = 1 →
      ∃ out, callQuery st func args = .ok out ∧ resp.out = .str out.toStr := by
  unfold query at hrun
  rw [Comp.gets_bind_run, id, h, Comp.lift_ok_bind_run] at hrun
  have hbody : (do
      let out ← runQuery {} (.str (queryText func args)) (CodeMeta.lightClient : CodeMeta Contracts.Obj)
      return Response.new 1 (.str out.toStr) : Comp BaseStore Response) st
      = ((callQuery st func args).map (fun out => ⟨1, .str out.toStr⟩), st) := by
    show (CtrLightClient.query _ >>= fun out => pure (Response.new 1 (.str out.toStr))) st = _
    rw [Comp.bind_run, query_run hf hargs]
    cases callQuery st func args <;> rfl
  rw [Comp.attempt, hbody] at hrun
  cases hq : callQuery st func args with
  | error e =>
      rw [hq] at hrun
      dsimp only [Except.map] at hrun
      split at hrun
      next =>
          cases hrun
          refine ⟨rfl, fun resp hresp hcode => ?_⟩
          cases hresp
          simp at hcode
      next =>
          cases hrun
          exact ⟨rfl, fun resp hresp => by cases hresp⟩
  | ok out =>
      rw [hq] at hrun
      cases hrun
      refine ⟨rfl, fun resp hresp _ => ?_⟩
      cases hresp
      exact ⟨out, rfl, rfl⟩

/-! ## §4. A started store. -/

omit [Contracts] [Sha256] in
theorem startStore_installed : @Installed Contracts.plain startStore := by
  show @contractAt Contracts.plain startStore _ = _
  rfl

omit [Contracts] [Sha256] in
/-- No key of a started store is the key of a header. -/
theorem startStore_noHeader (p k : Json) : startStore.get (headerKey p k) = none := by
  have hstore : startStore = (timings.foldl (fun st kv => st.set kv.1 kv.2)
      (BaseStore.empty.set "base" (hex [0]))).set "lightclient" (hex [1]) := rfl
  have hne : ∀ {key : String}, key.toList.head? ≠ some 'h' → headerKey p k ≠ key :=
    fun h => (headerKey_ne h p k).symm
  rw [hstore, BaseStore.get_set_ne (hne (by decide))]
  simp only [timings, List.foldl_cons, List.foldl_nil]
  repeat rw [BaseStore.get_set_ne (hne (by decide))]
  rfl

end Executor

end TorSim
