/-
  TorSim.Relayer.ConnectorLaws — what a relayer's requests do to a chain.

  Main results:
    * `sendTx_run` — **a sending is a submission or nothing**, and an answered one
      was accepted.
    * `queryMaxXbn_run` / `queryHeaderCsHeight_run` — a query of the installed
      light client changes nothing and reads the header entries.
    * `queryBlock_run` — a fetched block is a stored one.
-/
import TorSim.Relayer.Connector
import TorSim.Blockchain.ChainLaws

namespace TorSim

open TorSim.Lib

variable {τ : Type}

/-- A request is handled or not, and an answer is the handler's. -/
theorem request_run {σ α : Type} {link : Link} {x : Comp σ α} {s s' : σ} {r : Except Exn α}
    (h : request link x s = (r, s')) :
    (s' = s ∨ s' = (x s).2) ∧ ∀ a, r = .ok a → x s = (.ok a, s') := by
  unfold request at h
  cases link with
  | delivered =>
      dsimp only at h
      unfold Handlers.answer at h
      rcases hx : x s with ⟨e | a, t⟩
      · rw [hx] at h
        cases h
        exact ⟨Or.inr rfl, fun a ha => nomatch ha⟩
      · rw [hx] at h
        cases h
        refine ⟨Or.inr rfl, fun b hb => ?_⟩
        cases hb
        rfl
  | lost e =>
      cases h
      exact ⟨Or.inl rfl, fun a ha => nomatch ha⟩
  | unanswered e =>
      cases h
      exact ⟨Or.inr rfl, fun a ha => nomatch ha⟩

namespace Connector

variable [Contracts] [Sha256]

/-! ## §1. Sending. -/

/-- What arrives of a transaction. -/
def arrived (tx : Transaction) : Transaction := { tx with status := .pending }

omit [Contracts] in
/-- **A sending is a submission or nothing**; an answered one was accepted. -/
theorem sendTx_run {link : Link} {time : PyFloat} {tag : τ} {tx : Transaction} {c c' : Chain τ}
    {r : Except Exn String} (h : sendTx link time tag tx c = (r, c')) :
    (c' = c ∨ c' = c.submit time tag (arrived tx))
      ∧ ∀ hash, r = .ok hash → c' = c.submit time tag (arrived tx)
          ∧ (c.pool.putTx time tag (arrived tx)).1 = .ok true := by
  unfold sendTx at h
  cases hj : tx.asJson with
  | error e =>
      rw [hj] at h
      cases h
      exact ⟨Or.inl rfl, fun a ha => nomatch ha⟩
  | ok info =>
      rw [hj, Comp.lift_ok_bind_run] at h
      have hrun := Handlers.sendTx_decoded (Transaction.fromJson_asJson_given hj .pending) time tag c
      obtain ⟨hstate, hok⟩ := request_run h
      rw [hrun] at hstate
      refine ⟨hstate, fun hash hr => ?_⟩
      have hanswer := hok hash hr
      rw [hrun] at hanswer
      obtain ⟨hres, hst⟩ := Prod.mk.inj hanswer
      obtain ⟨accepted, hput, hres⟩ := except_bind_ok hres
      refine ⟨hst.symm, ?_⟩
      cases accepted with
      | true => exact hput
      | false => cases hres

/-! ## §2. Queries of the light client. -/

/-- What a query leaves behind: the contract it ran had the chain's own store, but
the light client writes nothing into it. -/
structure Queried (c c' : Chain τ) : Prop where
  frame : c' = { c with store := c'.store }
  store : Executor.Installed c.store → c'.store = c.store

omit [Sha256] in
theorem Queried.refl (c : Chain τ) : Queried c c := ⟨rfl, fun _ => rfl⟩

omit [Sha256] in
/-- **A query of the installed light client changes nothing**, and its answer is
the query function's. -/
theorem callLightClient_run {cn : Connector} {link : Link} {func : String} {args : List Json}
    {failure : String} {c c' : Chain τ} {r : Except Exn Json} (hto : cn.to_ = "lightclient")
    (hc : Executor.Installed c.store) (hf : func ≠ "") (hargs : ∀ a ∈ args, a.wf = true)
    (h : callLightClient cn link func args failure c = (r, c')) :
    c' = c ∧ ∀ v, r = .ok v →
      ∃ out, CtrLightClient.callQuery c.store func args = .ok out ∧ v = .str out.toStr := by
  have hcall : ∀ (r1 : Except Exn Response) (c1 : Chain τ),
      Handlers.callCtr (.str cn.to_) (.str (CtrLightClient.queryText func args)) c = (r1, c1) →
      c1 = c ∧ ∀ resp, r1 = .ok resp → resp.code = 1 →
        ∃ out, CtrLightClient.callQuery c.store func args = .ok out ∧ resp.out = .str out.toStr := by
    intro r1 c1 h1
    rw [hto] at h1
    rcases hq : Executor.query {} (.str "lightclient")
      (.str (CtrLightClient.queryText func args)) c.store with ⟨r2, st⟩
    obtain ⟨rfl, hres⟩ := Executor.query_request hc hf hargs hq
    have hzoom : Handlers.callCtr (.str "lightclient")
        (.str (CtrLightClient.queryText func args)) c = (r2, c) := by
      show ((Executor.query {} _ _ c.store).1, _) = _
      rw [hq]
    rw [hzoom] at h1
    cases h1
    exact ⟨rfl, hres⟩
  unfold callLightClient at h
  rw [Comp.bind_run] at h
  rcases hreq : request link (Handlers.callCtr (.str cn.to_)
    (.str (CtrLightClient.queryText func args))) c with ⟨r1, c1⟩
  obtain ⟨hstate, hok⟩ := request_run hreq
  have hc1 : c1 = c := by
    rcases hstate with hs | hs
    · exact hs
    · exact hs.trans (hcall _ _ rfl).1
  subst hc1
  rw [hreq] at h
  cases r1 with
  | error e =>
      cases h
      exact ⟨rfl, fun v hv => nomatch hv⟩
  | ok resp =>
      dsimp only at h
      by_cases hcode : resp.code = 1
      · rw [show (resp.code == 1) = true by simpa using hcode] at h
        cases h
        refine ⟨rfl, fun v hv => ?_⟩
        cases hv
        exact (hcall _ _ (hok resp rfl)).2 resp rfl hcode
      · rw [show (resp.code == 1) = false by simpa using hcode] at h
        cases h
        exact ⟨rfl, fun v hv => nomatch hv⟩

omit [Sha256] in
theorem callLightClient_queried {cn : Connector} {link : Link} {func : String}
    {args : List Json} {failure : String} {c c' : Chain τ} {r : Except Exn Json}
    (hto : cn.to_ = "lightclient") (hf : func ≠ "") (hargs : ∀ a ∈ args, a.wf = true)
    (h : callLightClient cn link func args failure c = (r, c')) : Queried c c' := by
  refine ⟨?_, fun hc => by rw [(callLightClient_run hto hc hf hargs h).1]⟩
  unfold callLightClient at h
  rw [Comp.bind_run] at h
  rcases hreq : request link (Handlers.callCtr (.str cn.to_)
    (.str (CtrLightClient.queryText func args))) c with ⟨r1, c1⟩
  obtain ⟨hstate, _⟩ := request_run hreq
  have hframe : c1 = { c with store := c1.store } := by
    rcases hstate with rfl | rfl <;> rfl
  rw [hreq] at h
  cases r1 with
  | error e =>
      cases h
      exact hframe
  | ok resp =>
      dsimp only at h
      cases hcode : resp.code == 1 with
      | true =>
          rw [hcode] at h
          cases h
          exact hframe
      | false =>
          rw [hcode] at h
          cases h
          exact hframe

omit [Sha256] in
theorem queryMaxXbn_queried {cn : Connector} {link : Link} {pid : Int} {c c' : Chain τ}
    {r : Except Exn Int} (hto : cn.to_ = "lightclient")
    (h : queryMaxXbn cn link pid c = (r, c')) : Queried c c' := by
  unfold queryMaxXbn at h
  rw [Comp.bind_run] at h
  rcases hcall : callLightClient cn link "query_header_maxn" [.int pid]
    "execute failed! response: " c with ⟨r1, c1⟩
  have hq := callLightClient_queried hto (by decide) (by simp [Json.wf]) hcall
  rw [hcall] at h
  cases r1 <;> cases h <;> exact hq

omit [Sha256] in
/-- The greatest height, `0` before the first. -/
theorem queryMaxXbn_run {cn : Connector} {link : Link} {pid : Int} {c c' : Chain τ}
    {r : Except Exn Int} (hto : cn.to_ = "lightclient") (hc : Executor.Installed c.store)
    (h : queryMaxXbn cn link pid c = (r, c')) :
    c' = c ∧ ∀ n hs, r = .ok n → CtrLightClient.HeadersAt c.store pid hs → n = peak 0 hs := by
  unfold queryMaxXbn at h
  rw [Comp.bind_run] at h
  rcases hcall : callLightClient cn link "query_header_maxn" [.int pid]
    "execute failed! response: " c with ⟨r1, c1⟩
  obtain ⟨rfl, hout⟩ := callLightClient_run hto hc (by decide) (by simp [Json.wf]) hcall
  rw [hcall] at h
  cases r1 with
  | error e =>
      cases h
      exact ⟨rfl, fun n hs hr => by cases hr⟩
  | ok v =>
      cases h
      refine ⟨rfl, fun n hs hr hst => ?_⟩
      obtain ⟨out, hq, rfl⟩ := hout v rfl
      cases hq
      have hread : intOfStr _ = .ok n := hr
      rw [Json.toStr_str, hst.counter_read] at hread
      exact (Except.ok.inj hread).symm

omit [Sha256] in
/-- What is read off the answer of `query_header`. -/
theorem queryHeaderCsHeight_eq (cn : Connector) (link : Link) (pid height : Int) (c : Chain τ) :
    queryHeaderCsHeight cn link pid height c
      = (match callLightClient cn link "query_header" [.int pid, .int height]
          "query failed! response: " c with
        | (.ok v, c') => (do
            let header ← Json.loadsValue v
            let cs ← header.getItem "cs_height"
            cs.toInt, c')
        | (.error e, c') => (.error e, c')) := by
  unfold queryHeaderCsHeight
  rw [Comp.bind_run]
  rcases callLightClient cn link "query_header" [.int pid, .int height]
    "query failed! response: " c with ⟨e | v, c1⟩
  · rfl
  · dsimp only
    cases Json.loadsValue v with
    | error e => rfl
    | ok header =>
        rw [Comp.lift_ok_bind_run]
        show _ = (header.getItem "cs_height" >>= Json.toInt, c1)
        cases header.getItem "cs_height" <;> rfl

omit [Sha256] in
theorem queryHeaderCsHeight_queried {cn : Connector} {link : Link} {pid height : Int}
    {c c' : Chain τ} {r : Except Exn Int} (hto : cn.to_ = "lightclient")
    (h : queryHeaderCsHeight cn link pid height c = (r, c')) : Queried c c' := by
  rw [queryHeaderCsHeight_eq] at h
  rcases hcall : callLightClient cn link "query_header" [.int pid, .int height]
    "query failed! response: " c with ⟨r1, c1⟩
  have hq := callLightClient_queried hto (by decide) (by simp [Json.wf]) hcall
  rw [hcall] at h
  cases r1 <;> cases h <;> exact hq

omit [Sha256] in
/-- The height of the confirming block, of a header that is there. -/
theorem queryHeaderCsHeight_run {cn : Connector} {link : Link} {pid height : Int}
    {c c' : Chain τ} {r : Except Exn Int} (hto : cn.to_ = "lightclient")
    (hc : Executor.Installed c.store) (h : queryHeaderCsHeight cn link pid height c = (r, c')) :
    c' = c ∧ ∀ n hs, r = .ok n → 0 < height → CtrLightClient.HeadersAt c.store pid hs → 1 ≤ n := by
  rw [queryHeaderCsHeight_eq] at h
  rcases hcall : callLightClient cn link "query_header" [.int pid, .int height]
    "query failed! response: " c with ⟨r1, c1⟩
  obtain ⟨rfl, hout⟩ := callLightClient_run hto hc (by decide) (by simp [Json.wf]) hcall
  rw [hcall] at h
  cases r1 with
  | error e =>
      cases h
      exact ⟨rfl, fun n hs hr => by cases hr⟩
  | ok v =>
      obtain ⟨hr, rfl⟩ := Prod.mk.inj h
      refine ⟨rfl, fun n hs hn hpos hst => ?_⟩
      obtain ⟨out, hq, rfl⟩ := hout v rfl
      replace hq : CtrLightClient.queryHeader c1.store (.int pid) (.int height) = .ok out := hq
      unfold CtrLightClient.queryHeader at hq
      cases hget : c1.store.get (CtrLightClient.headerKey (.int pid) (.int height)) with
      | none =>
          rw [hget] at hq
          cases hq
      | some text =>
          rw [hget] at hq
          cases hq
          obtain ⟨m, hm, hcs⟩ := hst.records height hpos text hget
          have hsame : CtrLightClient.csHeight text = .ok n := hr.trans hn
          rw [hcs] at hsame
          exact (Except.ok.inj hsame) ▸ hm

/-! ## §3. Blocks. -/

omit [Contracts] in
/-- **A fetched block is a stored one**, and its number is not beyond the last;
fetching changes nothing. -/
theorem queryBlock_run {link : Link} {bn : Int} {c c' : Chain τ} {r : Except Exn Block}
    (h : queryBlock link bn c = (r, c')) :
    c' = c ∧ ∀ b, r = .ok b → ∃ stored text, c.blocks.getBlockByHeight bn = .ok (some stored)
      ∧ stored.asStr = .ok text ∧ Block.fromStr text = .ok b := by
  have hhandler : ∀ (r1 : Except Exn String) (c1 : Chain τ),
      Handlers.queryBlock bn c = (r1, c1) → c1 = c ∧ ∀ text, r1 = .ok text →
        ∃ stored, c.blocks.getBlockByHeight bn = .ok (some stored) ∧ stored.asStr = .ok text := by
    intro r1 c1 h1
    unfold Handlers.queryBlock at h1
    rw [Comp.gets_bind_run, id] at h1
    cases hb : c.blocks.getBlockByHeight bn with
    | error e =>
        rw [hb] at h1
        cases h1
        exact ⟨rfl, fun text ht => nomatch ht⟩
    | ok found =>
        rw [hb, Comp.lift_ok_bind_run] at h1
        cases found with
        | none =>
            cases h1
            exact ⟨rfl, fun text ht => nomatch ht⟩
        | some stored =>
            cases h1
            exact ⟨rfl, fun text ht => ⟨stored, rfl, ht⟩⟩
  unfold queryBlock at h
  rw [Comp.bind_run] at h
  rcases hreq : request link (Handlers.queryBlock bn) c with ⟨r1, c1⟩
  obtain ⟨hstate, hok⟩ := request_run hreq
  have hc1 : c1 = c := by
    rcases hstate with hs | hs
    · exact hs
    · exact hs.trans (hhandler _ _ rfl).1
  subst hc1
  rw [hreq] at h
  cases r1 with
  | error e =>
      cases h
      exact ⟨rfl, fun b hb => nomatch hb⟩
  | ok text =>
      cases h
      refine ⟨rfl, fun b hb => ?_⟩
      obtain ⟨stored, hstored, htext⟩ := (hhandler _ _ (hok text rfl)).2 text rfl
      exact ⟨stored, text, hstored, htext, hb⟩

omit [Contracts] [Sha256] in
theorem queryBlockNumber_run {link : Link} {c c' : Chain τ} {r : Except Exn Int}
    (h : queryBlockNumber link c = (r, c')) :
    c' = c ∧ ∀ n, r = .ok n → n = c.blocks.blockNum := by
  obtain ⟨hstate, hok⟩ := request_run h
  have hc : c' = c := by rcases hstate with hs | hs <;> exact hs
  refine ⟨hc, fun n hn => ?_⟩
  exact (Except.ok.inj (Prod.mk.inj (hok n hn)).1).symm

omit [Contracts] in
/-- Asking for a proof changes nothing. -/
theorem queryXtxProof_run {link : Link} {xtx : Transaction} {c c' : Chain τ}
    {r : Except Exn String} (h : queryXtxProof link xtx c = (r, c')) : c' = c := by
  unfold queryXtxProof at h
  cases hh : xtx.hash with
  | error e =>
      rw [hh] at h
      cases h
      rfl
  | ok bs =>
      rw [hh, Comp.lift_ok_bind_run] at h
      have hproof : (Handlers.queryTxProof (hex bs) c).2 = c := by
        unfold Handlers.queryTxProof
        cases fromhex (hex bs) <;> rfl
      obtain ⟨hs | hs, _⟩ := request_run h
      · exact hs
      · exact hs.trans hproof

end Connector

end TorSim
