/-
  TorSim.Relayer.TaskLaws — inversion of a relayer's steps.

  What one round of each task can do, said once: what it takes from its queue,
  what it asks, what it sends, and how it can end.

  Main results:
    * `fetched_block` — the block a relayer fetches is the committed one, and its
      header tells its height.
    * `listen_cases` / `filterBlock_run` — **a round of `listen_block`**.
    * `dealHeader_cases` — **a round of `deal_header`**.
    * `takeXtx_cases` / `advance_cases` — **a round of `deal_xtx`**, step by step.
-/
import TorSim.Relayer.FilterLaws
import TorSim.Relayer.ConnectorLaws
import TorSim.Blockchain.ChainRuns

namespace TorSim

open TorSim.Lib

variable {κ τ : Type}

namespace RelayerUnix

variable [Contracts] [Sha256]

/-! ## §1. `listen_block`. -/

omit [Contracts] [Sha256] in
/-- What the start does: the latest block becomes the next one, or nothing starts. -/
theorem start_cases {link : Link} {rl rl' : Relayer κ} {c c' : Chain τ}
    (h : start link rl c = (rl', c')) :
    c' = c ∧ (rl' = { rl with listen := .stopped }
      ∨ rl' = { rl with listen := .listening c.blocks.blockNum, startbn := c.blocks.blockNum }) := by
  unfold start at h
  rcases hq : Connector.queryBlockNumber link c with ⟨e | n, c1⟩
  · obtain ⟨rfl, _⟩ := Connector.queryBlockNumber_run hq
    rw [hq] at h
    cases h
    exact ⟨rfl, Or.inl rfl⟩
  · obtain ⟨rfl, hn⟩ := Connector.queryBlockNumber_run hq
    rw [hq] at h
    cases h
    exact ⟨rfl, Or.inr (by rw [hn n rfl])⟩

/-- The block at `k` as it arrives at a relayer, with its header. -/
structure Fetched (c : Chain τ) (k : Int) (block : Block) (header : Json) : Prop where
  stored : ∃ stored text, c.blocks.getBlockByHeight k = .ok (some stored)
    ∧ stored.asStr = .ok text ∧ Block.fromStr text = .ok block
  header : block.header = .ok header

omit [Contracts] in
theorem fetch_run {link : Link} {k : Int} {c c' : Chain τ} {r : Except Exn (Block × Json)}
    (h : fetch link k c = (r, c')) :
    c' = c ∧ ∀ b hd, r = .ok (b, hd) → Fetched c k b hd := by
  unfold fetch at h
  rcases hq : Connector.queryBlock link k c with ⟨e | b, c1⟩
  · obtain ⟨rfl, _⟩ := Connector.queryBlock_run hq
    rw [Comp.bind_of_error hq] at h
    cases h
    exact ⟨rfl, fun b hd hr => nomatch hr⟩
  · obtain ⟨rfl, hstored⟩ := Connector.queryBlock_run hq
    rw [Comp.bind_of_ok hq] at h
    cases hhd : b.header with
    | error e =>
        rw [hhd] at h
        cases h
        exact ⟨rfl, fun b hd hr => nomatch hr⟩
    | ok hd =>
        rw [hhd] at h
        cases h
        refine ⟨rfl, fun b' hd' hr => ?_⟩
        cases hr
        exact ⟨hstored b rfl, hhd⟩

omit [Contracts] in
/-- A header tells the height of its block. -/
theorem header_height {block : Block} {header : Json} (h : block.header = .ok header) :
    header.wf = true ∧ header.getItem "height" = .ok (.int block.height) := by
  obtain ⟨bs, _, h⟩ := except_bind_ok h
  cases h
  refine ⟨?_, rfl⟩
  rw [Json.wf_obj_iff]
  refine ⟨by simp, ?_⟩
  simp [Json.wf]

omit [Contracts] in
/-- **The fetched block is the committed one**, the genesis block or one of the
history, and its header tells its height. -/
theorem fetched_block {c : Chain τ} {time : PyFloat} {k : Int} {block : Block} {header : Json}
    (hinv : Chain.ChainInv [Chain.genesisBlock time] c) (hk : 0 ≤ k)
    (hf : Fetched c k block header) :
    header.wf = true ∧ header.getItem "height" = .ok (.int k) ∧ block.height = k
      ∧ k ≤ c.history.length
      ∧ ((k = 0 ∧ block.txs = [])
        ∨ ∃ r, 1 ≤ k ∧ c.history[k.toNat - 1]? = some r ∧ block = r.block) := by
  obtain ⟨stored, text, hget, htext, hdecode⟩ := hf.stored
  have hat := BlockStorage.getBlockByHeight_eq_some hk hget
  have hheight : stored.height = k := by
    rw [hinv.aligned k.toNat stored hat]
    omega
  have hwhere : (k = 0 ∧ stored.txs = [])
      ∨ ∃ r, 1 ≤ k ∧ c.history[k.toNat - 1]? = some r ∧ stored = r.block := by
    rw [hinv.blocks, List.singleton_append] at hat
    by_cases h0 : k = 0
    · subst h0
      cases hat
      exact Or.inl ⟨rfl, rfl⟩
    · obtain ⟨j, hj⟩ : ∃ j, k.toNat = j + 1 := ⟨k.toNat - 1, by omega⟩
      rw [hj, List.getElem?_cons_succ, List.getElem?_map] at hat
      obtain ⟨r, hr, rfl⟩ := Option.map_eq_some_iff.mp hat
      refine Or.inr ⟨r, by omega, ?_, rfl⟩
      rw [hj, Nat.add_sub_cancel]
      exact hr
  have hmemo : ∀ tx ∈ stored.txs, tx.memo.wf = true := by
    intro tx htx
    rcases hwhere with ⟨_, hnil⟩ | ⟨r, _, hr, rfl⟩
    · rw [hnil] at htx
      cases htx
    · have hok := hinv.committed r (List.mem_of_getElem? hr)
      rw [hok.txs] at htx
      obtain ⟨s, hs, rfl⟩ := List.mem_map.mp htx
      exact wf_of_stamped (hok.memo s hs)
  have hsame : block = stored :=
    Except.ok.inj (hdecode.symm.trans (Block.fromStr_asStr hmemo htext))
  subst hsame
  obtain ⟨hwf, hitem⟩ := header_height hf.header
  rw [hheight] at hitem
  refine ⟨hwf, hitem, hheight, ?_, hwhere⟩
  rcases hwhere with ⟨h0, _⟩ | ⟨r, h1, hr, _⟩
  · omega
  · have hlt : k.toNat - 1 < c.history.length := by
      by_contra hge
      rw [List.getElem?_eq_none (by omega)] at hr
      cases hr
    omega

/-- A round of `listen_block`: no block, a block all of which is in the queues, or
an exception in between. -/
inductive ListenCase (cfg : RelayerConfig) (time : Nat → PyFloat) (tag : Nat → κ) (k : Int)
    (rl : Relayer κ) (c : Chain τ) : Relayer κ → Prop where
  | retry (e : Exn) : ListenCase cfg time tag k rl c { rl with listen := afterError k e }
  | fetched {block : Block} {header : Json} {n : Nat} {ds : Int → DstTool κ}
      (hfetch : Fetched c k block header)
      (hfilter : filterBlock cfg time tag block header rl.dsts = (.ok n, ds)) :
      ListenCase cfg time tag k rl c { rl with listen := .listening (k + 1), dsts := ds }
  | raised {block : Block} {header : Json} {e : Exn} {ds : Int → DstTool κ}
      (hfetch : Fetched c k block header)
      (hfilter : filterBlock cfg time tag block header rl.dsts = (.error e, ds)) :
      ListenCase cfg time tag k rl c { rl with listen := afterError k e, dsts := ds }

omit [Contracts] in
/-- **A round of `listen_block`.** -/
theorem listen_cases {cfg : RelayerConfig} {link : Link} {time : Nat → PyFloat} {tag : Nat → κ}
    {k : Int} {rl rl' : Relayer κ} {c c' : Chain τ}
    (h : listen cfg link time tag k rl c = (rl', c')) :
    c' = c ∧ ListenCase cfg time tag k rl c rl' := by
  unfold listen at h
  rcases hf : fetch link k c with ⟨e | ⟨b, hd⟩, c1⟩
  · obtain ⟨rfl, _⟩ := fetch_run hf
    rw [hf] at h
    cases h
    exact ⟨rfl, .retry e⟩
  · obtain ⟨rfl, hfetched⟩ := fetch_run hf
    rw [hf] at h
    dsimp only at h
    rcases hfil : filterBlock cfg time tag b hd rl.dsts with ⟨e | n, ds⟩
    · rw [hfil] at h
      cases h
      exact ⟨rfl, .raised (hfetched b hd rfl) hfil⟩
    · rw [hfil] at h
      cases h
      exact ⟨rfl, .fetched (hfetched b hd rfl) hfil⟩

omit [Contracts] [Sha256] in
/-- After an exception the loop is at the same block or has stopped. -/
theorem afterError_cases (k : Int) (e : Exn) :
    afterError k e = .listening k ∨ afterError k e = .stopped := by
  unfold afterError
  split
  · exact Or.inl rfl
  · split
    · exact Or.inl rfl
    · exact Or.inr rfl

/-- What a block's transactions put into the queue of `pid`; nothing in a relayer
that only forwards headers. -/
def blockForwards (cfg : RelayerConfig) (time : Nat → PyFloat) (tag : Nat → κ) (pid : Int)
    (txs : List Transaction) : List (κ × Transaction) :=
  if cfg.isPar then [] else forwards cfg time tag pid 0 txs

/-- What a round of filtering did to one destination: the header joined its queue
or not, and then a first part of the block's transactions did. -/
structure Pushed (cfg : RelayerConfig) (header : Json) (es : List (κ × Transaction)) (pid : Int)
    (d d' : DstTool κ) (full : Prop) : Prop where
  queues : ∃ hs fs, d' = { d with
      queueHeader := d.queueHeader ++ hs.map some
      queueXtx := d.queueXtx ++ fs.map some }
    ∧ (hs = [] ∨ pid ∈ headerTargets cfg ∧ hs = [header]) ∧ fs <+: es
    ∧ (full → (pid ∈ headerTargets cfg → hs = [header]) ∧ fs = es)

omit [Contracts] [Sha256] in
/-- **What filtering a block does**: to each destination the header and the first
part of the forwarded transactions, or all of them when nothing is raised. -/
theorem filterBlock_run {cfg : RelayerConfig} {time : Nat → PyFloat} {tag : Nat → κ}
    {block : Block} {header : Json} {ds ds' : Int → DstTool κ} {r : Except Exn Nat}
    (h : filterBlock cfg time tag block header ds = (r, ds')) (pid : Int) :
    Pushed cfg header (blockForwards cfg time tag pid block.txs) pid (ds pid) (ds' pid)
      (∃ n, r = .ok n) := by
  have hpush : ∀ {d d1 : DstTool κ}, (d1 = d ∨ (pid ∈ headerTargets cfg ∧ d1 = d.pushHeader header)) →
      ∃ hs : List Json, d1 = { d with queueHeader := d.queueHeader ++ hs.map some }
        ∧ (hs = [] ∨ pid ∈ headerTargets cfg ∧ hs = [header]) := by
    rintro d d1 (rfl | ⟨hmem, rfl⟩)
    · exact ⟨[], by simp, Or.inl rfl⟩
    · exact ⟨[header], rfl, Or.inr ⟨hmem, rfl⟩⟩
  unfold filterBlock at h
  rcases hh : filterHeader cfg header ds with ⟨e | _, ds1⟩
  · obtain ⟨hall, _⟩ := filterHeader_run hh
    rw [Comp.bind_of_error hh] at h
    cases h
    obtain ⟨hs, heq, hhs⟩ := hpush (hall pid)
    exact ⟨hs, [], by rw [heq]; simp, hhs, List.nil_prefix, fun ⟨n, hn⟩ => nomatch hn⟩
  · obtain ⟨hall, hok⟩ := filterHeader_run hh
    rw [Comp.bind_of_ok hh] at h
    obtain ⟨hs, heq, hhs⟩ := hpush (hall pid)
    have hfull : pid ∈ headerTargets cfg → hs = [header] := by
      intro hmem
      rcases hhs with rfl | ⟨_, rfl⟩
      · have hsame := hok rfl pid hmem
        rw [heq] at hsame
        have hlen := congrArg (fun d => d.queueHeader.length) hsame
        simp [DstTool.pushHeader] at hlen
      · rfl
    unfold filterTxs at h
    unfold blockForwards
    split at h
    next hpar =>
        cases h
        rw [if_pos hpar]
        exact ⟨hs, [], by rw [heq]; simp, hhs, List.nil_prefix, fun _ => ⟨hfull, rfl⟩⟩
    next hpar =>
        rw [if_neg hpar]
        obtain ⟨fs, hpre, hds, hfs⟩ := (filterTxsFrom_run cfg time tag block.txs 0 ds1 r ds' h).1 pid
        refine ⟨hs, fs, ?_, hhs, hpre, fun hr => ⟨hfull, hfs hr⟩⟩
        rw [hds, heq]
        rfl

/-! ## §2. `deal_header`. -/

/-- A round of `deal_header`: the stop signal, a header sent, or a failure. -/
inductive HeaderCase (cfg : RelayerConfig) (dst : Connector) (time put : PyFloat) (tag : Json → τ)
    (d : DstTool κ) (c : Chain τ) : DstTool κ → Chain τ → Prop where
  | stop {rest : List (Option Json)} (hqueue : d.queueHeader = none :: rest) :
      HeaderCase cfg dst time put tag d c { d with queueHeader := rest, headerAlive := false } c
  | sent {header : Json} {rest : List (Option Json)} {tx : Transaction}
      (hqueue : d.queueHeader = some header :: rest) (htx : headerTx cfg dst time header = .ok tx)
      (hput : (c.pool.putTx put (tag header) (Connector.arrived tx)).1 = .ok true) :
      HeaderCase cfg dst time put tag d c { d with queueHeader := rest }
        (c.submit put (tag header) (Connector.arrived tx))
  | failed {header : Json} {rest : List (Option Json)} {c' : Chain τ}
      (hqueue : d.queueHeader = some header :: rest)
      (hchain : c' = c ∨ ∃ tx, headerTx cfg dst time header = .ok tx
        ∧ c' = c.submit put (tag header) (Connector.arrived tx)) :
      HeaderCase cfg dst time put tag d c { d with queueHeader := rest, headerAlive := false } c'

omit [Contracts] in
/-- **A round of `deal_header`.** -/
theorem dealHeader_cases {cfg : RelayerConfig} {dst : Connector} {link : Link}
    {time put : PyFloat} {tag : Json → τ} {d d' : DstTool κ} {c c' : Chain τ}
    (h : dealHeader cfg dst link time put tag d c = some (d', c')) :
    d.headerAlive = true ∧ HeaderCase cfg dst time put tag d c d' c' := by
  unfold dealHeader at h
  split at h
  next halive =>
      refine ⟨halive, ?_⟩
      split at h
      next => cases h
      next rest hqueue =>
          cases h
          exact .stop hqueue
      next header rest hqueue =>
          dsimp only at h
          cases htx : headerTx cfg dst time header with
          | error e =>
              rw [htx] at h
              cases h
              exact .failed hqueue (Or.inl rfl)
          | ok tx =>
              rw [htx, Comp.lift_ok_bind_run] at h
              rcases hs : Connector.sendTx link put (tag header) tx c with ⟨e | hash, c1⟩
              · obtain ⟨hstate, _⟩ := Connector.sendTx_run hs
                rw [hs] at h
                cases h
                exact .failed hqueue (hstate.imp_right (fun heq => ⟨tx, htx, heq⟩))
              · obtain ⟨_, hok⟩ := Connector.sendTx_run hs
                obtain ⟨rfl, hput⟩ := hok hash rfl
                rw [hs] at h
                cases h
                exact .sent hqueue htx hput
  next => cases h

/-! ## §3. `deal_xtx`: taking a transaction. -/

/-- What `deal_xtx` has in hand before it waits. -/
structure Prepared (cfg : RelayerConfig) (dst : Connector) (tag : κ) (xtx : Transaction)
    (h : Dealing κ) : Prop where
  tag_eq : h.tag = tag
  xtx_eq : h.xtx = xtx
  to_ : h.tx.to_ = .str dst.to_
  data : h.tx.data = .str (CtrLightClient.request .validateState
    [.int cfg.src.pid, .str (srcType cfg dst), .int xtx.height, .str h.state])
  memo : ∀ k, k ≠ "ts" → memoField h.tx.memo k = memoField xtx.memo k
  mark : ∃ time, stampRelayer "ready" time xtx.memo = .ok h.tx.memo
  wait : firstWait cfg xtx.height = .ok h.wait

omit [Contracts] in
theorem prepare_run {cfg : RelayerConfig} {dst : Connector} {link : Link} {time : PyFloat}
    {tag : κ} {xtx : Transaction} {c c' : Chain τ} {r : Except Exn (Dealing κ)}
    (h : prepare cfg dst link time tag xtx c = (r, c')) :
    c' = c ∧ ∀ hand, r = .ok hand → Prepared cfg dst tag xtx hand := by
  unfold prepare at h
  rcases hp : Connector.queryXtxProof link xtx c with ⟨e | proof, c1⟩
  · have hc := Connector.queryXtxProof_run hp
    subst hc
    rw [Comp.bind_of_error hp] at h
    cases h
    exact ⟨rfl, fun hand hr => nomatch hr⟩
  · have hc := Connector.queryXtxProof_run hp
    subst hc
    rw [Comp.bind_of_ok hp] at h
    cases hdoc : xtx.asJson with
    | error e =>
        rw [hdoc] at h
        cases h
        exact ⟨rfl, fun hand hr => nomatch hr⟩
    | ok doc =>
        rw [hdoc, Comp.lift_ok_bind_run] at h
        generalize htx : dst.buildTx _ xtx.memo = tx at h
        cases hmark : markTx "ready" time tx with
        | error e =>
            rw [hmark] at h
            cases h
            exact ⟨rfl, fun hand hr => nomatch hr⟩
        | ok tx' =>
            rw [hmark, Comp.lift_ok_bind_run] at h
            cases hw : firstWait cfg xtx.height with
            | error e =>
                rw [hw] at h
                cases h
                exact ⟨rfl, fun hand hr => nomatch hr⟩
            | ok wait =>
                rw [hw] at h
                cases h
                refine ⟨rfl, fun hand hr => ?_⟩
                cases hr
                obtain ⟨memo, hmemo, rfl⟩ := markTx_eq_ok hmark
                subst htx
                exact ⟨rfl, rfl, rfl, rfl, fun k hk => memoField_stampRelayer hmemo hk, ⟨time, hmemo⟩, hw⟩

/-- The head of the loop: the stop signal, a transaction in hand, or a failure. -/
inductive TakeCase (cfg : RelayerConfig) (dst : Connector) (d : DstTool κ) : DstTool κ → Prop where
  | stop {rest : List (Option (κ × Transaction))} (hqueue : d.queueXtx = none :: rest) :
      TakeCase cfg dst d { d with queueXtx := rest, xtxTask := { d.xtxTask with alive := false } }
  | taken {tag : κ} {xtx : Transaction} {rest : List (Option (κ × Transaction))} {h : Dealing κ}
      (hqueue : d.queueXtx = some (tag, xtx) :: rest) (hprep : Prepared cfg dst tag xtx h) :
      TakeCase cfg dst d { d with
        queueXtx := rest
        xtxTask := { d.xtxTask with dealing := some h } }
  | failed {e : κ × Transaction} {rest : List (Option (κ × Transaction))}
      (hqueue : d.queueXtx = some e :: rest) :
      TakeCase cfg dst d { d with queueXtx := rest, xtxTask := { d.xtxTask with alive := false } }

omit [Contracts] in
/-- **The head of the loop of `deal_xtx`.** -/
theorem takeXtx_cases {cfg : RelayerConfig} {dst : Connector} {link : Link} {time : PyFloat}
    {d d' : DstTool κ} {c c' : Chain τ} (h : takeXtx cfg dst link time d c = some (d', c')) :
    c' = c ∧ d.xtxTask.alive = true ∧ d.xtxTask.dealing = none ∧ TakeCase cfg dst d d' := by
  unfold takeXtx at h
  split at h
  next hgo =>
      obtain ⟨halive, hnone⟩ := Bool.and_eq_true_iff.mp hgo
      have hnone : d.xtxTask.dealing = none := Option.isNone_iff_eq_none.mp hnone
      split at h
      next => cases h
      next rest hqueue =>
          cases h
          exact ⟨rfl, halive, hnone, .stop hqueue⟩
      next tag xtx rest hqueue =>
          rcases hp : prepare cfg dst link time tag xtx c with ⟨e | hand, c1⟩
          · obtain ⟨rfl, _⟩ := prepare_run hp
            rw [hp] at h
            cases h
            exact ⟨rfl, halive, hnone, .failed hqueue⟩
          · obtain ⟨rfl, hprep⟩ := prepare_run hp
            rw [hp] at h
            cases h
            exact ⟨rfl, halive, hnone, .taken hqueue (hprep hand rfl)⟩
  next => cases h

/-! ## §4. `deal_xtx`: the wait and the sendings. -/

/-- Change one chain. -/
def setChain (pid : Int) (c : Chain τ) (cs : Int → Chain τ) : Int → Chain τ :=
  Function.update cs pid c

/-- **A step of `deal_xtx` with a transaction in hand**: one constructor per look,
per decision and per sending, and four for the ways to end. -/
inductive AdvanceCase (cfg : RelayerConfig) (dst : Connector) (time put : PyFloat)
    (tags : XtxTags κ τ) (t : XtxTask κ) (h : Dealing κ) (cs : Int → Chain τ) :
    XtxTask κ → (Int → Chain τ) → Prop where
  | interQuery {inter : Connector} {link : Link} {n : Int} {c : Chain τ} (hwait : h.wait = .inter)
      (hinter : cfg.inter = some inter) (hlt : t.syncedInterHeight < h.xtx.height)
      (hquery : inter.queryMaxXbn link cfg.src.pid (cs inter.pid) = (.ok n, c)) :
      AdvanceCase cfg dst time put tags t h cs { t with syncedInterHeight := n }
        (setChain inter.pid c cs)
  | interDone (hwait : h.wait = .inter) (hge : h.xtx.height ≤ t.syncedInterHeight) :
      AdvanceCase cfg dst time put tags t h cs
        { t with dealing := some { h with wait := .csHeight } } cs
  | csQuery {inter : Connector} {link : Link} {n : Int} {c : Chain τ} (hwait : h.wait = .csHeight)
      (hinter : cfg.inter = some inter)
      (hquery : inter.queryHeaderCsHeight link cfg.src.pid h.xtx.height (cs inter.pid)
        = (.ok n, c)) :
      AdvanceCase cfg dst time put tags t h cs
        { t with
          torCsHeightOnInter := (h.xtx.height, n) :: t.torCsHeightOnInter
          dealing := some { h with wait := .dst n } }
        (setChain inter.pid c cs)
  | csCached {n : Int} (hwait : h.wait = .csHeight)
      (hcached : t.torCsHeightOnInter.lookup h.xtx.height = some n) :
      AdvanceCase cfg dst time put tags t h cs { t with dealing := some { h with wait := .dst n } } cs
  | dstQuery {height n : Int} {link : Link} {c : Chain τ} (hwait : h.wait = .dst height)
      (hlt : t.syncedHeight < height)
      (hquery : dst.queryMaxXbn link (countedPid cfg) (cs dst.pid) = (.ok n, c)) :
      AdvanceCase cfg dst time put tags t h cs { t with syncedHeight := n } (setChain dst.pid c cs)
  | dstDone {height : Int} (hwait : h.wait = .dst height) (hge : height ≤ t.syncedHeight) :
      AdvanceCase cfg dst time put tags t h cs
        { t with dealing := some { h with
          wait := if cfg.mode = .tor then .layer1 height else .ready } } cs
  | layer1Skip {n : Int} (hwait : h.wait = .layer1 n) (hsent : h.xtx.height ∈ t.l1txSent) :
      AdvanceCase cfg dst time put tags t h cs
        { t with dealing := some { h with wait := .ready } } cs
  | layer1Sent {inter : Connector} {n : Int} (hwait : h.wait = .layer1 n)
      (hinter : cfg.inter = some inter)
      (hput : ((cs dst.pid).pool.putTx put (tags.layer1 n)
        (Connector.arrived (layer1Tx inter dst time n h.state))).1 = .ok true) :
      AdvanceCase cfg dst time put tags t h cs
        { t with
          l1txSent := h.xtx.height :: t.l1txSent
          dealing := some { h with wait := .ready } }
        (setChain dst.pid ((cs dst.pid).submit put (tags.layer1 n)
          (Connector.arrived (layer1Tx inter dst time n h.state))) cs)
  | sent {tx : Transaction} (hwait : h.wait = .ready) (hmark : markTx "send" time h.tx = .ok tx)
      (hput : ((cs dst.pid).pool.putTx put (tags.xtx h.xtx.height h.tag)
        (Connector.arrived tx)).1 = .ok true) :
      AdvanceCase cfg dst time put tags t h cs { t with dealing := none }
        (setChain dst.pid ((cs dst.pid).submit put (tags.xtx h.xtx.height h.tag)
          (Connector.arrived tx)) cs)
  | dead : AdvanceCase cfg dst time put tags t h cs { t with alive := false, dealing := none } cs
  | deadQuery {pid : Int} {c : Chain τ} (hquery : Connector.Queried (cs pid) c) :
      AdvanceCase cfg dst time put tags t h cs { t with alive := false, dealing := none }
        (setChain pid c cs)
  | deadLayer1 {inter : Connector} {n : Int} (hwait : h.wait = .layer1 n)
      (hinter : cfg.inter = some inter) :
      AdvanceCase cfg dst time put tags t h cs { t with alive := false, dealing := none }
        (setChain dst.pid ((cs dst.pid).submit put (tags.layer1 n)
          (Connector.arrived (layer1Tx inter dst time n h.state))) cs)
  | deadSent {tx : Transaction} (hwait : h.wait = .ready)
      (hmark : markTx "send" time h.tx = .ok tx) :
      AdvanceCase cfg dst time put tags t h cs { t with alive := false, dealing := none }
        (setChain dst.pid ((cs dst.pid).submit put (tags.xtx h.xtx.height h.tag)
          (Connector.arrived tx)) cs)

omit [Contracts] [Sha256] in
/-- A computation on one chain changes that chain. -/
theorem onChain_run {α : Type} (pid : Int) (x : Comp (Chain τ) α) (cs : Int → Chain τ) :
    onChain pid x cs = ((x (cs pid)).1, setChain pid (x (cs pid)).2 cs) := rfl

omit [Contracts] [Sha256] in
@[simp] theorem setChain_self (pid : Int) (c : Chain τ) (cs : Int → Chain τ) :
    setChain pid c cs pid = c := by
  simp [setChain]

omit [Contracts] [Sha256] in
theorem setChain_ne {pid p : Int} (h : p ≠ pid) (c : Chain τ) (cs : Int → Chain τ) :
    setChain pid c cs p = cs p := by
  simp [setChain, h]

omit [Contracts] [Sha256] in
theorem setChain_same (pid : Int) (cs : Int → Chain τ) : setChain pid (cs pid) cs = cs :=
  Function.update_eq_self pid cs

/-- The relayer asks light clients only. -/
structure AsksLightClients (cfg : RelayerConfig) (dst : Connector) : Prop where
  inter : ∀ inter, cfg.inter = some inter → inter.to_ = "lightclient"
  dst : dst.to_ = "lightclient"

omit [Contracts] in
/-- A sending on one chain, with its two outcomes. -/
theorem onChain_sendTx {pid : Int} {link : Link} {put : PyFloat} {tag : τ} {tx : Transaction}
    {cs cs' : Int → Chain τ} {r : Except Exn String}
    (h : onChain pid (Connector.sendTx link put tag tx) cs = (r, cs')) :
    (cs' = cs ∨ cs' = setChain pid ((cs pid).submit put tag (Connector.arrived tx)) cs)
      ∧ ∀ hash, r = .ok hash →
          cs' = setChain pid ((cs pid).submit put tag (Connector.arrived tx)) cs
          ∧ ((cs pid).pool.putTx put tag (Connector.arrived tx)).1 = .ok true := by
  rw [onChain_run] at h
  rcases hs : Connector.sendTx link put tag tx (cs pid) with ⟨r1, c⟩
  obtain ⟨hstate, hok⟩ := Connector.sendTx_run hs
  rw [hs] at h
  cases h
  refine ⟨hstate.imp ?_ ?_, fun hash hr => ?_⟩
  · rintro rfl
    exact setChain_same pid cs
  · rintro rfl
    rfl
  · obtain ⟨rfl, hput⟩ := hok hash hr
    exact ⟨rfl, hput⟩

/-- The task after a step: the new one, or the dead one. -/
def taskAfter (t : XtxTask κ) : Except Exn (XtxTask κ) → XtxTask κ
  | .ok t' => t'
  | .error _ => { t with alive := false, dealing := none }

theorem advanceDealing_cases {cfg : RelayerConfig} {dst : Connector} {link : Link}
    {time put : PyFloat} {tags : XtxTags κ τ} {t : XtxTask κ} {h : Dealing κ}
    {cs cs' : Int → Chain τ} {r : Except Exn (XtxTask κ)} (hask : AsksLightClients cfg dst)
    (hrun : advanceDealing cfg cfg.inter dst link time put tags t h cs = (r, cs')) :
    AdvanceCase cfg dst time put tags t h cs (taskAfter t r) cs' := by
  have hdead : ∀ {e : Exn} {cs1 : Int → Chain τ}, cs1 = cs →
      ((.error e, cs1) : Except Exn (XtxTask κ) × (Int → Chain τ)) = (r, cs') →
      AdvanceCase cfg dst time put tags t h cs (taskAfter t r) cs' := by
    rintro e cs1 rfl heq
    cases heq
    exact .dead
  cases hwait : h.wait with
  | inter =>
      cases hinter : cfg.inter with
      | none =>
          simp only [advanceDealing, hwait, hinter] at hrun
          exact hdead rfl hrun
      | some inter =>
          simp only [advanceDealing, hwait, hinter] at hrun
          split at hrun
          next hlt =>
              rw [Comp.bind_run, onChain_run] at hrun
              rcases hq : inter.queryMaxXbn link cfg.src.pid (cs inter.pid) with ⟨e | n, c⟩
              · rw [hq] at hrun
                cases hrun
                exact .deadQuery (Connector.queryMaxXbn_queried (hask.inter inter hinter) hq)
              · rw [hq] at hrun
                cases hrun
                exact .interQuery hwait hinter hlt hq
          next hge =>
              cases hrun
              exact .interDone hwait (not_lt.mp hge)
  | csHeight =>
      cases hinter : cfg.inter with
      | none =>
          simp only [advanceDealing, hwait, hinter] at hrun
          exact hdead rfl hrun
      | some inter =>
          simp only [advanceDealing, hwait, hinter] at hrun
          split at hrun
          next =>
              rw [Comp.bind_run, onChain_run] at hrun
              rcases hq : inter.queryHeaderCsHeight link cfg.src.pid h.xtx.height (cs inter.pid)
                with ⟨e | n, c⟩
              · rw [hq] at hrun
                cases hrun
                exact .deadQuery
                  (Connector.queryHeaderCsHeight_queried (hask.inter inter hinter) hq)
              · rw [hq] at hrun
                cases hrun
                exact .csQuery hwait hinter hq
          next hcached =>
              cases hrun
              cases hl : t.torCsHeightOnInter.lookup h.xtx.height with
              | none =>
                  rw [hl] at hcached
                  exact absurd rfl hcached
              | some n => exact .csCached hwait hl
  | dst height =>
      simp only [advanceDealing, hwait] at hrun
      split at hrun
      next hlt =>
          rw [Comp.bind_run, onChain_run] at hrun
          rcases hq : dst.queryMaxXbn link (countedPid cfg) (cs dst.pid) with ⟨e | n, c⟩
          · rw [hq] at hrun
            cases hrun
            exact .deadQuery (Connector.queryMaxXbn_queried hask.dst hq)
          · rw [hq] at hrun
            cases hrun
            exact .dstQuery hwait hlt hq
      next hge =>
          cases hrun
          exact .dstDone hwait (not_lt.mp hge)
  | layer1 n =>
      cases hinter : cfg.inter with
      | none =>
          simp only [advanceDealing, hwait, hinter] at hrun
          exact hdead rfl hrun
      | some inter =>
          simp only [advanceDealing, hwait, hinter] at hrun
          split at hrun
          next hmem =>
              cases hrun
              exact .layer1Skip hwait hmem
          next =>
              rw [Comp.bind_run] at hrun
              rcases hs : onChain dst.pid (Connector.sendTx link put (tags.layer1 n)
                (layer1Tx inter dst time n h.state)) cs with ⟨e | hash, cs1⟩
              · obtain ⟨hstate, _⟩ := onChain_sendTx hs
                rw [hs] at hrun
                cases hrun
                rcases hstate with rfl | rfl
                · exact .dead
                · exact .deadLayer1 hwait hinter
              · obtain ⟨_, hok⟩ := onChain_sendTx hs
                obtain ⟨rfl, hput⟩ := hok hash rfl
                rw [hs] at hrun
                cases hrun
                exact .layer1Sent hwait hinter hput
  | ready =>
      simp only [advanceDealing, hwait] at hrun
      cases hmark : markTx "send" time h.tx with
      | error e =>
          rw [hmark] at hrun
          exact hdead rfl hrun
      | ok tx =>
          rw [hmark, Comp.lift_ok_bind_run, Comp.bind_run] at hrun
          rcases hs : onChain dst.pid (Connector.sendTx link put (tags.xtx h.xtx.height h.tag) tx)
            cs with ⟨e | hash, cs1⟩
          · obtain ⟨hstate, _⟩ := onChain_sendTx hs
            rw [hs] at hrun
            cases hrun
            rcases hstate with rfl | rfl
            · exact .dead
            · exact .deadSent hwait hmark
          · obtain ⟨_, hok⟩ := onChain_sendTx hs
            obtain ⟨rfl, hput⟩ := hok hash rfl
            rw [hs] at hrun
            cases hrun
            exact .sent hwait hmark hput

/-- **Inversion of a step with a transaction in hand.** -/
theorem advance_cases {cfg : RelayerConfig} {dst : Connector} {link : Link} {time put : PyFloat}
    {tags : XtxTags κ τ} {d d' : DstTool κ} {cs cs' : Int → Chain τ}
    (hask : AsksLightClients cfg dst)
    (h : advance cfg dst link time put tags d cs = some (d', cs')) :
    d.xtxTask.alive = true ∧ ∃ hand t', d.xtxTask.dealing = some hand
      ∧ d' = { d with xtxTask := t' }
      ∧ AdvanceCase cfg dst time put tags d.xtxTask hand cs t' cs' := by
  unfold advance at h
  split at h
  next halive =>
      refine ⟨halive, ?_⟩
      split at h
      next => cases h
      next hand hdeal =>
          rcases hrun : advanceDealing cfg cfg.inter dst link time put tags d.xtxTask hand cs with
            ⟨r, cs1⟩
          have hcase := advanceDealing_cases hask hrun
          rw [hrun] at h
          cases r with
          | error e =>
              cases h
              exact ⟨hand, _, hdeal, rfl, hcase⟩
          | ok t =>
              cases h
              exact ⟨hand, _, hdeal, rfl, hcase⟩
  next => cases h

end RelayerUnix

end TorSim
