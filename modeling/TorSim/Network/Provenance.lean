/-
  TorSim.Network.Provenance — where that comes from what relayers send.

  A `header_sync` carries the header of a block that its chain committed.  A relayed
  transaction carries a state: the document of a transaction that its chain committed,
  with the type of the next hop, and its hash for a proof.  The first-layer transaction
  of ToR mode carries the same state to be verified under the relay chain's header.

  Main results:
    * `step_traces` — **every step keeps queues, hands and submissions traceable**.
    * `run_traces` — so they are in every run.
-/
import TorSim.Network.Lanes

namespace TorSim

open TorSim.Lib

/-! ## §1. What `deal_xtx` prepares. -/

namespace RelayerUnix

variable {κ τ : Type} [Sha256]

/-- The state of a transaction: its document and its proof. -/
def stateText (doc : Json) (proof : String) : String :=
  Json.dumps (.obj [("tx", doc), ("proof", .str proof)])

/-- The text is the state of the transaction, with its hash for a proof. -/
def ProvenState (xtx : Transaction) (state : String) : Prop :=
  ∃ doc hash, xtx.asJson = .ok doc ∧ xtx.hash = .ok hash ∧ state = stateText doc (hex hash)

/-- The proof that a chain answers with is the hash. -/
theorem queryXtxProof_hash {link : Link} {xtx : Transaction} {c c' : Chain τ} {proof : String}
    (h : Connector.queryXtxProof link xtx c = (.ok proof, c')) :
    ∃ hash, xtx.hash = .ok hash ∧ proof = hex hash := by
  obtain ⟨hash, c1, hlift, hrequest⟩ := Comp.bind_eq_ok h
  have hhash : xtx.hash = .ok hash := (Prod.mk.inj hlift).1
  have hanswer : Handlers.queryTxProof (hex hash) c1 = (.ok proof, c') :=
    (request_run hrequest).2 proof rfl
  unfold Handlers.queryTxProof at hanswer
  rw [fromhex_hex, Comp.lift_ok_bind_run] at hanswer
  cases hanswer
  exact ⟨hash, hhash, rfl⟩

theorem prepare_state {cfg : RelayerConfig} {dst : Connector} {link : Link} {time : PyFloat}
    {tag : κ} {xtx : Transaction} {c c' : Chain τ} {hand : Dealing κ}
    (h : prepare cfg dst link time tag xtx c = (.ok hand, c')) : ProvenState xtx hand.state := by
  obtain ⟨proof, c1, hproof, h⟩ := Comp.bind_eq_ok h
  obtain ⟨doc, c2, hdoc, h⟩ := Comp.bind_eq_ok h
  obtain ⟨tx, c3, _, h⟩ := Comp.bind_eq_ok h
  obtain ⟨wait, c4, _, h⟩ := Comp.bind_eq_ok h
  cases h
  obtain ⟨hash, hhash, rfl⟩ := queryXtxProof_hash hproof
  exact ⟨doc, hash, (Prod.mk.inj hdoc).1, hhash, rfl⟩

/-- **What the head of the loop takes in hand** is queued, with its own state. -/
theorem takeXtx_state {cfg : RelayerConfig} {dst : Connector} {link : Link} {time : PyFloat}
    {d d' : DstTool κ} {c c' : Chain τ} {hand : Dealing κ}
    (h : takeXtx cfg dst link time d c = some (d', c'))
    (hdeal : d'.xtxTask.dealing = some hand) :
    ProvenState hand.xtx hand.state ∧ some (hand.tag, hand.xtx) ∈ d.queueXtx := by
  unfold takeXtx at h
  split at h
  next hgo =>
      have hnone : d.xtxTask.dealing = none :=
        Option.isNone_iff_eq_none.mp (Bool.and_eq_true_iff.mp hgo).2
      split at h
      next => cases h
      next rest hqueue =>
          cases h
          cases hnone.symm.trans hdeal
      next tag xtx rest hqueue =>
          rcases hprepare : prepare cfg dst link time tag xtx c with ⟨e | hand', c1⟩
          · rw [hprepare] at h
            cases h
            cases hnone.symm.trans hdeal
          · obtain ⟨_, hprep⟩ := prepare_run hprepare
            have hstate := prepare_state hprepare
            rw [hprepare] at h
            cases h
            cases hdeal
            have htag := (hprep hand rfl).tag_eq
            have hxtx := (hprep hand rfl).xtx_eq
            rw [htag, hxtx, hqueue]
            exact ⟨hstate, List.mem_cons_self⟩
  next => cases h

omit [Sha256] in
/-- A forwarded transaction is one of the block, with its tag. -/
theorem mem_forwards_at {cfg : RelayerConfig} {time : Nat → PyFloat} {tag : Nat → κ} {pid : Int}
    {e : κ × Transaction} (txs : List Transaction) :
    ∀ i : Nat, e ∈ forwards cfg time tag pid i txs → ∃ j tx, txs[j]? = some tx ∧ e.1 = tag (i + j)
      ∧ ∃ ty, hopOf cfg (memoField tx.memo "type") (memoField tx.memo "dst") = some (ty, pid)
        ∧ Forwarded tx e.2 ty := by
  induction txs with
  | nil =>
      intro i he
      cases he
  | cons tx txs ih =>
      intro i he
      rcases List.mem_append.mp he with he | he
      · cases hf : forward cfg (time i) tx with
        | error x =>
            rw [hf] at he
            cases he
        | ok next =>
            rw [hf] at he
            rcases forward_eq_ok hf with ⟨rfl, _⟩ | ⟨p, tx', ty, rfl, _, hhop, hfwd⟩
            · cases he
            · dsimp only [addressed] at he
              by_cases hp : p = pid
              · rw [if_pos hp] at he
                rw [List.mem_singleton.mp he]
                exact ⟨0, tx, rfl, rfl, ty, hp ▸ hhop, hfwd⟩
              · rw [if_neg hp] at he
                cases he
      · obtain ⟨j, tx', htx, htag, hrest⟩ := ih (i + 1) he
        refine ⟨j + 1, tx', htx, ?_, hrest⟩
        rw [htag]
        congr 1
        omega

end RelayerUnix

/-! ## §2. Where it comes from. -/

variable {ι : Type}

/-- The chain committed the block with this header at height `h`. -/
def HeaderAt [Sha256] (c : Chain (Origin ι)) (h : Int) (header : Json) : Prop :=
  ∃ b, c.history[h.toNat - 1]? = some b ∧ b.block.header = .ok header

/-- The transaction is a relayer's copy of one that chain `p` committed, with this root. -/
inductive CopyOf (c : Chain (Origin ι)) (p : Int) (root : Root) (xtx : Transaction) : Prop where
  | slot {j i : Nat} {b : Committed (Origin ι)} {s : Executed (Origin ι)} {ty : String}
      (hb : c.history[j]? = some b) (hs : b.slots[i]? = some s)
      (hroot : root = rootOf p ((j + 1 : Nat) : Int) i s.tag)
      (hheight : xtx.height = ((j + 1 : Nat) : Int))
      (hfwd : RelayerUnix.Forwarded s.tx xtx ty) : CopyOf c p root xtx

theorem getElem?_grown {α : Type} {xs ys : List α} (h : xs <+: ys) {i : Nat} {x : α}
    (hx : xs[i]? = some x) : ys[i]? = some x := by
  obtain ⟨more, rfl⟩ := h
  obtain ⟨hlt, _⟩ := List.getElem?_eq_some_iff.mp hx
  rw [List.getElem?_append_left hlt]
  exact hx

theorem HeaderAt.mono [Sha256] {c c' : Chain (Origin ι)} {h : Int} {header : Json}
    (hat : HeaderAt c h header) (hext : c.history <+: c'.history) : HeaderAt c' h header := by
  obtain ⟨b, hb, hheader⟩ := hat
  exact ⟨b, getElem?_grown hext hb, hheader⟩

theorem CopyOf.mono {c c' : Chain (Origin ι)} {p : Int} {root : Root} {xtx : Transaction}
    (h : CopyOf c p root xtx) (hext : c.history <+: c'.history) : CopyOf c' p root xtx := by
  cases h with
  | slot hb hs hroot hheight hfwd =>
      exact .slot (getElem?_grown hext hb) hs hroot hheight hfwd

theorem CopyOf.height_pos {c : Chain (Origin ι)} {p : Int} {root : Root} {xtx : Transaction}
    (h : CopyOf c p root xtx) : 1 ≤ xtx.height := by
  cases h with
  | slot _ _ _ hheight _ =>
      rw [hheight]
      omega

namespace Net

section Traces

variable [Sha256]

/-- What a submission carries, by its origin. -/
def Traced (dep : Deployment ι) (n : Net ι) (tag : Origin ι) (k : Kept) : Prop :=
  match tag with
  | .client => True
  | .header r h => ∃ header : Json, header.wf = true
      ∧ (1 ≤ h → HeaderAt (n.chains (dep.relayer r).src.pid) h header)
      ∧ k.data = .str (CtrLightClient.request .headerSync
        [.int (dep.relayer r).src.pid, .str (dep.relayer r).src.paratype, .int h, header])
  | .layer1 r h => ∃ inter xtx root state, (dep.relayer r).inter = some inter
      ∧ CopyOf (n.chains (dep.relayer r).src.pid) (dep.relayer r).src.pid root xtx
      ∧ RelayerUnix.ProvenState xtx state
      ∧ k.data = .str (CtrLightClient.request .validateState
        [.int inter.pid, .str inter.paratype, .int h, .str state])
  | .xtx r h root => ∃ xtx state t,
      CopyOf (n.chains (dep.relayer r).src.pid) (dep.relayer r).src.pid root xtx
      ∧ xtx.height = h ∧ RelayerUnix.ProvenState xtx state
      ∧ k.data = .str (CtrLightClient.request .validateState
        [.int (dep.relayer r).src.pid, .str t, .int h, .str state])

/-- **Whatever is queued, in hand or sent can be traced back.** -/
structure Traces (dep : Deployment ι) (n : Net ι) : Prop where
  net : NetOk dep n
  headers : ∀ r pid header, some header ∈ (n.dst r pid).queueHeader → 1 ≤ headerHeight header →
    HeaderAt (n.chains (dep.relayer r).src.pid) (headerHeight header) header
  queue : ∀ r pid e, some e ∈ (n.dst r pid).queueXtx →
    CopyOf (n.chains (dep.relayer r).src.pid) (dep.relayer r).src.pid e.1 e.2
  hands : ∀ r pid hand, (n.dst r pid).xtxTask.dealing = some hand →
    CopyOf (n.chains (dep.relayer r).src.pid) (dep.relayer r).src.pid hand.tag hand.xtx
      ∧ RelayerUnix.ProvenState hand.xtx hand.state
  accepted : ∀ p, ∀ e ∈ (n.chains p).accepted, Traced dep n e.1 e.2.kept

theorem Traced.mono {dep : Deployment ι} {n n' : Net ι} {tag : Origin ι} {k : Kept}
    (h : Traced dep n tag k) (hext : Extends n n') : Traced dep n' tag k := by
  cases tag with
  | client => trivial
  | header r k =>
      obtain ⟨header, hwf, hat, hdata⟩ := h
      exact ⟨header, hwf, fun hpos => (hat hpos).mono (hext _), hdata⟩
  | layer1 r k =>
      obtain ⟨inter, xtx, root, state, hinter, hcopy, hstate, hdata⟩ := h
      exact ⟨inter, xtx, root, state, hinter, hcopy.mono (hext _), hstate, hdata⟩
  | xtx r k root =>
      obtain ⟨xtx, state, t, hcopy, hheight, hstate, hdata⟩ := h
      exact ⟨xtx, state, t, hcopy.mono (hext _), hheight, hstate, hdata⟩

variable {dep : Deployment ι} {n n' : Net ι} {a : Action ι} {r : ι} {pid : Int}

/-- What a relayer sends can be traced back. -/
theorem Traces.sends (ht : Traces dep n) {tag : Origin ι} {tx : Transaction}
    (h : Sends dep n pid a tag tx) : Traced dep n tag (Connector.arrived tx).kept := by
  cases h with
  | @header r dst link time put header rest tx hdst hqueue htx =>
      have hmem : some header ∈ (n.dst r pid).queueHeader := by
        rw [hqueue]
        exact List.mem_cons_self
      obtain ⟨hok, _⟩ := ht.net.headers r pid header hmem
      obtain ⟨height, hheight, htx⟩ := except_bind_ok htx
      rw [hok.height] at hheight
      cases hheight
      cases htx
      exact ⟨header, hok.wf, ht.headers r pid header hmem, rfl⟩
  | @layer1 r dst inter link time put hand k hdst hdeal hwait hinter =>
      obtain ⟨hcopy, hstate⟩ := ht.hands r pid hand hdeal
      exact ⟨inter, hand.xtx, hand.tag, hand.state, hinter, hcopy, hstate, rfl⟩
  | @xtx r dst link time put hand tx hdst hdeal hwait hmark =>
      obtain ⟨hcopy, hstate⟩ := ht.hands r pid hand hdeal
      obtain ⟨_, t, hdata⟩ := ht.net.hands r pid hand hdeal
      have hkept : tx.data = hand.tx.data := congrArg Kept.data (RelayerUnix.kept_markTx hmark)
      exact ⟨hand.xtx, hand.state, t, hcopy, rfl, hstate, hkept.trans hdata⟩

end Traces

/-! ## §3. Every step. -/

variable [DecidableEq ι] [Contracts] [Sha256]

variable {dep : Deployment ι} {n n' : Net ι} {a : Action ι} {r : ι} {pid : Int}

omit [DecidableEq ι] [Contracts] in
/-- What a fetched block adds to a queue is a copy of one of its transactions. -/
theorem copyOf_forwards (hn : NetOk dep n) {k : Int} {time : Nat → PyFloat} {block : Block}
    {header : Json} {e : Root × Transaction} (hk : (n.relayers r).listen = .listening k)
    (hfetch : RelayerUnix.Fetched (n.chains (dep.relayer r).src.pid) k block header)
    (he : e ∈ RelayerUnix.blockForwards (dep.relayer r) time
      (slotRoot (dep.relayer r).src.pid (n.chains (dep.relayer r).src.pid) k) pid block.txs) :
    CopyOf (n.chains (dep.relayer r).src.pid) (dep.relayer r).src.pid e.1 e.2 := by
  unfold RelayerUnix.blockForwards at he
  split at he
  next => cases he
  next =>
      obtain ⟨i, tx, htx, htag, ty, _, hfwd⟩ := RelayerUnix.mem_forwards_at _ 0 he
      obtain ⟨_, hinv⟩ := (hn.chains (dep.relayer r).src.pid).inv
      obtain ⟨_, _, hheight, _, hwhere⟩ := RelayerUnix.fetched_block hinv (hn.listening r k hk).1
        hfetch
      rcases hwhere with ⟨_, hnil⟩ | ⟨b, hpos, hb, rfl⟩
      · rw [hnil] at htx
        cases htx
      · have hok := hinv.committed b (List.mem_of_getElem? hb)
        rw [hok.txs, List.getElem?_map] at htx
        obtain ⟨s, hs, rfl⟩ := Option.map_eq_some_iff.mp htx
        have hk' : ((k.toNat - 1 + 1 : Nat) : Int) = k := by omega
        refine .slot hb hs ?_ ?_ hfwd
        · rw [htag, Nat.zero_add, slotRoot, hb, Option.bind_some, hs, Option.bind_some, hk']
        · rw [hfwd.height, hok.height s (List.mem_of_getElem? hs), hheight, hk']

/-- **Every step keeps the queued headers traceable.** -/
theorem step_queuedHeaders (ht : Traces dep n) (h : step dep n a = some n') {header : Json}
    (hmem : some header ∈ (n'.dst r pid).queueHeader) (hpos : 1 ≤ headerHeight header) :
    HeaderAt (n.chains (dep.relayer r).src.pid) (headerHeight header) header := by
  have hspot := step_spot h r pid
  have hqueue : some header ∈ (n'.spot r pid).tools.queueHeader := hmem
  have hold := ht.headers r pid header
  generalize n'.spot r pid = sp at hspot hqueue
  cases hspot with
  | @block k time block hd res ds hk hfetch hfilter =>
      obtain ⟨hs, fs, hds, hhs, _, _⟩ := (RelayerUnix.filterBlock_run hfilter pid).queues
      dsimp only at hqueue
      rw [hds] at hqueue
      rcases List.mem_append.mp hqueue with hqueue | hnew
      · exact hold hqueue hpos
      · rcases hhs with rfl | ⟨_, rfl⟩
        · cases hnew
        · cases List.mem_singleton.mp hnew
          obtain ⟨_, hinv⟩ := (ht.net.chains (dep.relayer r).src.pid).inv
          obtain ⟨_, hitem, _, _, hwhere⟩ := RelayerUnix.fetched_block hinv
            (ht.net.listening r k hk).1 hfetch
          have hheight : headerHeight header = k := by rw [headerHeight, hitem]
          rw [hheight] at hpos ⊢
          rcases hwhere with ⟨hzero, _⟩ | ⟨b, _, hb, rfl⟩
          · omega
          · exact ⟨b, hb, hfetch.header⟩
  | stopHeader =>
      rcases List.mem_append.mp hqueue with hqueue | hnew
      · exact hold hqueue hpos
      · cases List.mem_singleton.mp hnew
  | dealHeader haction hdst halive hround =>
      have hrest : ∀ {x : Option Json} {rest : List (Option Json)},
          (n.dst r pid).queueHeader = x :: rest → some header ∈ rest →
          HeaderAt (n.chains (dep.relayer r).src.pid) (headerHeight header) header := by
        intro x rest hq hin
        exact hold (by rw [hq]; exact List.mem_cons_of_mem _ hin) hpos
      cases hround with
      | stop hq => exact hrest hq hqueue
      | sent hq _ _ => exact hrest hq hqueue
      | failed hq _ => exact hrest hq hqueue
  | takeXtx hdst halive hnone hround =>
      cases hround with
      | stop => exact hold hqueue hpos
      | taken => exact hold hqueue hpos
      | failed => exact hold hqueue hpos
  | elsewhere => exact hold hqueue hpos
  | started => exact hold hqueue hpos
  | retry => exact hold hqueue hpos
  | stopListen => exact hold hqueue hpos
  | stopXtx => exact hold hqueue hpos
  | advance => exact hold hqueue hpos

/-- **Every step keeps the queued transactions traceable.** -/
theorem step_queuedXtxs (ht : Traces dep n) (h : step dep n a = some n') {e : Root × Transaction}
    (hmem : some e ∈ (n'.dst r pid).queueXtx) :
    CopyOf (n.chains (dep.relayer r).src.pid) (dep.relayer r).src.pid e.1 e.2 := by
  have hspot := step_spot h r pid
  have hqueue : some e ∈ (n'.spot r pid).tools.queueXtx := hmem
  have hold := ht.queue r pid e
  generalize n'.spot r pid = sp at hspot hqueue
  cases hspot with
  | @block k time block hd res ds hk hfetch hfilter =>
      obtain ⟨hs, fs, hds, _, hfs, _⟩ := (RelayerUnix.filterBlock_run hfilter pid).queues
      dsimp only at hqueue
      rw [hds] at hqueue
      rcases List.mem_append.mp hqueue with hqueue | hnew
      · exact hold hqueue
      · obtain ⟨e', he', heq⟩ := List.mem_map.mp hnew
        cases heq
        exact copyOf_forwards ht.net hk hfetch (hfs.subset he')
  | stopXtx =>
      rcases List.mem_append.mp hqueue with hqueue | hnew
      · exact hold hqueue
      · cases List.mem_singleton.mp hnew
  | takeXtx hdst halive hnone hround =>
      have hrest : ∀ {x : Option (Root × Transaction)} {rest : List (Option (Root × Transaction))},
          (n.dst r pid).queueXtx = x :: rest → some e ∈ rest →
          CopyOf (n.chains (dep.relayer r).src.pid) (dep.relayer r).src.pid e.1 e.2 := by
        intro x rest hq hin
        exact hold (by rw [hq]; exact List.mem_cons_of_mem _ hin)
      cases hround with
      | stop hq => exact hrest hq hqueue
      | taken hq _ => exact hrest hq hqueue
      | failed hq => exact hrest hq hqueue
  | dealHeader haction hdst halive hround =>
      cases hround with
      | stop => exact hold hqueue
      | sent => exact hold hqueue
      | failed => exact hold hqueue
  | elsewhere => exact hold hqueue
  | started => exact hold hqueue
  | retry => exact hold hqueue
  | stopListen => exact hold hqueue
  | stopHeader => exact hold hqueue
  | advance => exact hold hqueue

omit [Contracts] [Sha256] in
/-- The tools after a relayer changed where it listens. -/
theorem setRelayer_tools {r' : ι} {rl : Relayer Root} (h : rl.dsts = (n.relayers r').dsts) :
    (n.setRelayer r' rl).dst r pid = n.dst r pid := by
  unfold dst
  by_cases hr : r = r'
  · subst hr
    rw [setRelayer_self, h]
  · rw [setRelayer_ne hr]

/-- **Only the head of the loop takes a transaction in hand.** -/
theorem step_oldHand (h : step dep n a = some n') (hno : ∀ link time, a ≠ .takeXtx r pid link time)
    {hand : Dealing Root} (hdeal : (n'.dst r pid).xtxTask.dealing = some hand) :
    ∃ old w, (n.dst r pid).xtxTask.dealing = some old ∧ hand = { old with wait := w } := by
  have hsame : n'.dst r pid = n.dst r pid →
      ∃ old w, (n.dst r pid).xtxTask.dealing = some old ∧ hand = { old with wait := w } := by
    intro heq
    rw [heq] at hdeal
    exact ⟨hand, hand.wait, hdeal, rfl⟩
  have hother : ∀ {r' : ι} {p : Int} {d : DstTool Root}, ¬ (r = r' ∧ pid = p) →
      (n.setDst r' p d).dst r pid = n.dst r pid :=
    fun hne => setDst_other (not_and_or.mp hne) _ n
  cases step_cases h with
  | chain => exact hsame rfl
  | start _ hstart =>
      apply hsame
      rcases hstart with rfl | rfl
      · exact setRelayer_tools rfl
      · exact setRelayer_tools rfl
  | stopListen => exact hsame (setRelayer_tools rfl)
  | @listen r' link time k rl hk hround =>
      -- filtering changes the queues only
      have hblock : ∀ {block : Block} {header : Json} {res : Except Exn Nat}
          {ds : Int → DstTool Root} {l : Listen}, RelayerUnix.filterBlock (dep.relayer r') time
            (slotRoot (dep.relayer r').src.pid (n.chains (dep.relayer r').src.pid) k) block header
            (n.relayers r').dsts = (res, ds) →
          rl = { n.relayers r' with listen := l, dsts := ds } →
          ∃ old w, (n.dst r pid).xtxTask.dealing = some old ∧ hand = { old with wait := w } := by
        intro block header res ds l hfilter hrl
        by_cases hr : r = r'
        · subst hr
          obtain ⟨hs, fs, hds, _⟩ := (RelayerUnix.filterBlock_run hfilter pid).queues
          rw [dst, setRelayer_self, hrl] at hdeal
          dsimp only at hdeal
          rw [hds] at hdeal
          exact ⟨hand, hand.wait, hdeal, rfl⟩
        · apply hsame
          rw [dst, setRelayer_ne hr]
          rfl
      cases hround with
      | retry => exact hsame (setRelayer_tools rfl)
      | fetched _ hfilter => exact hblock hfilter rfl
      | raised _ hfilter => exact hblock hfilter rfl
  | stopHeader r' p =>
      by_cases hmine : r = r' ∧ pid = p
      · obtain ⟨rfl, rfl⟩ := hmine
        rw [setDst_self] at hdeal
        exact ⟨hand, hand.wait, hdeal, rfl⟩
      · exact hsame (hother hmine)
  | stopXtx r' p =>
      by_cases hmine : r = r' ∧ pid = p
      · obtain ⟨rfl, rfl⟩ := hmine
        rw [setDst_self] at hdeal
        exact ⟨hand, hand.wait, hdeal, rfl⟩
      · exact hsame (hother hmine)
  | @dealHeader r' p link time put dst d c hdst halive hround =>
      by_cases hmine : r = r' ∧ pid = p
      · obtain ⟨rfl, rfl⟩ := hmine
        rw [setChain_dst, setDst_self] at hdeal
        cases hround with
        | stop => exact ⟨hand, hand.wait, hdeal, rfl⟩
        | sent => exact ⟨hand, hand.wait, hdeal, rfl⟩
        | failed => exact ⟨hand, hand.wait, hdeal, rfl⟩
      · exact hsame (hother hmine)
  | @takeXtx r' p link time dst d =>
      by_cases hmine : r = r' ∧ pid = p
      · obtain ⟨rfl, rfl⟩ := hmine
        exact absurd rfl (hno link time)
      · exact hsame (hother hmine)
  | @advance r' p link time put dst old t cs hdst halive hold hround =>
      by_cases hmine : r = r' ∧ pid = p
      · obtain ⟨rfl, rfl⟩ := hmine
        have hdeal' : ((n.setDst r pid { n.dst r pid with xtxTask := t }).dst r pid).xtxTask.dealing
            = some hand := hdeal
        rw [setDst_self] at hdeal'
        obtain ⟨w, rfl⟩ := advance_hand hround hold hdeal'
        exact ⟨old, w, hold, rfl⟩
      · exact hsame (hother hmine)

theorem step_takeXtx {link : Link} {time : PyFloat}
    (h : step dep n (.takeXtx r pid link time) = some n') {hand : Dealing Root}
    (hdeal : (n'.dst r pid).xtxTask.dealing = some hand) :
    RelayerUnix.ProvenState hand.xtx hand.state
      ∧ some (hand.tag, hand.xtx) ∈ (n.dst r pid).queueXtx := by
  rw [step] at h
  split at h
  next dst hdst =>
      obtain ⟨⟨d, c⟩, htake, rfl⟩ := Option.map_eq_some_iff.mp h
      rw [setChain_dst, setDst_self] at hdeal
      exact RelayerUnix.takeXtx_state htake hdeal
  next => cases h

/-- **Every step keeps what is in hand traceable.** -/
theorem step_tracedHand (ht : Traces dep n) (h : step dep n a = some n') {hand : Dealing Root}
    (hdeal : (n'.dst r pid).xtxTask.dealing = some hand) :
    CopyOf (n.chains (dep.relayer r).src.pid) (dep.relayer r).src.pid hand.tag hand.xtx
      ∧ RelayerUnix.ProvenState hand.xtx hand.state := by
  by_cases hno : ∀ link time, a ≠ .takeXtx r pid link time
  · obtain ⟨old, w, hold, rfl⟩ := step_oldHand h hno hdeal
    exact ht.hands r pid old hold
  · push Not at hno
    obtain ⟨link, time, rfl⟩ := hno
    obtain ⟨hstate, hqueue⟩ := step_takeXtx h hdeal
    exact ⟨ht.queue r pid _ hqueue, hstate⟩

theorem step_traces (ht : Traces dep n) (h : step dep n a = some n') : Traces dep n' := by
  have hext : Extends n n' := fun p => step_extends h p
  constructor
  · exact step_netOk ht.net h
  · exact fun r pid header hmem hpos => (step_queuedHeaders ht h hmem hpos).mono (hext _)
  · exact fun r pid e hmem => (step_queuedXtxs ht h hmem).mono (hext _)
  · intro r pid hand hdeal
    obtain ⟨hcopy, hstate⟩ := step_tracedHand ht h hdeal
    exact ⟨hcopy.mono (hext _), hstate⟩
  · intro p e he
    rcases accepted_effect (step_chain h p) e he with hold | hclient | ⟨tx, hsend, heq⟩
    · exact (ht.accepted p e hold).mono hext
    · rw [hclient]
      trivial
    · rw [heq]
      exact (ht.sends hsend).mono hext

/-! ## §4. Every run. -/

omit [DecidableEq ι] [Contracts] in
theorem Started.traces (h : Started n) : Traces dep n where
  net := h.netOk dep
  headers r pid header hmem := by
    rw [dst, h.relayers r] at hmem
    cases hmem
  queue r pid e hmem := by
    rw [dst, h.relayers r] at hmem
    cases hmem
  hands r pid hand hdeal := by
    rw [dst, h.relayers r] at hdeal
    cases hdeal
  accepted p e he := by
    rw [h.clients p e he]
    trivial

/-- **In every run everything that relayers sent can be traced back.** -/
theorem run_traces {n0 : Net ι} {acts : List (Action ι)} (h0 : Started n0)
    (hrun : runFrom (step dep) n0 acts = some n) : Traces dep n :=
  run_invariant (fun _ _ _ ht hs => step_traces ht hs) acts hrun h0.traces

end Net

end TorSim
