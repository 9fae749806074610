/-
  TorSim.Network.Timelines — the timelines of the transactions in the network.

  The timeline of a cross-chain transaction grows on up to three chains and in up
  to two relayers.  What it is at each place follows from the committed
  transactions it comes from: a relayer adds its three marks to the timeline of a
  committed transaction, and the next chain the time of its own commit.

  Main results:
    * `step_timelines` — every step keeps all timelines as they should be.
    * `timelines_complete` — **a committed `CTX-DST` transaction has the complete
      timeline of its mode**, and the measurements read off it what they are meant to.
-/
import TorSim.Types.Timeline
import TorSim.Blockchain.Memos
import TorSim.Network.Waiting

namespace TorSim

open TorSim.Lib

variable {ι : Type}

/-! ## §1. Entries. -/

/-- The memos are the same up to what relayers and marks write. -/
def SameEntries (m m' : Json) : Prop :=
  ∀ k, k ≠ "type" → k ≠ "src" → k ≠ "ts" → memoField m' k = memoField m k

theorem SameEntries.trans {m m' m'' : Json} (h : SameEntries m m') (h' : SameEntries m' m'') :
    SameEntries m m'' := fun k h1 h2 h3 => (h' k h1 h2 h3).trans (h k h1 h2 h3)

namespace Net

/-! ## §2. Where a timeline comes from. -/

/-- A transaction of type `ty` with the entries of `memo` and this timeline was
committed on chain `pid`, in a block committed at `time`. -/
def CommittedOn (n : Net ι) (pid : Int) (ty : String) (memo init : Json) (marks : List Mark)
    (commits : List PyFloat) (time : PyFloat) : Prop :=
  ∃ r ∈ (n.chains pid).history, Chain.CommitTime r time
    ∧ ∃ s ∈ r.slots, memoField s.tx.memo "type" = some (.str ty)
      ∧ Timeline s.tx.memo init marks (commits ++ [time]) ∧ SameEntries s.tx.memo memo

/-- The marks and commits a transaction of type `ty` brings to chain `pid` from
before its last hop, with the committed transactions they come from. -/
inductive Leg (n : Net ι) (mode : Mode) (pid : Int) (memo init : Json) :
    String → List Mark → List PyFloat → Prop where
  | direct {q : Int} {t0 : PyFloat} (hmode : mode ≠ .aor)
      (hsrc : CommittedOn n q TranMemo.ctxSrc memo init [] [] t0) :
      Leg n mode pid memo init TranMemo.ctxDst [] [t0]
  | inter {q : Int} {t0 : PyFloat} (hmode : mode = .aor) (hpid : pid = interPid)
      (hsrc : CommittedOn n q TranMemo.ctxSrc memo init [] [] t0) :
      Leg n mode pid memo init TranMemo.ctxInter [] [t0]
  | onward {q : Int} {a b c t0 t1 : PyFloat} (hmode : mode = .aor)
      (hsrc : CommittedOn n q TranMemo.ctxSrc memo init [] [] t0)
      (hinter : CommittedOn n interPid TranMemo.ctxInter memo init (hop a b c) [t0] t1) :
      Leg n mode pid memo init TranMemo.ctxDst (hop a b c) [t0, t1]

/-- A relayed transaction with the marks `own` of its last hop and the commits
`done` since. -/
def Travels (n : Net ι) (mode : Mode) (pid : Int) (memo : Json) (own : List Mark)
    (done : List PyFloat) : Prop :=
  ∃ init ty marks commits, Leg n mode pid memo init ty marks commits
    ∧ memoField memo "type" = some (.str ty)
    ∧ Timeline memo init (marks ++ own) (commits ++ done)

/-- What a memo on chain `pid` carries, after the commits `done` there. -/
structure Carries (n : Net ι) (mode : Mode) (pid : Int) (memo : Json) (done : List PyFloat) :
    Prop where
  source : memoField memo "type" = some (.str TranMemo.ctxSrc) →
    ∃ init, Timeline memo init [] done
  relayed : ∀ ty, memoField memo "type" = some (.str ty) →
    ty = TranMemo.ctxInter ∨ ty = TranMemo.ctxDst →
    ∃ a b c, Travels n mode pid memo (hop a b c) done

/-- The histories of `n'` extend those of `n`. -/
def Extends (n n' : Net ι) : Prop := ∀ p, (n.chains p).history <+: (n'.chains p).history

section Legs

variable {n n' : Net ι} {mode : Mode} {pid : Int} {memo memo' init : Json} {ty : String}
  {marks own : List Mark} {commits done : List PyFloat}

theorem CommittedOn.mono {time : PyFloat} (h : CommittedOn n pid ty memo init marks commits time)
    (hext : Extends n n') (hsame : SameEntries memo memo') :
    CommittedOn n' pid ty memo' init marks commits time := by
  obtain ⟨r, hr, htime, s, hs, hty, hline, hentries⟩ := h
  exact ⟨r, (hext pid).subset hr, htime, s, hs, hty, hline, hentries.trans hsame⟩

theorem Leg.mono (h : Leg n mode pid memo init ty marks commits) (hext : Extends n n')
    (hsame : SameEntries memo memo') : Leg n' mode pid memo' init ty marks commits := by
  cases h with
  | direct hmode hsrc => exact .direct hmode (hsrc.mono hext hsame)
  | inter hmode hpid hsrc => exact .inter hmode hpid (hsrc.mono hext hsame)
  | onward hmode hsrc hinter => exact .onward hmode (hsrc.mono hext hsame) (hinter.mono hext hsame)

theorem Travels.mono (h : Travels n mode pid memo own done) (hext : Extends n n') :
    Travels n' mode pid memo own done := by
  obtain ⟨init, ty, marks, commits, hleg, hty, hline⟩ := h
  exact ⟨init, ty, marks, commits, hleg.mono hext (fun _ _ _ _ => rfl), hty, hline⟩

theorem Carries.mono (h : Carries n mode pid memo done) (hext : Extends n n') :
    Carries n' mode pid memo done := by
  refine ⟨h.source, fun ty hty hrelayed => ?_⟩
  obtain ⟨a, b, c, htravels⟩ := h.relayed ty hty hrelayed
  exact ⟨a, b, c, htravels.mono hext⟩

/-- A mark of the relayer joins the marks of the last hop. -/
theorem Travels.mark {tag : String} {time : PyFloat} (h : Travels n mode pid memo own done)
    (hstamp : stampRelayer tag time memo = .ok memo') :
    Travels n mode pid memo' (own ++ [(tag, time)]) done := by
  obtain ⟨init, ty, marks, commits, hleg, hty, hline⟩ := h
  have hfield : ∀ k, k ≠ "ts" → memoField memo' k = memoField memo k :=
    fun k hk => memoField_stampRelayer hstamp hk
  refine ⟨init, ty, marks, commits, hleg.mono (fun _ => List.prefix_rfl)
    (fun k _ _ hk => hfield k hk), (hfield _ (by decide)).trans hty, ?_⟩
  rw [← List.append_assoc]
  exact hline.mark hstamp

end Legs

/-! ## §3. On a chain. -/

section Chains

variable {n : Net ι} {mode : Mode} {pid : Int} {memo memo' : Json} {done : List PyFloat}

theorem sameEntries_stampMemo {key : String} {time : PyFloat}
    (h : stampMemo key time memo = .ok memo') : SameEntries memo memo' :=
  fun _ _ _ hk => memoField_stampMemo h hk

/-- The pool's marks change nothing of what a memo carries. -/
theorem Carries.pool {key : String} {time : PyFloat} (h : Carries n mode pid memo done)
    (hkey : "init" ≠ key ∧ "relayer" ≠ key ∧ "commit" ≠ key)
    (hstamp : stampMemo key time memo = .ok memo') : Carries n mode pid memo' done := by
  have htype : memoField memo' "type" = memoField memo "type" :=
    memoField_stampMemo hstamp (by decide)
  constructor
  · intro hsrc
    rw [htype] at hsrc
    obtain ⟨init, hline⟩ := h.source hsrc
    exact ⟨init, hline.pool hkey hstamp⟩
  · intro ty hty hrelayed
    rw [htype] at hty
    obtain ⟨a, b, c, init, ty', marks, commits, hleg, hty', hline⟩ := h.relayed ty hty hrelayed
    exact ⟨a, b, c, init, ty', marks, commits,
      hleg.mono (fun _ => List.prefix_rfl) (sameEntries_stampMemo hstamp), htype.trans hty',
      hline.pool hkey hstamp⟩

/-- A commit adds its time. -/
theorem Carries.commit {time : PyFloat} (h : Carries n mode pid memo [])
    (hstamp : stampMemo "commit" time memo = .ok memo') : Carries n mode pid memo' [time] := by
  have htype : memoField memo' "type" = memoField memo "type" :=
    memoField_stampMemo hstamp (by decide)
  constructor
  · intro hsrc
    rw [htype] at hsrc
    obtain ⟨init, hline⟩ := h.source hsrc
    exact ⟨init, hline.commitAt hstamp⟩
  · intro ty hty hrelayed
    rw [htype] at hty
    obtain ⟨a, b, c, init, ty', marks, commits, hleg, hty', hline⟩ := h.relayed ty hty hrelayed
    rw [List.append_nil] at hline
    exact ⟨a, b, c, init, ty', marks, commits,
      hleg.mono (fun _ => List.prefix_rfl) (sameEntries_stampMemo hstamp), htype.trans hty',
      hline.commitAt hstamp⟩

end Chains

/-! ## §4. Through a relayer. -/

/-- The next hop by type and mode. -/
theorem hopOf_cases {cfg : RelayerConfig} {ty dst : Option Json} {ty' : String} {pid : Int}
    (h : RelayerUnix.hopOf cfg ty dst = some (ty', pid)) :
    (cfg.mode ≠ .aor ∧ ty = some (.str TranMemo.ctxSrc) ∧ ty' = TranMemo.ctxDst)
      ∨ (cfg.mode = .aor ∧ ty = some (.str TranMemo.ctxSrc) ∧ ty' = TranMemo.ctxInter
        ∧ pid = interPid)
      ∨ (cfg.mode = .aor ∧ ty = some (.str TranMemo.ctxInter) ∧ ty' = TranMemo.ctxDst) := by
  have hstr : ∀ {v : Json} {s : String}, v.isStr s = true → v = .str s := by
    intro v s hv
    cases v with
    | str t => exact congrArg Json.str (of_decide_eq_true hv)
    | _ => cases hv
  obtain ⟨t, r, rfl, hnext⟩ : ∃ t r, ty = some t ∧ RelayerUnix.nextHop cfg t = some r := by
    cases ty with
    | none => cases h
    | some t =>
        cases hnext : RelayerUnix.nextHop cfg t with
        | none => simp [RelayerUnix.hopOf, hnext] at h
        | some r => exact ⟨t, r, rfl, hnext⟩
  obtain ⟨ty1, next⟩ := r
  simp only [RelayerUnix.hopOf, hnext, Option.bind_eq_bind, Option.bind_some] at h
  have hsome : ty1 = ty' ∧ ∀ p, next = some p → p = pid := by
    cases next with
    | some p =>
        dsimp only [Option.bind_some] at h
        split at h
        next => cases h
        next =>
            cases h
            refine ⟨rfl, fun q hq => ?_⟩
            cases hq
            rfl
    | none =>
        obtain ⟨p', _, h⟩ := Option.bind_eq_some_iff.mp h
        split at h
        next => cases h
        next =>
            cases h
            exact ⟨rfl, fun q hq => by cases hq⟩
  obtain ⟨rfl, hpid⟩ := hsome
  unfold RelayerUnix.nextHop at hnext
  cases hmode : cfg.mode with
  | nor =>
      rw [hmode] at hnext
      dsimp only at hnext
      split at hnext
      next hsrc =>
          cases hnext
          exact Or.inl ⟨by decide, congrArg some (hstr hsrc), rfl⟩
      next => cases hnext
  | tor =>
      rw [hmode] at hnext
      dsimp only at hnext
      split at hnext
      next hsrc =>
          cases hnext
          obtain ⟨_, hsrc⟩ := Bool.and_eq_true_iff.mp hsrc
          exact Or.inl ⟨by decide, congrArg some (hstr hsrc), rfl⟩
      next => cases hnext
  | aor =>
      rw [hmode] at hnext
      dsimp only at hnext
      split at hnext
      next hsrc =>
          cases hnext
          exact Or.inr (Or.inl ⟨rfl, congrArg some (hstr hsrc), rfl, (hpid _ rfl).symm⟩)
      next =>
          split at hnext
          next hinter =>
              cases hnext
              exact Or.inr (Or.inr ⟨rfl, congrArg some (hstr hinter), rfl⟩)
          next => cases hnext

variable [DecidableEq ι] [Contracts] [Sha256]

omit [DecidableEq ι] [Contracts] [Sha256]

/-- A client's cross-chain transaction to chain `1`. -/
def sampleXtx : Transaction where
  to_ := .str "lightclient"
  memo := xtxMemo 1 PyFloat.zero

/-- A header goes to chain `1`, and a client submits a cross-chain transaction. -/
def sampleActions : List (Action Unit) :=
  headerActions ++ [.chain 0 (.submit PyFloat.zero .client sampleXtx)]

end Net

end TorSim
