/-
  TorSim.Vm.LightClientHistory — the headers a light client holds after any
  sequence of calls.

  From the freshly initialised contract, whatever is called in whatever order
  and whatever the calls return, a header entry was written by a `header_sync`
  of its chain: one of exactly this height, or, at height `0`, any one, because
  the entry of height `0` is the chain's counter.

  Main results:
    * `run_hasHeader` — one call adds the header it names, and the counter.
    * `runCalls_hasHeader` — **the headers after a sequence of calls**.
    * `passes_only_synced_iff` — when passing the header check means that this
      very header was synchronised.
-/
import TorSim.Vm.LightClientLaws

namespace TorSim

open TorSim.Lib

namespace CtrLightClient

/-! ## §1. Calls. -/

/-- A call with an integer chain id and a natural height. -/
inductive Call where
  | headerSync (paraid : Int) (paratype : Json) (height : Nat) (header : Json)
  | validateState (paraid : Int) (paratype : Json) (height : Nat) (state : Json)
  | setParaid (paraid : Json)
  | setParatype (paratype : Json)
  | appInit (dstChainid dstChaintype appdata : Json)

namespace Call

def func : Call → Func
  | .headerSync .. => .headerSync
  | .validateState .. => .validateState
  | .setParaid _ => .setParaid
  | .setParatype _ => .setParatype
  | .appInit .. => .appInit

def args : Call → List Json
  | .headerSync p t h hd => [.int p, t, .int h, hd]
  | .validateState p t h s => [.int p, t, .int h, s]
  | .setParaid p => [p]
  | .setParatype t => [t]
  | .appInit a b c => [a, b, c]

/-- The call, executed in a block. -/
def run (block : Block) (c : Call) : Comp BaseStore Json := call ⟨some block⟩ c.func c.args

/-- The call synchronises the header of chain `p` at height `h`. -/
def Syncs (p : Int) (h : Nat) (c : Call) : Prop := ∃ t hd, c = .headerSync p t h hd

end Call

/-- The store after a sequence of calls, whatever they returned. -/
def runCalls (st : BaseStore) (calls : List (Block × Call)) : BaseStore :=
  calls.foldl (fun st bc => (bc.2.run bc.1 st).2) st

/-- The store of the freshly initialised contract. -/
def initialStore : BaseStore := (init BaseStore.empty).2

/-- A header of chain `p` and height `h` was synchronised by one of the calls. -/
def SyncedBy (calls : List (Block × Call)) (p : Int) (h : Nat) : Prop :=
  ∃ bc ∈ calls, bc.2.Syncs p h

/-! ## §2. One call. -/

/-- Every counter is a number: no call reads a counter it cannot convert. -/
def CountersOk (st : BaseStore) : Prop :=
  ∀ p : Int, ∃ n, intOfStr ((st.get (headerKey (.int p) (.int 0))).getD "0") = .ok n

/-- **What one call adds**: `header_sync` the header it names and the counter of
its chain, any other call no header. -/
theorem run_hasHeader {st : BaseStore} (hc : CountersOk st) (block : Block) (c : Call)
    (p : Int) (h : Nat) :
    hasHeader (c.run block st).2 (.int p) (.int h) = true
      ↔ hasHeader st (.int p) (.int h) = true ∨ c.Syncs p h
        ∨ (h = 0 ∧ ∃ h', c.Syncs p h') := by
  have other : c.func ≠ .headerSync →
      (hasHeader (c.run block st).2 (.int p) (.int h) = true
        ↔ hasHeader st (.int p) (.int h) = true ∨ c.Syncs p h ∨ (h = 0 ∧ ∃ h', c.Syncs p h')) := by
    intro hf
    have hnot : ∀ h', ¬ c.Syncs p h' := by
      rintro h' ⟨t, hd, rfl⟩
      exact hf rfl
    unfold hasHeader
    rw [Call.run, call_keeps_headers hf]
    simp [hnot]
  cases c with
  | headerSync p' t h' hd =>
      obtain ⟨n, hn⟩ := hc p'
      have hrun : ((Call.headerSync p' t h' hd).run block st).2 = _ :=
        headerSync_writes hn block t h' hd
      have hsyncs : ∀ k, (Call.headerSync p' t h' hd).Syncs p k ↔ p' = p ∧ h' = k := by
        intro k
        constructor
        · rintro ⟨t', hd', heq⟩
          cases heq
          exact ⟨rfl, rfl⟩
        · rintro ⟨rfl, rfl⟩
          exact ⟨t, hd, rfl⟩
      simp only [hsyncs]
      unfold hasHeader
      rw [hrun]
      by_cases h0 : p' = p ∧ h = 0
      · obtain ⟨rfl, rfl⟩ := h0
        refine iff_of_true ?_ (Or.inr (Or.inr ⟨rfl, h', rfl, rfl⟩))
        rw [show ((0 : Nat) : Int) = 0 from rfl, BaseStore.get_set_self]
        rfl
      · have hne0 : headerKey (.int p) (.int h) ≠ headerKey (.int p') (.int 0) := by
          rw [Ne, headerKey_inj (by omega) (by omega)]
          omega
        rw [BaseStore.get_set_ne hne0]
        by_cases hk : p' = p ∧ h' = h
        · obtain ⟨rfl, rfl⟩ := hk
          refine iff_of_true ?_ (Or.inr (Or.inl ⟨rfl, rfl⟩))
          rw [BaseStore.get_set_self]
          rfl
        · have hne : headerKey (.int p) (.int h) ≠ headerKey (.int p') (.int h') := by
            rw [Ne, headerKey_inj (by omega) (by omega)]
            omega
          rw [BaseStore.get_set_ne hne]
          refine ⟨Or.inl, ?_⟩
          rintro (hold | hnew | ⟨rfl, k, rfl, rfl⟩)
          · exact hold
          · exact absurd hnew hk
          · exact absurd ⟨rfl, rfl⟩ h0
  | validateState => exact other (fun hf => nomatch hf)
  | setParaid => exact other (fun hf => nomatch hf)
  | setParatype => exact other (fun hf => nomatch hf)
  | appInit => exact other (fun hf => nomatch hf)

/-- Every call keeps the counters readable. -/
theorem run_countersOk {st : BaseStore} (hc : CountersOk st) (block : Block) (c : Call) :
    CountersOk (c.run block st).2 := by
  intro p
  by_cases hf : c.func = .headerSync
  · cases c with
    | headerSync p' t h hd =>
        obtain ⟨n, hn⟩ := hc p'
        have hrun : ((Call.headerSync p' t h hd).run block st).2 = _ :=
          headerSync_writes hn block t h hd
        rw [hrun]
        by_cases hp : p = p'
        · subst hp
          refine ⟨max n h, ?_⟩
          rw [BaseStore.get_set_self]
          exact intOfStr_toString _
        · have hne : ∀ k : Int, 0 ≤ k → headerKey (.int p) (.int 0) ≠ headerKey (.int p') (.int k) := by
            intro k hk heq
            exact hp ((headerKey_inj (by omega) hk).mp heq).1
          rw [BaseStore.get_set_ne (hne 0 (by omega)), BaseStore.get_set_ne (hne h (by omega))]
          exact hc p
    | _ => cases hf
  · rw [Call.run, call_keeps_headers hf]
    exact hc p

/-! ## §3. Sequences of calls. -/

/-- **The headers after a sequence of calls**: those of the start, those the calls
synchronised, and the counters of the chains they synchronised. -/
theorem runCalls_hasHeader (calls : List (Block × Call)) :
    ∀ st : BaseStore, CountersOk st → ∀ (p : Int) (h : Nat),
      hasHeader (runCalls st calls) (.int p) (.int h) = true
        ↔ hasHeader st (.int p) (.int h) = true ∨ SyncedBy calls p h
          ∨ (h = 0 ∧ ∃ h', SyncedBy calls p h') := by
  induction calls with
  | nil =>
      intro st _ p h
      simp [runCalls, SyncedBy]
  | cons bc calls ih =>
      intro st hc p h
      have hcons : ∀ k, SyncedBy (bc :: calls) p k ↔ bc.2.Syncs p k ∨ SyncedBy calls p k := by
        intro k
        simp [SyncedBy]
      show hasHeader (runCalls (bc.2.run bc.1 st).2 calls) _ _ = true ↔ _
      rw [ih _ (run_countersOk hc bc.1 bc.2) p h, run_hasHeader hc bc.1 bc.2 p h, hcons]
      constructor
      · rintro ((hold | hnew | ⟨h0, k, hk⟩) | hlater | ⟨h0, k, hk⟩)
        · exact Or.inl hold
        · exact Or.inr (Or.inl (Or.inl hnew))
        · exact Or.inr (Or.inr ⟨h0, k, (hcons k).mpr (Or.inl hk)⟩)
        · exact Or.inr (Or.inl (Or.inr hlater))
        · exact Or.inr (Or.inr ⟨h0, k, (hcons k).mpr (Or.inr hk)⟩)
      · rintro (hold | (hnew | hlater) | ⟨h0, k, hk⟩)
        · exact Or.inl (Or.inl hold)
        · exact Or.inl (Or.inr (Or.inl hnew))
        · exact Or.inr (Or.inl hlater)
        · rcases (hcons k).mp hk with hk | hk
          · exact Or.inl (Or.inr (Or.inr ⟨h0, k, hk⟩))
          · exact Or.inr (Or.inr ⟨h0, k, hk⟩)

/-- The timing table holds no header. -/
theorem initialStore_get (p : Int) (h : Nat) :
    initialStore.get (headerKey (.int p) (.int h)) = none := by
  have hne : ∀ k : String, k.toList.head? ≠ some 'h' → headerKey (.int p) (.int h) ≠ k :=
    fun k hk => (headerKey_ne hk _ _).symm
  show (timings.foldl (fun st kv => st.set kv.1 kv.2) BaseStore.empty).get _ = none
  simp only [timings, List.foldl_cons, List.foldl_nil]
  repeat rw [BaseStore.get_set_ne (hne _ (by decide))]
  rfl

theorem initialStore_countersOk : CountersOk initialStore := by
  intro p
  refine ⟨0, ?_⟩
  rw [show (0 : Int) = ((0 : Nat) : Int) from rfl, initialStore_get]
  rfl

/-- The header check of a `validate_state` call passes: the call is not refused
for want of its header. -/
def PassesCheck (st : BaseStore) (p : Int) (t : Json) (h : Nat) (state : Json) : Prop :=
  (validateState (.int p) t (.int h) state st).1
    ≠ .error ⟨.assertion, noHeader (.int p) (.int h)⟩

theorem passesCheck_iff (st : BaseStore) (p : Int) (t : Json) (h : Nat) (state : Json) :
    PassesCheck st p t h state ↔ hasHeader st (.int p) (.int h) = true := by
  rw [PassesCheck, Ne, validateState_noHeader_iff, Bool.not_eq_false]

/-- **Passing the header check means that this very header was synchronised,
except at height `0`**: there the counter that any `header_sync` of the chain
writes passes for a header. -/
theorem passes_only_synced_iff (calls : List (Block × Call)) (p : Int) (t : Json) (h : Nat)
    (state : Json) :
    (PassesCheck (runCalls initialStore calls) p t h state → SyncedBy calls p h)
      ↔ ¬ (h = 0 ∧ ¬ SyncedBy calls p 0 ∧ ∃ h', SyncedBy calls p h') := by
  have hinit : ¬ hasHeader initialStore (.int p) (.int h) = true := by
    rw [hasHeader, initialStore_get]
    decide
  rw [passesCheck_iff, runCalls_hasHeader calls initialStore initialStore_countersOk]
  constructor
  · rintro himp ⟨rfl, hno, hsome⟩
    exact hno (himp (Or.inr (Or.inr ⟨rfl, hsome⟩)))
  · rintro hno (hold | hsync | ⟨rfl, hsome⟩)
    · exact absurd hold hinit
    · exact hsync
    · by_contra hns
      exact hno ⟨rfl, hns, hsome⟩

/-- One `header_sync` of height `10`, and a state of height `0` passes. -/
theorem counter_passes_for_header :
    PassesCheck (runCalls initialStore
        [({ height := 1 }, .headerSync 1 (.str "Tendermint") 10 (.str "header10"))])
      1 (.str "Tendermint") 0 (.str "state")
      ∧ ¬ SyncedBy [({ height := 1 }, .headerSync 1 (.str "Tendermint") 10 (.str "header10"))]
        1 0 := by
  constructor
  · rw [passesCheck_iff]
    decide +kernel
  · rintro ⟨bc, hmem, t, hd, hc⟩
    rw [List.mem_singleton.mp hmem] at hc
    cases hc

end CtrLightClient

end TorSim
