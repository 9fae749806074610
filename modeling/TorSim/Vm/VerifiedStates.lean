/-
  TorSim.Vm.VerifiedStates — the states a light client keeps under one header.

  `validate_state` counts the states under a header from `1` and writes each to the next
  place, with the count at place `0`.  The keys of one header hold a list then, which
  grows at its end, and only by calls for this header.

  Main results:
    * `StatesAt.validate` — **a state joins the others**.
    * `validate_other` / `call_keeps_states` — no other call changes them.
    * `StatesFrom.validate` / `StatesFrom.call` — what the states of all headers are from.
-/
import TorSim.Vm.LightClientTables

namespace TorSim

open TorSim.Lib

namespace CtrLightClient

/-! ## §1. One header. -/

/-- The states under the header of height `h` of chain `p`. -/
structure StatesAt (st : BaseStore) (p h : Int) (states : List String) : Prop where
  count : st.get (stateKey (.int p) (.int h) (.int 0))
    = if states = [] then none else some (toString (states.length : Int))
  entries : ∀ i : Nat, st.get (stateKey (.int p) (.int h) (.int ((i + 1 : Nat) : Int))) = states[i]?

/-- The keys of the states under this header are as before. -/
def SameStates (p h : Int) (st st' : BaseStore) : Prop :=
  ∀ i : Int, 0 ≤ i →
    st'.get (stateKey (.int p) (.int h) (.int i)) = st.get (stateKey (.int p) (.int h) (.int i))

variable {st st' : BaseStore} {p h : Int} {states : List String}

theorem statesAt_nil (hnone : ∀ i : Int, 0 ≤ i →
    st.get (stateKey (.int p) (.int h) (.int i)) = none) : StatesAt st p h [] where
  count := hnone 0 (le_refl _)
  entries i := hnone _ (by omega)

theorem StatesAt.congr (hst : StatesAt st p h states) (hsame : SameStates p h st st') :
    StatesAt st' p h states where
  count := (hsame 0 (le_refl _)).trans hst.count
  entries i := (hsame _ (by omega)).trans (hst.entries i)

/-- A state is read back at its place. -/
theorem StatesAt.query (hst : StatesAt st p h states) {i : Int} (hi : 1 ≤ i) {answer : Json}
    (hquery : queryState st (.int p) (.int h) (.int i) = .ok answer) :
    ∃ s ∈ states, answer = .str s := by
  have hplace : i = ((i.toNat - 1 + 1 : Nat) : Int) := by omega
  unfold queryState at hquery
  rw [hplace, hst.entries] at hquery
  cases hs : states[i.toNat - 1]? with
  | none =>
      rw [hs] at hquery
      cases hquery
  | some s =>
      rw [hs] at hquery
      cases hquery
      exact ⟨s, List.mem_of_getElem? hs, rfl⟩

/-- The next place is behind the last. -/
theorem StatesAt.nextIdx (hst : StatesAt st p h states) :
    nextStateIdx st (.int p) (.int h) = .ok ((states.length + 1 : Nat) : Int) := by
  have hread := intOfStr_toString (states.length : Int)
  have hne : toString (states.length : Int) ≠ "" := by
    intro hempty
    rw [hempty] at hread
    cases hread
  unfold nextStateIdx
  rw [hst.count]
  by_cases hnil : states = []
  · subst hnil
    rfl
  · dsimp only
    rw [if_neg hnil, Option.getD_some, if_neg hne, hread]
    simp [bind, Except.bind, pure, Except.pure]

/-- **A state joins the others**, if its header is there. -/
theorem StatesAt.validate (hst : StatesAt st p h states) (hpos : 1 ≤ h)
    (hheader : hasHeader st (.int p) (.int h) = true) (t : Json) (s : String) :
    StatesAt (validateState (.int p) t (.int h) (.str s) st).2 p h (states ++ [s]) := by
  have hne : ∀ {i j : Int}, 0 ≤ i → 0 ≤ j → i ≠ j →
      stateKey (.int p) (.int h) (.int i) ≠ stateKey (.int p) (.int h) (.int j) := by
    intro i j hi hj hij heq
    exact hij ((stateKey_inj (by omega) (by omega) hi hj).mp heq).2.2
  rw [validateState_writes hheader hst.nextIdx]
  constructor
  · rw [BaseStore.get_set_self, if_neg (by simp), List.length_append, List.length_singleton]
  · intro i
    rw [BaseStore.get_set_ne (hne (by omega) (by omega) (by omega))]
    rcases Nat.lt_trichotomy i states.length with hlt | rfl | hgt
    · rw [BaseStore.get_set_ne (hne (by omega) (by omega) (by omega)), hst.entries,
        List.getElem?_append_left hlt]
    · rw [BaseStore.get_set_self, List.getElem?_concat_length]
    · have hnone : states[i]? = none := List.getElem?_eq_none (by omega)
      have hnone' : (states ++ [s])[i]? = none := by
        apply List.getElem?_eq_none
        rw [List.length_append, List.length_singleton]
        omega
      rw [BaseStore.get_set_ne (hne (by omega) (by omega) (by omega)), hst.entries, hnone, hnone']

/-- A state under another header changes nothing here. -/
theorem validate_other {p' h' : Int} (hne : ¬ (p = p' ∧ h = h')) (hpos : 1 ≤ h) (hpos' : 1 ≤ h')
    (hst : StatesAt st p' h' states) (t state : Json) :
    SameStates p h st (validateState (.int p') t (.int h') state st).2 := by
  intro i hi
  have hkey : ∀ {j : Int}, 0 ≤ j →
      stateKey (.int p) (.int h) (.int i) ≠ stateKey (.int p') (.int h') (.int j) := by
    intro j hj heq
    obtain ⟨hp, hh, _⟩ := (stateKey_inj (by omega) (by omega) hi hj).mp heq
    exact hne ⟨hp, hh⟩
  rcases validateState_state (.int p') t (.int h') state st with hs | ⟨cnt, hs⟩
  · rw [hs]
  · obtain ⟨s, _, _, hcnt, heq⟩ := stateWrites_eq_ok hs
    have hplace := Except.ok.inj (hcnt.symm.trans hst.nextIdx)
    rw [heq, BaseStore.get_set_ne (hkey (le_refl _)), BaseStore.get_set_ne (hkey (by omega))]

/-- **The calls that are no `validate_state`** change no state. -/
theorem call_keeps_states {f : Func} (hf : f ≠ .validateState) (ctx : Context) (args : List Json)
    (st : BaseStore) : SameStates p h st (call ctx f args st).2 := by
  intro i _
  have hne : ∀ {k : String}, k.toList.head? ≠ some 's' →
      stateKey (.int p) (.int h) (.int i) ≠ k :=
    fun hk => (stateKey_ne hk _ _ _).symm
  unfold call
  split
  next paraid paratype height header =>
      rcases headerSync_state ctx paraid paratype height header st with hs | hs
      · rw [hs]
      · obtain ⟨cnt, data, _, _, heq⟩ := syncWrites_eq_ok hs
        rw [heq, BaseStore.get_set_ne (hne (by simp [headerKey])),
          BaseStore.get_set_ne (hne (by simp [headerKey]))]
  next => exact absurd rfl hf
  next => exact BaseStore.get_set_ne (hne (by decide)) _ _
  next => exact BaseStore.get_set_ne (hne (by decide)) _ _
  next a b c =>
      rcases appInit_state ctx a b c st with hs | ⟨n, hs⟩
      · rw [hs]
      · rw [hs, BaseStore.get_set_ne (hne (by simp [uvKey]))]
  next => rfl

/-! ## §2. All headers. -/

theorem get_set_isSome {k k' v : String} (h : (st.get k).isSome = true) :
    ((st.set k' v).get k).isSome = true := by
  by_cases hk : k = k'
  · subst hk
    rw [BaseStore.get_set_self]
    rfl
  · rw [BaseStore.get_set_ne hk]
    exact h

/-- No call removes a header. -/
theorem call_hasHeader (ctx : Context) (f : Func) (args : List Json)
    (hheader : hasHeader st (.int p) (.int h) = true) :
    hasHeader (call ctx f args st).2 (.int p) (.int h) = true := by
  unfold hasHeader at hheader ⊢
  unfold call
  split
  next paraid paratype height header =>
      rcases headerSync_state ctx paraid paratype height header st with hs | hs
      · rw [hs]
        exact hheader
      · obtain ⟨cnt, data, _, _, heq⟩ := syncWrites_eq_ok hs
        rw [heq]
        exact get_set_isSome (get_set_isSome hheader)
  next paraid paratype height state =>
      rcases validateState_state paraid paratype height state st with hs | ⟨cnt, hs⟩
      · rw [hs]
        exact hheader
      · obtain ⟨s, _, _, _, heq⟩ := stateWrites_eq_ok hs
        rw [heq]
        exact get_set_isSome (get_set_isSome hheader)
  next => exact get_set_isSome hheader
  next => exact get_set_isSome hheader
  next a b c =>
      rcases appInit_state ctx a b c st with hs | ⟨n, hs⟩
      · rw [hs]
        exact hheader
      · rw [hs]
        exact get_set_isSome hheader
  next => exact hheader

/-- Under every header there are only states that `G` allows there, and none where there is
no header. -/
def StatesFrom (G : Int → Int → String → Prop) (st : BaseStore) : Prop :=
  ∀ p h : Int, 1 ≤ h → ∃ states, StatesAt st p h states
    ∧ (states ≠ [] → hasHeader st (.int p) (.int h) = true) ∧ ∀ s ∈ states, G p h s

variable {G G' : Int → Int → String → Prop}

theorem StatesFrom.mono (hst : StatesFrom G st) (himp : ∀ p h s, G p h s → G' p h s) :
    StatesFrom G' st := by
  intro p h hpos
  obtain ⟨states, hat, hheader, hall⟩ := hst p h hpos
  exact ⟨states, hat, hheader, fun s hs => himp p h s (hall s hs)⟩

/-- A store with the same states and no header less. -/
theorem StatesFrom.congr (hst : StatesFrom G st)
    (hsame : ∀ p h : Int, 1 ≤ h → SameStates p h st st')
    (hkeep : ∀ p h : Int, 1 ≤ h → hasHeader st (.int p) (.int h) = true →
      hasHeader st' (.int p) (.int h) = true) : StatesFrom G st' := by
  intro p h hpos
  obtain ⟨states, hat, hheader, hall⟩ := hst p h hpos
  exact ⟨states, hat.congr (hsame p h hpos), fun hne => hkeep p h hpos (hheader hne), hall⟩

/-- The calls that are no `validate_state`. -/
theorem StatesFrom.call (hst : StatesFrom G st) {f : Func} (hf : f ≠ .validateState) (ctx : Context)
    (args : List Json) : StatesFrom G (call ctx f args st).2 :=
  hst.congr (fun _ _ _ => call_keeps_states hf ctx args st) fun _ _ _ => call_hasHeader ctx f args

/-- **A `validate_state` brings its state under its header**, or nothing. -/
theorem StatesFrom.validate (hst : StatesFrom G st) {p' h' : Int} (hpos' : 1 ≤ h') {s : String}
    (hs : G p' h' s) (t : Json) :
    StatesFrom G (validateState (.int p') t (.int h') (.str s) st).2 := by
  cases hhas : hasHeader st (.int p') (.int h') with
  | false =>
      rw [validateState_keeps (Or.inl hhas)]
      exact hst
  | true =>
      have hkeep : ∀ p h : Int, hasHeader st (.int p) (.int h) = true →
          hasHeader (validateState (.int p') t (.int h') (.str s) st).2 (.int p) (.int h) = true :=
        fun p h => call_hasHeader {} .validateState [.int p', t, .int h', .str s]
      obtain ⟨states', hat', _, hall'⟩ := hst p' h' hpos'
      intro p h hpos
      by_cases hsame : p = p' ∧ h = h'
      · obtain ⟨rfl, rfl⟩ := hsame
        refine ⟨states' ++ [s], hat'.validate hpos hhas t s, fun _ => hkeep p h hhas, ?_⟩
        intro s' hs'
        rcases List.mem_append.mp hs' with hs' | hs'
        · exact hall' s' hs'
        · rw [List.mem_singleton.mp hs']
          exact hs
      · obtain ⟨states, hat, hheader, hall⟩ := hst p h hpos
        exact ⟨states, hat.congr (validate_other hsame hpos hpos' hat' t _),
          fun hne => hkeep p h (hheader hne), hall⟩

end CtrLightClient

end TorSim
