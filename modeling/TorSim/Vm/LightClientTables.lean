/-
  TorSim.Vm.LightClientTables — the tables behind the store of a light client.

  The contract keeps its headers, states and marks as texts under formatted keys
  of one flat store.  What it means is a handful of tables: the heights
  synchronised for each chain, a header and its confirming height for each height,
  a list of states under it, and a mark for each block.  From the fresh contract,
  with heights from one on, the store is the image of the tables, call by call.

  Main definitions:
    * `Tables`, `Tables.step` — the tables and what a call does to them.
    * `Represents` — the store holds the tables.

  Main results:
    * `stateKey_inj` / `uvKey_inj` — which keys coincide.
    * `step_represents` — **one call does the same to both**.
    * `store_refines_tables` — **what the queries answer after any calls**.
-/
import TorSim.Vm.LightClientHistory
import TorSim.Lib.Ladder
import TorSim.Lib.System
import Mathlib.Data.List.Induction

namespace TorSim

open TorSim.Lib

namespace CtrLightClient

/-! ## §1. The tables. -/

/-- What a light client records: heights in the order they were synchronised,
headers with their confirming heights, states, its own type, and the blocks with a
cross-chain call to a chain of another type. -/
structure Tables where
  synced : Int → List Int := fun _ => []
  headers : Int → Int → Option (Json × Int) := fun _ _ => none
  states : Int → Int → List String := fun _ _ => []
  paratype : Option String := none
  uv : Int → Bool := fun _ => false

/-- A table with two keys, changed at one place. -/
def put {α : Type} (p h : Int) (v : α) (f : Int → Int → α) : Int → Int → α :=
  fun q k => if q = p ∧ k = h then v else f q k

@[simp] theorem put_self {α : Type} (p h : Int) (v : α) (f : Int → Int → α) :
    put p h v f p h = v := if_pos ⟨rfl, rfl⟩

theorem put_ne {α : Type} {p h q k : Int} (hne : ¬ (q = p ∧ k = h)) (v : α) (f : Int → Int → α) :
    put p h v f q k = f q k := if_neg hne

namespace Tables

/-- The call is one to a chain of another type than the recorded one. -/
def differs (t : Tables) (dstChainid dstChaintype appdata : Json) : Bool :=
  match dstChaintype, appdata, t.paratype with
  | .str dst, .str _, some own => isInt dstChainid && decide (dst ≠ own)
  | _, _, _ => false

/-- A state joins the others under its header, if the header is there. -/
def addState (t : Tables) (p h : Int) (state : Json) : Tables :=
  match t.headers p h, state with
  | some _, .str s => { t with states := put p h (t.states p h ++ [s]) t.states }
  | _, _ => t

/-- What a call does to the tables. -/
def step (block : Block) (t : Tables) : Call → Tables
  | .headerSync p _ h hd => { t with
      synced := Function.update t.synced p (t.synced p ++ [(h : Int)])
      headers := put p h (some (hd, block.height)) t.headers }
  | .validateState p _ h state => t.addState p h state
  | .setParaid _ => t
  | .setParatype paratype => { t with paratype := some paratype.toStr }
  | .appInit a b c =>
      if t.differs a b c then { t with uv := Function.update t.uv block.height true } else t

/-- A state that is no string is not recorded. -/
theorem addState_notStr {state : Json} (hno : ∀ s, state ≠ .str s) (t : Tables) (p h : Int) :
    t.addState p h state = t := by
  unfold addState
  split
  next s _ => exact absurd rfl (hno s)
  next => rfl

theorem addState_noHeader {t : Tables} {p h : Int} (hno : t.headers p h = none) (state : Json) :
    t.addState p h state = t := by
  unfold addState
  rw [hno]

theorem addState_str {t : Tables} {p h : Int} {r : Json × Int} (hsome : t.headers p h = some r)
    (s : String) :
    t.addState p h (.str s) = { t with states := put p h (t.states p h ++ [s]) t.states } := by
  unfold addState
  rw [hsome]

/-- A state call changes no table but that of the states. -/
theorem addState_eq (t : Tables) (p h : Int) (state : Json) :
    ∃ states, t.addState p h state = { t with states := states } := by
  unfold addState
  split
  next => exact ⟨_, rfl⟩
  next => exact ⟨t.states, rfl⟩

/-- A call of a client changes no table but that of the marks. -/
theorem step_appInit (block : Block) (t : Tables) (a b c : Json) :
    ∃ uv, t.step block (.appInit a b c) = { t with uv := uv } := by
  rw [step]
  split
  next => exact ⟨_, rfl⟩
  next => exact ⟨t.uv, rfl⟩

end Tables

/-! ## §2. Which keys coincide. -/

/-- **State keys of natural heights and indices are distinct.** -/
theorem stateKey_inj {p p' h h' i i' : Int} (hh : 0 ≤ h) (hh' : 0 ≤ h') (hi : 0 ≤ i)
    (hi' : 0 ≤ i') :
    stateKey (.int p) (.int h) (.int i) = stateKey (.int p') (.int h') (.int i')
      ↔ p = p' ∧ h = h' ∧ i = i' := by
  constructor
  · intro heq
    simp only [stateKey, Json.toStr_int] at heq
    obtain ⟨hstate, rfl⟩ := append_dash_int_inj hi hi' heq
    obtain ⟨hp, rfl⟩ := append_dash_int_inj hh hh' hstate
    have hlist := congrArg String.toList hp
    rw [String.toList_append, String.toList_append] at hlist
    have hpl := List.append_cancel_left hlist
    exact ⟨toString_int_injective (String.toList_inj.mp hpl), rfl, rfl⟩
  · rintro ⟨rfl, rfl, rfl⟩
    rfl

/-- Marks of different blocks stand under different keys, for heights of any sign. -/
theorem uvKey_inj {b b' : Int} : uvKey (.int b) = uvKey (.int b') ↔ b = b' := by
  constructor
  · intro heq
    have hlist := congrArg String.toList heq
    simp only [uvKey, Json.toStr_int, String.toList_append] at hlist
    exact toString_int_injective (String.toList_inj.mp (List.append_cancel_left hlist))
  · rintro rfl
    rfl

/-! ## §3. What the other calls write. -/

/-- **What `validate_state` writes** when its header is there and the number of
states can be read: the state behind them, and the new number. -/
theorem validateState_writes {st : BaseStore} {p h n : Int}
    (hheader : hasHeader st (.int p) (.int h) = true)
    (hn : nextStateIdx st (.int p) (.int h) = .ok n) (t : Json) (s : String) :
    (validateState (.int p) t (.int h) (.str s) st).2
      = (st.set (stateKey (.int p) (.int h) (.int n)) s).set
          (stateKey (.int p) (.int h) (.int 0)) (toString n) := by
  have hw : stateWrites (.int p) (.int h) (.str s) st
      = .ok ((st.set (stateKey (.int p) (.int h) (.int n)) s).set
          (stateKey (.int p) (.int h) (.int 0)) (toString n), n) := by
    unfold stateWrites
    rw [hheader, hn]
    rfl
  rw [validateState_run, hw]

/-- Without its header, or with a state that is no string, it writes nothing. -/
theorem validateState_keeps {st : BaseStore} {p h : Int} {state : Json}
    (hno : hasHeader st (.int p) (.int h) = false ∨ ∀ s, state ≠ .str s) (t : Json) :
    (validateState (.int p) t (.int h) state st).2 = st := by
  rcases validateState_state (.int p) t (.int h) state st with hs | ⟨cnt, hs⟩
  · exact hs
  · obtain ⟨s, rfl, hheader, _⟩ := stateWrites_eq_ok hs
    rcases hno with hno | hno
    · rw [hheader] at hno
      cases hno
    · exact absurd rfl (hno s)

/-- **What `app_init` writes** in a block: a mark, if the destination has another
type than the recorded one. -/
theorem appInit_writes {st : BaseStore} {t : Tables} (htype : st.get "paratype" = t.paratype)
    (block : Block) (a b c : Json) :
    (appInit ⟨some block⟩ a b c st).2
      = if t.differs a b c then st.set (uvKey (.int block.height)) "1" else st := by
  unfold appInit
  cases ha : isInt a with
  | false =>
      have hno : t.differs a b c = false := by
        unfold Tables.differs
        split
        next => rw [ha, Bool.false_and]
        next => rfl
      rw [hno]
      rfl
  | true =>
      rw [assertE_true, Comp.lift_ok_bind_run]
      cases b with
      | str dst =>
          cases c with
          | str data =>
              show ((do
                  let st ← Comp.gets id
                  let chaintype ← Comp.lift (chainType st)
                  if (Json.str dst).isStr chaintype then return .null
                  else do
                    Comp.update (fun st => st.set (uvKey (.int block.height)) "1")
                    return .null : Comp BaseStore Json) st).2 = _
              rw [Comp.gets_bind_run]
              unfold chainType Tables.differs
              rw [id, htype, ha]
              cases hp : t.paratype with
              | none => rfl
              | some own =>
                  dsimp only
                  rw [Comp.lift_ok_bind_run]
                  by_cases hd : dst = own
                  · subst hd
                    simp [Json.isStr]
                  · simp [Json.isStr, hd]
          | _ => rfl
      | _ =>
          rfl

/-! ## §4. The store holds the tables. -/

/-- The record of a header, as the store keeps it. -/
def recordText (r : Json × Int) : String :=
  Json.dumps (.obj [("header", r.1), ("cs_height", .int r.2)])

/-- **The store holds the tables**: one clause for each family of keys. -/
structure Represents (st : BaseStore) (t : Tables) : Prop where
  counter : ∀ p, st.get (headerKey (.int p) (.int 0))
    = if t.synced p = [] then none else some (toString (peak 0 (t.synced p)))
  headers : ∀ p h, 1 ≤ h → st.get (headerKey (.int p) (.int h)) = (t.headers p h).map recordText
  count : ∀ p h, 1 ≤ h → st.get (stateKey (.int p) (.int h) (.int 0))
    = if t.states p h = [] then none else some (toString ((t.states p h).length : Int))
  states : ∀ p h, 1 ≤ h → ∀ i : Nat,
    st.get (stateKey (.int p) (.int h) (.int (i + 1 : Nat))) = (t.states p h)[i]?
  paratype : st.get "paratype" = t.paratype
  uv : ∀ b, st.get (uvKey (.int b)) = if t.uv b then some "1" else none

/-- A header key is read as before, as long as only other keys are written. -/
theorem Represents.of_keeps {st st' : BaseStore} {t : Tables} (h : Represents st t)
    (hkeep : ∀ k, (k.toList.head? = some 'h' ∨ k.toList.head? = some 's'
      ∨ k.toList.head? = some 'u') → st'.get k = st.get k)
    (hpara : st'.get "paratype" = st.get "paratype") : Represents st' t where
  counter p := (hkeep _ (Or.inl (by simp [headerKey]))).trans (h.counter p)
  headers p k hk := (hkeep _ (Or.inl (by simp [headerKey]))).trans (h.headers p k hk)
  count p k hk := (hkeep _ (Or.inr (Or.inl (by simp [stateKey])))).trans (h.count p k hk)
  states p k hk i := (hkeep _ (Or.inr (Or.inl (by simp [stateKey])))).trans (h.states p k hk i)
  paratype := hpara.trans h.paratype
  uv b := (hkeep _ (Or.inr (Or.inr (by simp [uvKey])))).trans (h.uv b)

/-- The counter can be read. -/
theorem Represents.counter_read {st : BaseStore} {t : Tables} (h : Represents st t) (p : Int) :
    intOfStr ((st.get (headerKey (.int p) (.int 0))).getD "0") = .ok (peak 0 (t.synced p)) := by
  rw [h.counter]
  by_cases hnil : t.synced p = []
  · rw [if_pos hnil, hnil]
    rfl
  · rw [if_neg hnil]
    exact intOfStr_toString _

/-- The next index is one more than there are states. -/
theorem Represents.nextIdx {st : BaseStore} {t : Tables} (ht : Represents st t) {p h : Int}
    (hh : 1 ≤ h) :
    nextStateIdx st (.int p) (.int h) = .ok (((t.states p h).length + 1 : Nat) : Int) := by
  have hread : intOfStr (if (st.get (stateKey (.int p) (.int h) (.int 0))).getD "" = "" then "0"
      else (st.get (stateKey (.int p) (.int h) (.int 0))).getD "")
      = .ok ((t.states p h).length : Int) := by
    rw [ht.count p h hh]
    by_cases hnil : t.states p h = []
    · rw [if_pos hnil, hnil]
      rfl
    · have hne : toString ((t.states p h).length : Int) ≠ "" := by
        intro h0
        have hread := intOfStr_toString ((t.states p h).length : Int)
        rw [h0] at hread
        cases hread
      rw [if_neg hnil, Option.getD_some, if_neg hne]
      exact intOfStr_toString _
  unfold nextStateIdx
  dsimp only
  rw [hread]
  simp [bind, Except.bind, pure, Except.pure]

theorem Represents.hasHeader {st : BaseStore} {t : Tables} (ht : Represents st t) {p h : Int}
    (hh : 1 ≤ h) : hasHeader st (.int p) (.int h) = (t.headers p h).isSome := by
  rw [CtrLightClient.hasHeader, ht.headers p h hh, Option.isSome_map]

/-- A header joins both. -/
theorem Represents.headerSync {st : BaseStore} {t : Tables} (ht : Represents st t) (block : Block)
    (p : Int) (paratype : Json) {h : Nat} (hh : 1 ≤ h) (hd : Json) :
    Represents (headerSync ⟨some block⟩ (.int p) paratype (.int h) hd st).2
      (t.step block (.headerSync p paratype h hd)) := by
  rw [headerSync_writes (ht.counter_read p) block paratype h hd]
  have hother : ∀ {k : String}, k.toList.head? ≠ some 'h' →
      ((st.set (headerKey (.int p) (.int h))
          (Json.dumps (.obj [("header", hd), ("cs_height", .int block.height)]))).set
        (headerKey (.int p) (.int 0)) (toString (max (peak 0 (t.synced p)) (h : Int)))).get k
      = st.get k := by
    intro k hk
    rw [BaseStore.get_set_ne (headerKey_ne hk _ _), BaseStore.get_set_ne (headerKey_ne hk _ _)]
  refine ⟨fun q => ?_, fun q k hk => ?_, fun q k hk => ?_, fun q k hk i => ?_, ?_, fun b => ?_⟩
  · by_cases hq : q = p
    · subst hq
      simp only [Tables.step, Function.update_self]
      rw [BaseStore.get_set_self, if_neg (by simp), peak_snoc]
    · have hne : ∀ j : Int, 0 ≤ j → headerKey (.int q) (.int 0) ≠ headerKey (.int p) (.int j) :=
        fun j hj heq => hq ((headerKey_inj (by omega) hj).mp heq).1
      simp only [Tables.step, Function.update_of_ne hq]
      rw [BaseStore.get_set_ne (hne 0 (by omega)), BaseStore.get_set_ne (hne h (by omega))]
      exact ht.counter q
  · have hne0 : headerKey (.int q) (.int k) ≠ headerKey (.int p) (.int 0) := by
      intro heq
      have := ((headerKey_inj (by omega) (by omega)).mp heq).2
      omega
    rw [BaseStore.get_set_ne hne0]
    by_cases hqk : q = p ∧ k = h
    · obtain ⟨rfl, rfl⟩ := hqk
      simp only [Tables.step, put_self]
      rw [BaseStore.get_set_self]
      rfl
    · simp only [Tables.step, put_ne hqk]
      rw [BaseStore.get_set_ne (fun heq => hqk ((headerKey_inj (by omega) (by omega)).mp heq))]
      exact ht.headers q k hk
  · rw [hother (by simp [stateKey])]
    exact ht.count q k hk
  · rw [hother (by simp [stateKey])]
    exact ht.states q k hk i
  · rw [hother (by decide)]
    exact ht.paratype
  · rw [hother (by simp [uvKey])]
    exact ht.uv b

/-- A state joins both. -/
theorem Represents.validateState {st : BaseStore} {t : Tables} (ht : Represents st t)
    (block : Block) (p : Int) (paratype : Json) {h : Nat} (hh : 1 ≤ h) (state : Json) :
    Represents (validateState (.int p) paratype (.int h) state st).2
      (t.step block (.validateState p paratype h state)) := by
  have hhas := ht.hasHeader (p := p) (h := h) (by omega)
  cases hheader : t.headers p h with
  | none =>
      rw [hheader] at hhas
      rw [validateState_keeps (Or.inl hhas), Tables.step, Tables.addState_noHeader hheader]
      exact ht
  | some r =>
      rw [hheader] at hhas
      cases state with
      | str s =>
          rw [validateState_writes hhas (ht.nextIdx (by omega)), Tables.step,
            Tables.addState_str hheader]
          have hother : ∀ {k : String}, k.toList.head? ≠ some 's' →
              ((st.set (stateKey (.int p) (.int h)
                (.int (((t.states p h).length + 1 : Nat) : Int))) s).set
                (stateKey (.int p) (.int h) (.int 0))
                (toString (((t.states p h).length + 1 : Nat) : Int))).get k = st.get k := by
            intro k hk
            rw [BaseStore.get_set_ne (stateKey_ne hk _ _ _),
              BaseStore.get_set_ne (stateKey_ne hk _ _ _)]
          refine ⟨fun q => ?_, fun q k hk => ?_, fun q k hk => ?_, fun q k hk i => ?_, ?_,
            fun b => ?_⟩
          · rw [hother (by simp [headerKey])]
            exact ht.counter q
          · rw [hother (by simp [headerKey])]
            exact ht.headers q k hk
          · by_cases hqk : q = p ∧ k = h
            · obtain ⟨rfl, rfl⟩ := hqk
              rw [BaseStore.get_set_self]
              simp only [put_self, List.length_append, List.length_singleton]
              rw [if_neg (by simp)]
            · have hne : ∀ j : Int, 0 ≤ j → stateKey (.int q) (.int k) (.int 0)
                  ≠ stateKey (.int p) (.int h) (.int j) := by
                intro j hj heq
                obtain ⟨h1, h2, _⟩ := (stateKey_inj (by omega) (by omega) (by omega) hj).mp heq
                exact hqk ⟨h1, h2⟩
              rw [BaseStore.get_set_ne (hne 0 (by omega)), BaseStore.get_set_ne (hne _ (by omega))]
              simp only [put_ne hqk]
              exact ht.count q k hk
          · have hne0 : stateKey (.int q) (.int k) (.int ((i + 1 : Nat) : Int))
                ≠ stateKey (.int p) (.int h) (.int 0) := by
              intro heq
              have := ((stateKey_inj (by omega) (by omega) (by omega) (by omega)).mp heq).2.2
              omega
            rw [BaseStore.get_set_ne hne0]
            by_cases hqk : q = p ∧ k = h
            · obtain ⟨rfl, rfl⟩ := hqk
              simp only [put_self]
              by_cases hi : i = (t.states q h).length
              · subst hi
                rw [BaseStore.get_set_self, List.getElem?_concat_length]
              · rw [BaseStore.get_set_ne, ht.states q h (by omega) i]
                · rcases Nat.lt_or_gt_of_ne hi with hlt | hgt
                  · rw [List.getElem?_append_left hlt]
                  · rw [List.getElem?_eq_none (by omega), List.getElem?_eq_none (by simp; omega)]
                · intro heq
                  have := ((stateKey_inj (by omega) (by omega) (by omega) (by omega)).mp heq).2.2
                  omega
            · simp only [put_ne hqk]
              rw [BaseStore.get_set_ne]
              · exact ht.states q k hk i
              · intro heq
                obtain ⟨h1, h2, _⟩ :=
                  (stateKey_inj (by omega) (by omega) (by omega) (by omega)).mp heq
                exact hqk ⟨h1, h2⟩
          · rw [hother (by decide)]
            exact ht.paratype
          · rw [hother (by simp [uvKey])]
            exact ht.uv b
      | _ =>
          rw [validateState_keeps (Or.inr (by simp)), Tables.step,
            Tables.addState_notStr (by simp)]
          exact ht

/-- A mark joins both. -/
theorem Represents.appInit {st : BaseStore} {t : Tables} (ht : Represents st t) (block : Block)
    (a b c : Json) :
    Represents (appInit ⟨some block⟩ a b c st).2 (t.step block (.appInit a b c)) := by
  rw [appInit_writes ht.paratype, Tables.step]
  cases t.differs a b c with
  | false => exact ht
  | true =>
      simp only [if_true]
      have hother : ∀ {k : String}, k.toList.head? ≠ some 'u' →
          (st.set (uvKey (.int block.height)) "1").get k = st.get k :=
        fun hk => BaseStore.get_set_ne (uvKey_ne hk _) _ _
      refine ⟨fun q => ?_, fun q k hk => ?_, fun q k hk => ?_, fun q k hk i => ?_, ?_, fun n => ?_⟩
      · rw [hother (by simp [headerKey])]
        exact ht.counter q
      · rw [hother (by simp [headerKey])]
        exact ht.headers q k hk
      · rw [hother (by simp [stateKey])]
        exact ht.count q k hk
      · rw [hother (by simp [stateKey])]
        exact ht.states q k hk i
      · rw [hother (by decide)]
        exact ht.paratype
      · dsimp only
        by_cases hn : n = block.height
        · subst hn
          rw [BaseStore.get_set_self]
          simp only [Function.update_self, if_true]
        · rw [BaseStore.get_set_ne (fun heq => hn (uvKey_inj.mp heq))]
          simp only [Function.update_of_ne hn]
          exact ht.uv n

/-- The heights of the call are positive: height `0` is the counter's. -/
def Call.Positive : Call → Prop
  | .headerSync _ _ h _ => 1 ≤ h
  | .validateState _ _ h _ => 1 ≤ h
  | _ => True

/-- **One call does the same to the store and to the tables.** -/
theorem step_represents {st : BaseStore} {t : Tables} (ht : Represents st t) (block : Block)
    {c : Call} (hc : c.Positive) : Represents (c.run block st).2 (t.step block c) := by
  cases c with
  | headerSync p paratype h hd => exact ht.headerSync block p paratype hc hd
  | validateState p paratype h state => exact ht.validateState block p paratype hc state
  | setParaid p =>
      have hkeep : ∀ {k : String}, k ≠ "paraid" → (st.set "paraid" p.toStr).get k = st.get k :=
        fun hk => BaseStore.get_set_ne hk _ _
      refine ht.of_keeps (fun k hk => hkeep ?_) (hkeep (by decide))
      rintro rfl
      revert hk
      decide
  | setParatype p =>
      have hkeep : ∀ {k : String}, k ≠ "paratype" → (st.set "paratype" p.toStr).get k = st.get k :=
        fun hk => BaseStore.get_set_ne hk _ _
      refine ⟨fun q => ?_, fun q k hk => ?_, fun q k hk => ?_, fun q k hk i => ?_,
        BaseStore.get_set_self _ _ _, fun b => ?_⟩
      · exact (hkeep (headerKey_ne (by decide) _ _).symm).trans (ht.counter q)
      · exact (hkeep (headerKey_ne (by decide) _ _).symm).trans (ht.headers q k hk)
      · exact (hkeep (stateKey_ne (by decide) _ _ _).symm).trans (ht.count q k hk)
      · exact (hkeep (stateKey_ne (by decide) _ _ _).symm).trans (ht.states q k hk i)
      · exact (hkeep (uvKey_ne (by decide) _).symm).trans (ht.uv b)
  | appInit a b c => exact ht.appInit block a b c

/-! ## §5. Sequences of calls. -/

/-- The tables after a sequence of calls. -/
def tablesOf (calls : List (Block × Call)) : Tables :=
  calls.foldl (fun t bc => t.step bc.1 bc.2) {}

theorem tablesOf_snoc (calls : List (Block × Call)) (bc : Block × Call) :
    tablesOf (calls ++ [bc]) = (tablesOf calls).step bc.1 bc.2 := by
  rw [tablesOf, List.foldl_append]
  rfl

/-- The fresh store holds the empty tables. -/
theorem initialStore_represents : Represents initialStore {} := by
  have hkey : ∀ k : String, (k.toList.head? = some 'h' ∨ k.toList.head? = some 's'
      ∨ k.toList.head? = some 'u' ∨ k.toList.head? = some 'p') → initialStore.get k = none := by
    intro k hk
    have hne : ∀ key : String, (key.toList.head? = some 'E' ∨ key.toList.head? = some 'T') →
        k ≠ key := by
      rintro key hE rfl
      rcases hE with hE | hE <;> rw [hE] at hk <;> revert hk <;> decide
    show (timings.foldl (fun st kv => st.set kv.1 kv.2) BaseStore.empty).get _ = none
    simp only [timings, List.foldl_cons, List.foldl_nil]
    repeat rw [BaseStore.get_set_ne (hne _ (by decide))]
    rfl
  refine ⟨fun p => ?_, fun p h _ => ?_, fun p h _ => ?_, fun p h _ i => ?_, ?_, fun b => ?_⟩
  · exact hkey _ (Or.inl (by simp [headerKey]))
  · exact hkey _ (Or.inl (by simp [headerKey]))
  · exact hkey _ (Or.inr (Or.inl (by simp [stateKey])))
  · exact hkey _ (Or.inr (Or.inl (by simp [stateKey])))
  · exact hkey _ (Or.inr (Or.inr (Or.inr (by decide))))
  · exact hkey _ (Or.inr (Or.inr (Or.inl (by simp [uvKey]))))

/-- **The store is the image of the tables after any calls.** -/
theorem runCalls_represents (calls : List (Block × Call))
    (hpos : ∀ bc ∈ calls, bc.2.Positive) :
    Represents (runCalls initialStore calls) (tablesOf calls) := by
  have hstep : ∀ (st : BaseStore) (t : Tables) (bc : Block × Call), bc.2.Positive →
      Represents st t → Represents (bc.2.run bc.1 st).2 (t.step bc.1 bc.2) :=
    fun _ _ bc hbc ht => step_represents ht bc.1 hbc
  exact foldl_simulates hstep calls hpos initialStore_represents

/-- The height, if the call synchronises a header of chain `p`. -/
def syncedHeight (p : Int) (bc : Block × Call) : Option Int :=
  match bc.2 with
  | .headerSync q _ h _ => if q = p then some h else none
  | _ => none

/-- The header and the block's height, if the call synchronises this header. -/
def syncedRecord (p h : Int) (bc : Block × Call) : Option (Json × Int) :=
  match bc.2 with
  | .headerSync q _ k hd => if q = p ∧ (k : Int) = h then some (hd, bc.1.height) else none
  | _ => none

/-- The type the call records. -/
def recordedType (bc : Block × Call) : Option String :=
  match bc.2 with
  | .setParatype t => some t.toStr
  | _ => none

/-- The state the call brings for this header. -/
def broughtState (p h : Int) (bc : Block × Call) : List String :=
  match bc.2 with
  | .validateState q _ k (.str s) => if q = p ∧ (k : Int) = h then [s] else []
  | _ => []

theorem tablesOf_synced (p : Int) (calls : List (Block × Call)) :
    (tablesOf calls).synced p = calls.filterMap (syncedHeight p) := by
  induction calls using List.reverseRecOn with
  | nil => rfl
  | append_singleton calls bc ih =>
      rw [tablesOf_snoc, List.filterMap_append, ← ih]
      obtain ⟨block, c⟩ := bc
      cases c with
      | headerSync q t h hd =>
          by_cases hq : q = p
          · subst hq
            simp [Tables.step, syncedHeight]
          · simp [Tables.step, syncedHeight, hq, Function.update_of_ne (Ne.symm hq)]
      | validateState q t h state =>
          obtain ⟨states, hstep⟩ := (tablesOf calls).addState_eq q h state
          simp [Tables.step, hstep, syncedHeight]
      | setParaid q => simp [Tables.step, syncedHeight]
      | setParatype t => simp [Tables.step, syncedHeight]
      | appInit a b c =>
          obtain ⟨uv, hstep⟩ := (tablesOf calls).step_appInit block a b c
          simp [hstep, syncedHeight]

theorem tablesOf_headers (p h : Int) (calls : List (Block × Call)) :
    (tablesOf calls).headers p h = (calls.filterMap (syncedRecord p h)).getLast? := by
  induction calls using List.reverseRecOn with
  | nil => rfl
  | append_singleton calls bc ih =>
      rw [tablesOf_snoc, List.filterMap_append, List.getLast?_append, ← ih]
      obtain ⟨block, c⟩ := bc
      cases c with
      | headerSync q t k hd =>
          by_cases hq : q = p ∧ (k : Int) = h
          · obtain ⟨rfl, rfl⟩ := hq
            simp [Tables.step, syncedRecord]
          · have hne : ¬ (p = q ∧ h = k) := fun heq => hq ⟨heq.1.symm, heq.2.symm⟩
            simp [Tables.step, syncedRecord, hq, put_ne hne]
      | validateState q t k state =>
          obtain ⟨states, hstep⟩ := (tablesOf calls).addState_eq q k state
          simp [Tables.step, hstep, syncedRecord]
      | setParaid q => simp [Tables.step, syncedRecord]
      | setParatype t => simp [Tables.step, syncedRecord]
      | appInit a b c =>
          obtain ⟨uv, hstep⟩ := (tablesOf calls).step_appInit block a b c
          simp [hstep, syncedRecord]

theorem tablesOf_paratype (calls : List (Block × Call)) :
    (tablesOf calls).paratype = (calls.filterMap recordedType).getLast? := by
  induction calls using List.reverseRecOn with
  | nil => rfl
  | append_singleton calls bc ih =>
      rw [tablesOf_snoc, List.filterMap_append, List.getLast?_append, ← ih]
      obtain ⟨block, c⟩ := bc
      cases c with
      | headerSync q t k hd => simp [Tables.step, recordedType]
      | validateState q t k state =>
          obtain ⟨states, hstep⟩ := (tablesOf calls).addState_eq q k state
          simp [Tables.step, hstep, recordedType]
      | setParaid q => simp [Tables.step, recordedType]
      | setParatype t => simp [Tables.step, recordedType]
      | appInit a b c =>
          obtain ⟨uv, hstep⟩ := (tablesOf calls).step_appInit block a b c
          simp [hstep, recordedType]

/-- **States only join at the end**, and only where their header is there. -/
theorem tablesOf_states (p h : Int) (calls : List (Block × Call)) (bc : Block × Call) :
    (tablesOf (calls ++ [bc])).states p h = (tablesOf calls).states p h
      ++ if ((tablesOf calls).headers p h).isSome then broughtState p h bc else [] := by
  rw [tablesOf_snoc]
  obtain ⟨block, c⟩ := bc
  cases c with
  | validateState q t k state =>
      by_cases hstr : ∃ s, state = .str s
      · obtain ⟨s, rfl⟩ := hstr
        by_cases hq : q = p ∧ (k : Int) = h
        · obtain ⟨rfl, rfl⟩ := hq
          cases hh : (tablesOf calls).headers q k <;>
            simp [Tables.step, Tables.addState, broughtState, hh]
        · have hne : ¬ (p = q ∧ h = k) := fun heq => hq ⟨heq.1.symm, heq.2.symm⟩
          cases hh : (tablesOf calls).headers q k <;>
            simp [Tables.step, Tables.addState, broughtState, hh, hq, put_ne hne]
      · have hno : ∀ s, state ≠ .str s := fun s hs => hstr ⟨s, hs⟩
        rw [Tables.step, Tables.addState_notStr hno]
        cases state with
        | str s => exact absurd rfl (hno s)
        | _ => simp [broughtState]
  | headerSync q t k hd => simp [Tables.step, broughtState]
  | setParaid q => simp [Tables.step, broughtState]
  | setParatype t => simp [Tables.step, broughtState]
  | appInit a b c =>
      obtain ⟨uv, hstep⟩ := (tablesOf calls).step_appInit block a b c
      simp [hstep, broughtState]

/-- In a block of height `b`, a client called a chain of another type than the
recorded one. -/
def MarkedBy (calls : List (Block × Call)) (b : Int) : Prop :=
  ∃ pre block a dst data post, calls = pre ++ (block, .appInit a (.str dst) (.str data)) :: post
    ∧ block.height = b ∧ isInt a = true
    ∧ ∃ own, (pre.filterMap recordedType).getLast? = some own ∧ dst ≠ own

theorem differs_iff (t : Tables) (a b c : Json) : t.differs a b c = true
    ↔ ∃ dst data own, b = .str dst ∧ c = .str data ∧ t.paratype = some own
      ∧ isInt a = true ∧ dst ≠ own := by
  unfold Tables.differs
  split
  next dst data own hown =>
      rw [Bool.and_eq_true_iff, decide_eq_true_iff]
      constructor
      · exact fun ⟨ha, hne⟩ => ⟨dst, data, own, rfl, rfl, hown, ha, hne⟩
      · rintro ⟨dst', data', own', hdst, _, hown', ha, hne⟩
        cases hdst
        cases hown.symm.trans hown'
        exact ⟨ha, hne⟩
  next hno =>
      refine iff_of_false (by decide) ?_
      rintro ⟨dst, data, own, rfl, rfl, hown, _⟩
      exact hno dst data own rfl rfl hown

theorem markedBy_snoc (calls : List (Block × Call)) (bc : Block × Call) (b : Int) :
    MarkedBy (calls ++ [bc]) b ↔ MarkedBy calls b
      ∨ ∃ block a dst data, bc = (block, .appInit a dst data) ∧ block.height = b
        ∧ (tablesOf calls).differs a dst data = true := by
  constructor
  · rintro ⟨pre, block, a, dst, data, post, heq, hb, ha, own, hown, hne⟩
    rcases List.eq_nil_or_concat post with rfl | ⟨post, last, rfl⟩
    · obtain ⟨rfl, hlast⟩ := List.append_inj' heq rfl
      cases hlast
      refine Or.inr ⟨block, a, .str dst, .str data, rfl, hb, ?_⟩
      rw [differs_iff]
      exact ⟨dst, data, own, rfl, rfl, (tablesOf_paratype calls).trans hown, ha, hne⟩
    · rw [List.concat_eq_append, ← List.cons_append, ← List.append_assoc] at heq
      obtain ⟨rfl, _⟩ := List.append_inj' heq rfl
      exact Or.inl ⟨pre, block, a, dst, data, post, rfl, hb, ha, own, hown, hne⟩
  · rintro (⟨pre, block, a, dst, data, post, rfl, hrest⟩ | ⟨block, a, dst, data, rfl, hb, hd⟩)
    · exact ⟨pre, block, a, dst, data, post ++ [bc], by simp, hrest⟩
    · obtain ⟨dst, data, own, rfl, rfl, hown, ha, hne⟩ := (differs_iff _ _ _ _).mp hd
      exact ⟨calls, block, a, dst, data, [], rfl, hb, ha, own,
        (tablesOf_paratype calls).symm.trans hown, hne⟩

theorem tablesOf_uv (b : Int) (calls : List (Block × Call)) :
    (tablesOf calls).uv b = true ↔ MarkedBy calls b := by
  induction calls using List.reverseRecOn with
  | nil =>
      refine iff_of_false (fun h => nomatch h) ?_
      rintro ⟨pre, block, a, dst, data, post, heq, _⟩
      cases pre <;> cases heq
  | append_singleton calls bc ih =>
      rw [tablesOf_snoc, markedBy_snoc, ← ih]
      obtain ⟨block, c⟩ := bc
      have hother : (∀ a dst data, c ≠ .appInit a dst data) →
          ((tablesOf calls).step block c).uv = (tablesOf calls).uv →
          (((tablesOf calls).step block c).uv b = true ↔ (tablesOf calls).uv b = true
            ∨ ∃ block' a dst data, (block, c) = (block', Call.appInit a dst data)
              ∧ block'.height = b ∧ (tablesOf calls).differs a dst data = true) := by
        intro hno hsame
        rw [hsame]
        refine (or_iff_left ?_).symm
        rintro ⟨block', a, dst, data, heq, _⟩
        exact hno a dst data (Prod.mk.inj heq).2
      cases c with
      | headerSync q t k hd => exact hother (by simp) rfl
      | validateState q t k state =>
          obtain ⟨states, hstep⟩ := (tablesOf calls).addState_eq q k state
          exact hother (by simp) (by rw [Tables.step, hstep])
      | setParaid q => exact hother (by simp) rfl
      | setParatype t => exact hother (by simp) rfl
      | appInit a dst data =>
          cases hd : (tablesOf calls).differs a dst data with
          | false =>
              simp only [Tables.step, hd, Bool.false_eq_true, if_false]
              refine (or_iff_left ?_).symm
              rintro ⟨block', a', dst', data', heq, _, hd'⟩
              cases heq
              rw [hd] at hd'
              cases hd'
          | true =>
              simp only [Tables.step, hd, if_true]
              by_cases hb : b = block.height
              · subst hb
                rw [Function.update_self]
                exact iff_of_true rfl (Or.inr ⟨block, a, dst, data, rfl, rfl, hd⟩)
              · rw [Function.update_of_ne hb]
                refine (or_iff_left ?_).symm
                rintro ⟨block', a', dst', data', heq, hb', _⟩
                cases heq
                exact hb hb'.symm

/-! ## §6. The queries. -/

/-- **The flat store refines the tables.**  After any calls of the fresh contract
with positive heights: the counter of a chain is the greatest of its heights and
never falls; a header query returns the record of the last synchronisation of this
header; states join a list at the end, one for each call that found its header,
and are read back by their positions from `1`; a block is marked exactly when a
client called a chain of another type in it. -/
theorem store_refines_tables (calls : List (Block × Call))
    (hpos : ∀ bc ∈ calls, bc.2.Positive) :
    (∀ p, queryHeaderMaxn (runCalls initialStore calls) (.int p)
          = .ok (.str (toString (peak 0 (calls.filterMap (syncedHeight p)))))
        ∧ ∀ bc, peak 0 (calls.filterMap (syncedHeight p))
          ≤ peak 0 ((calls ++ [bc]).filterMap (syncedHeight p)))
      ∧ (∀ p h, 1 ≤ h → queryHeader (runCalls initialStore calls) (.int p) (.int h)
          = match (calls.filterMap (syncedRecord p h)).getLast? with
            | some r => .ok (.str (recordText r))
            | none => .error ⟨.assertion, noHeader (.int p) (.int h)⟩)
      ∧ (∀ p h, 1 ≤ h →
          (∀ i : Nat, queryState (runCalls initialStore calls) (.int p) (.int h)
              (.int ((i + 1 : Nat) : Int))
            = match ((tablesOf calls).states p h)[i]? with
              | some s => .ok (.str s)
              | none => .error ⟨.assertion, "cannot find state: "
                  ++ stateKey (.int p) (.int h) (.int ((i + 1 : Nat) : Int))⟩)
          ∧ (tablesOf []).states p h = []
          ∧ ∀ bc, (tablesOf (calls ++ [bc])).states p h = (tablesOf calls).states p h
            ++ if hasHeader (runCalls initialStore calls) (.int p) (.int h) = true
              then broughtState p h bc else [])
      ∧ ∀ b, (queryUvExists (runCalls initialStore calls) (.int b) = .ok (.str "1")
            ↔ MarkedBy calls b)
          ∧ (queryUvExists (runCalls initialStore calls) (.int b) = .ok (.str "0")
            ↔ ¬ MarkedBy calls b) := by
  have hrep := runCalls_represents calls hpos
  refine ⟨fun p => ⟨?_, fun bc => ?_⟩, fun p h hh => ?_, fun p h hh => ⟨fun i => ?_, rfl,
    fun bc => ?_⟩, fun b => ?_⟩
  · rw [queryHeaderMaxn, hrep.counter, tablesOf_synced]
    by_cases hnil : calls.filterMap (syncedHeight p) = []
    · rw [if_pos hnil, hnil]
      rfl
    · rw [if_neg hnil, Option.getD_some]
  · rw [List.filterMap_append]
    exact peak_le_append 0 _ _
  · rw [queryHeader, hrep.headers p h hh, tablesOf_headers]
    cases (calls.filterMap (syncedRecord p h)).getLast? <;> rfl
  · rw [queryState, hrep.states p h hh i]
      <;> cases ((tablesOf calls).states p h)[i]? <;> rfl
  · rw [tablesOf_states, hrep.hasHeader hh]
  · have hquery : queryUvExists (runCalls initialStore calls) (.int b)
        = .ok (.str (if (tablesOf calls).uv b = true then "1" else "0")) := by
      rw [queryUvExists, hrep.uv b]
      cases (tablesOf calls).uv b <;> rfl
    rw [hquery, ← tablesOf_uv]
    cases (tablesOf calls).uv b <;> simp

/-- A header of a chain with a negative id, and a state under it. -/
def sampleCalls : List (Block × Call) := [
  ({ height := 5 }, .headerSync (-1) (.str "Tendermint") 3 (.str "header3")),
  ({ height := 6 }, .validateState (-1) (.str "Tendermint") 3 (.str "state"))]

theorem store_refines_tables_sample :
    queryHeaderMaxn (runCalls initialStore sampleCalls) (.int (-1)) = .ok (.str "3")
      ∧ queryHeader (runCalls initialStore sampleCalls) (.int (-1)) (.int 3)
        = .ok (.str (recordText (.str "header3", 5)))
      ∧ queryState (runCalls initialStore sampleCalls) (.int (-1)) (.int 3) (.int 1)
        = .ok (.str "state")
      ∧ queryUvExists (runCalls initialStore sampleCalls) (.int 6) = .ok (.str "0") := by
  have hpos : ∀ bc ∈ sampleCalls, bc.2.Positive := by
    simp [sampleCalls, Call.Positive]
  obtain ⟨hmaxn, hheader, hstates, huv⟩ := store_refines_tables sampleCalls hpos
  refine ⟨(hmaxn (-1)).1, hheader (-1) 3 (by decide), (hstates (-1) 3 (by decide)).1 0, ?_⟩
  refine (huv 6).2.mpr ?_
  rintro ⟨pre, block, a, dst, data, post, heq, _⟩
  have hmem : (block, Call.appInit a (.str dst) (.str data)) ∈ sampleCalls := by
    rw [heq]
    exact List.mem_append_right _ List.mem_cons_self
  simp [sampleCalls] at hmem

end CtrLightClient

end TorSim
