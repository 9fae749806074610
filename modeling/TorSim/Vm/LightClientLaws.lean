/-
  TorSim.Vm.LightClientLaws — the laws of the light client's functions.

  `header_sync` and `validate_state` have the same shape: a reading part that
  may refuse, one batch of writes, one late check of the timing table.  The
  shape is stated once for each as a `_run` equation; whether a failing call
  leaves traces, and which headers a store holds after a call, follow from it.

  Main results:
    * `headerKey_inj` / `headerKey_ne` — which keys can coincide.
    * `headerSync_run` / `validateState_run` — the shape of the two calls.
    * `execTime_syncWrites` / `execTime_stateWrites` — the late check is
      decided by the store before the writes.
    * `validateState_noHeader_iff` — when a state is refused for want of its header.
    * `call_error_state` — **what a failing call leaves behind**.
    * `call_keeps` — the frame of every call.
    * `exec_request` — `exec` on a well-formed request is the call it names.
-/
import TorSim.Vm.CtrLightClient
import Mathlib.Order.Lattice

namespace TorSim

open TorSim.Lib

namespace CtrLightClient

/-! ## §1. Which keys coincide. -/

/-- A key is told from a header key by its first character. -/
theorem headerKey_ne {k : String} (hk : k.toList.head? ≠ some 'h') (paraid height : Json) :
    k ≠ headerKey paraid height := by
  rintro rfl
  exact hk (by simp [headerKey])

theorem stateKey_ne {k : String} (hk : k.toList.head? ≠ some 's') (paraid height idx : Json) :
    k ≠ stateKey paraid height idx := by
  rintro rfl
  exact hk (by simp [stateKey])

theorem uvKey_ne {k : String} (hk : k.toList.head? ≠ some 'u') (height : Json) :
    k ≠ uvKey height := by
  rintro rfl
  exact hk (by simp [uvKey])

/-- **Header keys of natural heights are distinct**, for chain ids of any sign. -/
theorem headerKey_inj {p p' h h' : Int} (hh : 0 ≤ h) (hh' : 0 ≤ h') :
    headerKey (.int p) (.int h) = headerKey (.int p') (.int h') ↔ p = p' ∧ h = h' := by
  constructor
  · intro heq
    simp only [headerKey, Json.toStr_int] at heq
    obtain ⟨hp, hheight⟩ := append_dash_int_inj hh hh' heq
    have hlist := congrArg String.toList hp
    rw [String.toList_append, String.toList_append] at hlist
    have hpl := List.append_cancel_left hlist
    exact ⟨toString_int_injective (String.toList_inj.mp hpl), hheight⟩
  · rintro ⟨rfl, rfl⟩
    rfl

/-! ## §2. The reading parts, the writes, the late checks. -/

/-- The store `_header_sync` leaves when its reading part succeeds. -/
def syncWrites (ctx : Context) (paraid height header : Json) (st : BaseStore) :
    Except Exn BaseStore := do
  let cnt ← syncCount st paraid height
  let data ← headerRecord ctx header
  return (st.set (headerKey paraid height) data).set (headerKey paraid (.int 0)) cnt.toStr

/-- The store and the index of the state `_validate_state` leaves when its reading
part succeeds and the state is a string. -/
def stateWrites (paraid height state : Json) (st : BaseStore) :
    Except Exn (BaseStore × Int) := do
  assertE (hasHeader st paraid height) (noHeader paraid height)
  let cnt ← nextStateIdx st paraid height
  match state with
  | .str s =>
      .ok ((st.set (stateKey paraid height (.int cnt)) s).set
        (stateKey paraid height (.int 0)) (toString cnt), cnt)
  | _ => .error ⟨.assertion, "instance of value is not str"⟩

/-- **The shape of `_header_sync`.** -/
theorem headerSync_run (ctx : Context) (paraid paratype height header : Json) (st : BaseStore) :
    headerSync ctx paraid paratype height header st =
      match syncWrites ctx paraid height header st with
      | .error e => (.error e, st)
      | .ok st' =>
          ((execTime st' paratype "header").map (fun _ => .str (headerKey paraid height)), st') := by
  unfold headerSync syncWrites
  simp only [Comp.gets_bind_run, id]
  rcases syncCount st paraid height with e | cnt
  · rfl
  rcases headerRecord ctx header with e | data
  · rfl
  exact Comp.check_run (fun st => execTime st paratype "header") _ _

/-- **The shape of `_validate_state`.** -/
theorem validateState_run (paraid paratype height state : Json) (st : BaseStore) :
    validateState paraid paratype height state st =
      match stateWrites paraid height state st with
      | .error e => (.error e, st)
      | .ok (st', cnt) =>
          ((execTime st' paratype "state").map
            (fun _ => .str (stateKey paraid height (.int cnt))), st') := by
  unfold validateState stateWrites
  simp only [Comp.gets_bind_run, id]
  cases hasHeader st paraid height with
  | false => rfl
  | true =>
      rcases nextStateIdx st paraid height with e | cnt
      · rfl
      cases state with
      | str s => exact Comp.check_run (fun st => execTime st paratype "state") _ _
      | _ => rfl

/-! ## §3. The writes do not touch the timing table. -/

/-- What the simulator waits for, as the store has it. -/
def timeText : Option String → Except Exn Double
  | some t => floatOfStr t
  | none => .error ⟨.type, "float() argument must be a string or a number, not 'NoneType'"⟩

/-- Without a type of the chain there is no time. -/
theorem execTime_none {st : BaseStore} {paratype : Json} {stype : String}
    (h : st.get "paratype" = none) :
    execTime st paratype stype = .error ⟨.assertion, "find no paratype"⟩ := by
  unfold execTime chainType
  rw [h]
  rfl

/-- With one, the time is read from its entry. -/
theorem execTime_some {st : BaseStore} {paratype : Json} {stype c : String}
    (h : st.get "paratype" = some c) :
    execTime st paratype stype
      = timeText (st.get (c ++ "-" ++ paratype.toStr ++ "-" ++ stype)) := by
  unfold execTime chainType
  rw [h]
  rfl

/-- The timing check reads two entries. -/
theorem execTime_congr {st st' : BaseStore} {paratype : Json} {stype : String}
    (ht : st'.get "paratype" = st.get "paratype")
    (he : ∀ chaintype : String, st'.get (chaintype ++ "-" ++ paratype.toStr ++ "-" ++ stype)
      = st.get (chaintype ++ "-" ++ paratype.toStr ++ "-" ++ stype)) :
    execTime st' paratype stype = execTime st paratype stype := by
  cases hc : st.get "paratype" with
  | none => rw [execTime_none hc, execTime_none (ht.trans hc)]
  | some c => rw [execTime_some hc, execTime_some (ht.trans hc), he c]

/-- A height that can be compared with a count: its text does not end in `r`. -/
theorem getLast_height {cnt : Int} {height v : Json} (h : maxHeight cnt height = .ok v) :
    height.toStr.toList.getLast? ≠ some 'r' := by
  cases height with
  | int i =>
      rw [Json.toStr_int, toList_toString_int]
      exact fun hl => not_mem_intChars (by decide) (by decide) i (List.mem_of_getLast? hl)
  | bool b => cases b <;> decide
  | float x => exact fun hl => PyFloat.r_not_mem_str x (List.mem_of_getLast? hl)
  | _ => cases h

/-- What a successful reading part of `_header_sync` read. -/
theorem syncWrites_eq_ok {ctx : Context} {paraid height header : Json} {st st' : BaseStore}
    (h : syncWrites ctx paraid height header st = .ok st') :
    ∃ cnt data, syncCount st paraid height = .ok cnt ∧ headerRecord ctx header = .ok data
      ∧ st' = (st.set (headerKey paraid height) data).set (headerKey paraid (.int 0)) cnt.toStr := by
  obtain ⟨cnt, hcnt, h⟩ := except_bind_ok h
  obtain ⟨data, hdata, h⟩ := except_bind_ok h
  exact ⟨cnt, data, hcnt, hdata, (Except.ok.inj h).symm⟩

/-- What a successful reading part of `_validate_state` read. -/
theorem stateWrites_eq_ok {paraid height state : Json} {st st' : BaseStore} {cnt : Int}
    (h : stateWrites paraid height state st = .ok (st', cnt)) :
    ∃ s, state = .str s ∧ hasHeader st paraid height = true
      ∧ nextStateIdx st paraid height = .ok cnt
      ∧ st' = (st.set (stateKey paraid height (.int cnt)) s).set
          (stateKey paraid height (.int 0)) (toString cnt) := by
  obtain ⟨_, hheader, h⟩ := except_bind_ok h
  obtain ⟨n, hn, h⟩ := except_bind_ok h
  cases hh : hasHeader st paraid height with
  | false =>
      rw [hh] at hheader
      cases hheader
  | true =>
      cases state with
      | str s =>
          cases h
          exact ⟨s, rfl, rfl, hn, rfl⟩
      | _ => cases h

/-- **The timing check of `_header_sync` is decided before its writes.** -/
theorem execTime_syncWrites {ctx : Context} {paraid height header : Json} {st st' : BaseStore}
    (h : syncWrites ctx paraid height header st = .ok st') (paratype : Json) :
    execTime st' paratype "header" = execTime st paratype "header" := by
  obtain ⟨cnt, data, hcnt, _, rfl⟩ := syncWrites_eq_ok h
  obtain ⟨n, _, hmax⟩ := except_bind_ok hcnt
  have hne : ∀ (hgt : Json) (c : String), hgt.toStr.toList.getLast? ≠ some 'r' →
      c ++ "-" ++ paratype.toStr ++ "-" ++ "header" ≠ headerKey paraid hgt := by
    intro hgt c hr heq
    have hl := congrArg String.toList heq
    simp only [headerKey, String.toList_append] at hl
    refine append_sep_ne '-' 'r' (b := "header".toList) (by decide) hr (by decide)
      ("header-".toList ++ paraid.toStr.toList)
      (c.toList ++ "-".toList ++ paratype.toStr.toList ++ "-".toList) ?_
    rw [hl]
    simp
  refine execTime_congr ?_ (fun c => ?_)
  · rw [BaseStore.get_set_ne (headerKey_ne (by decide) _ _),
      BaseStore.get_set_ne (headerKey_ne (by decide) _ _)]
  · rw [BaseStore.get_set_ne (hne _ c (by decide)),
      BaseStore.get_set_ne (hne _ c (getLast_height hmax))]

/-- **The timing check of `_validate_state` is decided before its writes.** -/
theorem execTime_stateWrites {paraid height state : Json} {st st' : BaseStore} {cnt : Int}
    (h : stateWrites paraid height state st = .ok (st', cnt)) (paratype : Json) :
    execTime st' paratype "state" = execTime st paratype "state" := by
  obtain ⟨s, _, _, _, rfl⟩ := stateWrites_eq_ok h
  have hne : ∀ (i : Int) (c : String),
      c ++ "-" ++ paratype.toStr ++ "-" ++ "state" ≠ stateKey paraid height (.int i) := by
    intro i c heq
    have hl := congrArg String.toList heq
    simp only [stateKey, String.toList_append, Json.toStr_int, toList_toString_int] at hl
    refine append_sep_ne '-' 'e' (b := "state".toList) (by decide)
      (fun hlast => not_mem_intChars (by decide) (by decide) i (List.mem_of_getLast? hlast))
      (by decide)
      ("state-".toList ++ paraid.toStr.toList ++ "-".toList ++ height.toStr.toList)
      (c.toList ++ "-".toList ++ paratype.toStr.toList ++ "-".toList) ?_
    rw [hl]
    simp
  refine execTime_congr ?_ (fun c => ?_)
  · rw [BaseStore.get_set_ne (stateKey_ne (by decide) _ _ _),
      BaseStore.get_set_ne (stateKey_ne (by decide) _ _ _)]
  · rw [BaseStore.get_set_ne (hne _ c), BaseStore.get_set_ne (hne _ c)]

/-! ## §4. What a call leaves behind. -/

theorem opening_noHeader (paraid height : Json) :
    opening (noHeader paraid height) = ['c', 'a'] := opening_append (by decide) _

/-- The errors behind the first check of `_validate_state` read otherwise. -/
theorem stateWrites_error {paraid height state : Json} {st : BaseStore} {e : Exn}
    (hhas : hasHeader st paraid height = true)
    (h : stateWrites paraid height state st = .error e) : opening e.msg ≠ ['c', 'a'] := by
  unfold stateWrites at h
  rw [hhas, assertE_true] at h
  cases hn : nextStateIdx st paraid height with
  | error e' =>
      rw [hn] at h
      cases h
      have hread : ∀ t : String, (do
          let n ← intOfStr t
          return n + 1 : Except Exn Int) = .error e → intOfStr t = .error e := by
        intro t ht
        cases hi : intOfStr t with
        | ok n =>
            rw [hi] at ht
            cases ht
        | error e' =>
            rw [hi] at ht
            exact ht
      have ht := hread _ hn
      rw [intOfStr_error ht, String.append_assoc, opening_append (by decide)]
      decide
  | ok cnt =>
      rw [hn] at h
      cases state with
      | str s => cases h
      | _ =>
          cases h
          decide

/-- So do the errors of the timing check. -/
theorem execTime_error {st : BaseStore} {paratype : Json} {stype : String} {e : Exn}
    (h : execTime st paratype stype = .error e) : opening e.msg ≠ ['c', 'a'] := by
  cases hc : st.get "paratype" with
  | none =>
      rw [execTime_none hc] at h
      cases h
      decide
  | some c =>
      rw [execTime_some hc] at h
      unfold timeText at h
      split at h
      next =>
          rw [floatOfStr_error h, String.append_assoc, opening_append (by decide)]
          decide
      next =>
          cases h
          decide

/-- With its header there, a state is refused for other reasons only. -/
theorem validateState_error {paraid paratype height state : Json} {st : BaseStore} {e : Exn}
    (hhas : hasHeader st paraid height = true)
    (h : (validateState paraid paratype height state st).1 = .error e) :
    e.msg ≠ noHeader paraid height := by
  have hopen : opening e.msg ≠ ['c', 'a'] := by
    rw [validateState_run] at h
    cases hw : stateWrites paraid height state st with
    | error e' =>
        rw [hw] at h
        cases h
        exact stateWrites_error hhas hw
    | ok r =>
        rw [hw] at h
        dsimp only at h
        cases ht : execTime r.1 paratype "state" with
        | ok t =>
            rw [ht] at h
            cases h
        | error e' =>
            rw [ht] at h
            cases h
            exact execTime_error ht
  intro heq
  exact hopen (heq ▸ opening_noHeader paraid height)

/-- **A state is refused for want of its header exactly when there is no entry.** -/
theorem validateState_noHeader_iff (paraid paratype height state : Json) (st : BaseStore) :
    (validateState paraid paratype height state st).1
        = .error ⟨.assertion, noHeader paraid height⟩ ↔ hasHeader st paraid height = false := by
  constructor
  · intro h
    rw [← Bool.not_eq_true]
    exact fun hhas => validateState_error hhas h rfl
  · intro hno
    rw [validateState_run]
    simp [stateWrites, hno, bind, Except.bind]

/-- `_header_sync` leaves the store it found or the store after its writes. -/
theorem headerSync_state (ctx : Context) (paraid paratype height header : Json) (st : BaseStore) :
    (headerSync ctx paraid paratype height header st).2 = st
      ∨ syncWrites ctx paraid height header st
          = .ok (headerSync ctx paraid paratype height header st).2 := by
  rw [headerSync_run]
  cases syncWrites ctx paraid height header st with
  | error e => exact Or.inl rfl
  | ok st' => exact Or.inr rfl

theorem validateState_state (paraid paratype height state : Json) (st : BaseStore) :
    (validateState paraid paratype height state st).2 = st
      ∨ ∃ cnt, stateWrites paraid height state st
          = .ok ((validateState paraid paratype height state st).2, cnt) := by
  rw [validateState_run]
  cases stateWrites paraid height state st with
  | error e => exact Or.inl rfl
  | ok r => exact Or.inr ⟨r.2, rfl⟩

theorem appInit_state (ctx : Context) (a b c : Json) (st : BaseStore) :
    (appInit ctx a b c st).2 = st
      ∨ ∃ h, (appInit ctx a b c st).2 = st.set (uvKey (.int h)) "1" := by
  unfold appInit
  cases isInt a with
  | false => exact Or.inl rfl
  | true =>
      cases b.typeName == "str" with
      | false => exact Or.inl rfl
      | true =>
          cases c.typeName == "str" with
          | false => exact Or.inl rfl
          | true =>
              simp only [assertE_true, Comp.lift_ok_bind_run, Comp.gets_bind_run, id]
              cases chainType st with
              | error e => exact Or.inl rfl
              | ok t =>
                  simp only [Comp.lift_ok_bind_run]
                  cases b.isStr t with
                  | true => exact Or.inl rfl
                  | false =>
                      simp only [Bool.false_eq_true, if_false]
                      cases ctx.height with
                      | error e => exact Or.inl rfl
                      | ok h => exact Or.inr ⟨h, rfl⟩

/-- A failing `_app_init` has written nothing: its write is its last step. -/
theorem appInit_error {ctx : Context} {a b c : Json} {st st' : BaseStore} {e : Exn}
    (h : appInit ctx a b c st = (.error e, st')) : st' = st := by
  rcases appInit_state ctx a b c st with hs | ⟨ht, hs⟩
  · rw [h] at hs
    exact hs
  unfold appInit at h
  cases ha : isInt a with
  | false =>
      rw [ha] at h
      exact (Prod.mk.inj h).2.symm
  | true =>
      rw [ha, assertE_true, Comp.lift_ok_bind_run] at h
      cases hb : b.typeName == "str" with
      | false =>
          rw [hb] at h
          exact (Prod.mk.inj h).2.symm
      | true =>
          rw [hb, assertE_true, Comp.lift_ok_bind_run] at h
          cases hc : c.typeName == "str" with
          | false =>
              rw [hc] at h
              exact (Prod.mk.inj h).2.symm
          | true =>
              rw [hc, assertE_true, Comp.lift_ok_bind_run, Comp.gets_bind_run] at h
              rcases Comp.bind_eq_error h with h | ⟨t, s1, h1, h⟩
              · exact (Prod.mk.inj h).2.symm
              rw [← (Prod.mk.inj h1).2] at h
              split at h
              next => cases (Prod.mk.inj h).1
              next =>
                  rcases Comp.bind_eq_error h with h | ⟨n, s2, _, h⟩
                  · exact (Prod.mk.inj h).2.symm
                  · cases (Prod.mk.inj h).1

/-- The count a call is going to write is never the one that is there. -/
theorem stateWrites_ne {paraid height state : Json} {st st' : BaseStore} {cnt : Int}
    (h : stateWrites paraid height state st = .ok (st', cnt)) : st' ≠ st := by
  obtain ⟨s, _, _, hn, rfl⟩ := stateWrites_eq_ok h
  intro heq
  have hget : st.get (stateKey paraid height (.int 0)) = some (toString cnt) := by
    rw [← heq, BaseStore.get_set_self]
  obtain ⟨n, hint, hcnt⟩ := except_bind_ok hn
  have hne : toString cnt ≠ "" := by
    intro h0
    have hread := intOfStr_toString cnt
    rw [h0] at hread
    cases hread
  rw [hget, Option.getD_some, if_neg hne, intOfStr_toString] at hint
  have h1 := Except.ok.inj hint
  have h2 := Except.ok.inj hcnt
  omega

/-- The entries `_header_sync` is going to write are there already. -/
def Synced (ctx : Context) (paraid height header : Json) (st : BaseStore) : Prop :=
  ∃ cnt data, syncCount st paraid height = .ok cnt ∧ headerRecord ctx header = .ok data
    ∧ st.get (headerKey paraid (.int 0)) = some cnt.toStr
    ∧ (headerKey paraid height = headerKey paraid (.int 0)
        ∨ st.get (headerKey paraid height) = some data)

/-- Writing changes nothing exactly when the entries are there already. -/
theorem syncWrites_eq_self_iff {ctx : Context} {paraid height header : Json}
    {st st' : BaseStore} (h : syncWrites ctx paraid height header st = .ok st') :
    st' = st ↔ Synced ctx paraid height header st := by
  obtain ⟨cnt, data, hcnt, hdata, rfl⟩ := syncWrites_eq_ok h
  constructor
  · intro heq
    refine ⟨cnt, data, hcnt, hdata, ?_, ?_⟩
    · rw [← heq, BaseStore.get_set_self]
    · by_cases hkey : headerKey paraid height = headerKey paraid (.int 0)
      · exact Or.inl hkey
      · right
        rw [← heq, BaseStore.get_set_ne hkey, BaseStore.get_set_self]
  · rintro ⟨cnt', data', hcnt', hdata', hget, hkey⟩
    cases hcnt.symm.trans hcnt'
    cases hdata.symm.trans hdata'
    rcases hkey with hkey | hkey
    · rw [hkey, BaseStore.set_set, BaseStore.set_of_get hget]
    · rw [BaseStore.set_of_get hkey, BaseStore.set_of_get hget]

/-- The call is going to write and to fail only then: `header_sync` with other
entries than the store holds, or `validate_state`, under a chain type or a
timing entry that is missing or is no number. -/
def LeavesTrace (ctx : Context) (st : BaseStore) : Func → List Json → Prop
  | .headerSync, [paraid, paratype, height, header] =>
      (∃ st', syncWrites ctx paraid height header st = .ok st')
        ∧ (∃ e, execTime st paratype "header" = .error e)
        ∧ ¬ Synced ctx paraid height header st
  | .validateState, [paraid, paratype, height, state] =>
      (∃ r, stateWrites paraid height state st = .ok r)
        ∧ ∃ e, execTime st paratype "state" = .error e
  | _, _ => False

/-- **What a failing call leaves behind**: exactly the calls that fail behind
their writes leave another store. -/
theorem call_error_state (ctx : Context) (f : Func) (args : List Json) (st : BaseStore) :
    (∃ e st', call ctx f args st = (.error e, st') ∧ st' ≠ st) ↔ LeavesTrace ctx st f args := by
  have other : ∀ {x : Comp BaseStore Json}, (∀ e st', x st = (.error e, st') → st' = st) →
      ((∃ e st', x st = (.error e, st') ∧ st' ≠ st) ↔ False) := by
    intro x hx
    refine ⟨?_, False.elim⟩
    rintro ⟨e, st', h, hne⟩
    exact hne (hx e st' h)
  have raise_state : ∀ (e : Exn) (e' : Exn) (st' : BaseStore),
      (Comp.raise e : Comp BaseStore Json) st = (.error e', st') → st' = st :=
    fun _ _ _ h => (Prod.mk.inj h).2.symm
  unfold call
  split
  next paraid paratype height header =>
      rw [headerSync_run]
      cases hw : syncWrites ctx paraid height header st with
      | error e =>
          constructor
          · rintro ⟨_, _, h, hne⟩
            exact absurd (Prod.mk.inj h).2.symm hne
          · rintro ⟨⟨_, h⟩, _⟩
            cases hw.symm.trans h
      | ok st' =>
          have hsame := syncWrites_eq_self_iff hw
          simp only [execTime_syncWrites hw paratype]
          constructor
          · rintro ⟨e, st'', h, hne⟩
            obtain ⟨h1, rfl⟩ := Prod.mk.inj h
            refine ⟨⟨_, hw⟩, ?_, fun hs => hne (hsame.mpr hs)⟩
            cases ht : execTime st paratype "header" with
            | error e' => exact ⟨e', rfl⟩
            | ok t =>
                rw [ht] at h1
                cases h1
          · rintro ⟨_, ⟨e, ht⟩, hs⟩
            rw [ht]
            exact ⟨e, st', rfl, fun h => hs (hsame.mp h)⟩
  next paraid paratype height state =>
      rw [validateState_run]
      cases hw : stateWrites paraid height state st with
      | error e =>
          constructor
          · rintro ⟨_, _, h, hne⟩
            exact absurd (Prod.mk.inj h).2.symm hne
          · rintro ⟨⟨_, h⟩, _⟩
            cases hw.symm.trans h
      | ok r =>
          obtain ⟨st', cnt⟩ := r
          simp only [execTime_stateWrites hw paratype]
          constructor
          · rintro ⟨e, st'', h, _⟩
            refine ⟨⟨_, hw⟩, ?_⟩
            cases ht : execTime st paratype "state" with
            | error e' => exact ⟨e', rfl⟩
            | ok t =>
                rw [ht] at h
                cases (Prod.mk.inj h).1
          · rintro ⟨_, e, ht⟩
            rw [ht]
            exact ⟨e, st', rfl, stateWrites_ne hw⟩
  next => exact other (fun e st' h => by cases (Prod.mk.inj h).1)
  next => exact other (fun e st' h => by cases (Prod.mk.inj h).1)
  next => exact other (fun e st' h => appInit_error h)
  next hsync hvalid _ _ _ =>
      have hnot : ¬ LeavesTrace ctx st f args := by
        unfold LeavesTrace
        split
        next => exact fun _ => hsync _ _ _ _ rfl rfl
        next => exact fun _ => hvalid _ _ _ _ rfl rfl
        next => exact id
      rw [iff_false_intro hnot]
      exact other (raise_state _)

/-! ## §5. Frames. -/

/-- **The frame of every call**: keys that start with none of the four letters
of the contract's own records stay as they are. -/
theorem call_keeps {k : String} (hh : k.toList.head? ≠ some 'h') (hs : k.toList.head? ≠ some 's')
    (hu : k.toList.head? ≠ some 'u') (hp : k.toList.head? ≠ some 'p')
    (ctx : Context) (f : Func) (args : List Json) (st : BaseStore) :
    (call ctx f args st).2.get k = st.get k := by
  have hparaid : k ≠ "paraid" := by
    rintro rfl
    exact hp (by decide)
  have hparatype : k ≠ "paratype" := by
    rintro rfl
    exact hp (by decide)
  unfold call
  split
  next paraid paratype height header =>
      rcases headerSync_state ctx paraid paratype height header st with h | h
      · rw [h]
      · obtain ⟨cnt, data, _, _, heq⟩ := syncWrites_eq_ok h
        rw [heq, BaseStore.get_set_ne (headerKey_ne hh _ _),
          BaseStore.get_set_ne (headerKey_ne hh _ _)]
  next paraid paratype height state =>
      rcases validateState_state paraid paratype height state st with h | ⟨cnt, h⟩
      · rw [h]
      · obtain ⟨s, _, _, _, heq⟩ := stateWrites_eq_ok h
        rw [heq, BaseStore.get_set_ne (stateKey_ne hs _ _ _),
          BaseStore.get_set_ne (stateKey_ne hs _ _ _)]
  next => exact BaseStore.get_set_ne hparaid _ _
  next => exact BaseStore.get_set_ne hparatype _ _
  next a b c =>
      rcases appInit_state ctx a b c st with h | ⟨n, h⟩
      · rw [h]
      · rw [h, BaseStore.get_set_ne (uvKey_ne hu _)]
  next => rfl

/-- The calls that are no `header_sync` write no header. -/
theorem call_keeps_headers {f : Func} (hf : f ≠ .headerSync) (paraid height : Json)
    (ctx : Context) (args : List Json) (st : BaseStore) :
    (call ctx f args st).2.get (headerKey paraid height) = st.get (headerKey paraid height) := by
  have hne : ∀ {k : String}, k.toList.head? ≠ some 'h' → headerKey paraid height ≠ k :=
    fun hk => (headerKey_ne hk paraid height).symm
  unfold call
  split
  next => exact absurd rfl hf
  next paraid' paratype height' state =>
      rcases validateState_state paraid' paratype height' state st with h | ⟨cnt, h⟩
      · rw [h]
      · obtain ⟨s, _, _, _, heq⟩ := stateWrites_eq_ok h
        rw [heq, BaseStore.get_set_ne (hne (by simp [stateKey])),
          BaseStore.get_set_ne (hne (by simp [stateKey]))]
  next => exact BaseStore.get_set_ne (hne (by decide)) _ _
  next => exact BaseStore.get_set_ne (hne (by decide)) _ _
  next a b c =>
      rcases appInit_state ctx a b c st with h | ⟨n, h⟩
      · rw [h]
      · rw [h, BaseStore.get_set_ne (hne (by simp [uvKey]))]
  next => rfl

/-- **What `header_sync` writes** in a block, for integer arguments and a counter
that can be read: the record of the header, and the greater of the counter and
the height. -/
theorem headerSync_writes {st : BaseStore} {p n : Int}
    (hn : intOfStr ((st.get (headerKey (.int p) (.int 0))).getD "0") = .ok n) (block : Block)
    (t : Json) (h : Int) (hd : Json) :
    (headerSync ⟨some block⟩ (.int p) t (.int h) hd st).2
      = (st.set (headerKey (.int p) (.int h))
          (Json.dumps (.obj [("header", hd), ("cs_height", .int block.height)]))).set
        (headerKey (.int p) (.int 0)) (toString (max n h)) := by
  have hcnt : syncCount st (.int p) (.int h) = .ok (.int (max n h)) := by
    unfold syncCount
    rw [hn]
    show maxHeight n (.int h) = _
    rw [maxHeight]
    by_cases hlt : n < h
    · rw [if_pos hlt, max_eq_right hlt.le]
    · rw [if_neg hlt, max_eq_left (not_lt.mp hlt)]
  have hw : syncWrites ⟨some block⟩ (.int p) (.int h) hd st
      = .ok ((st.set (headerKey (.int p) (.int h))
          (Json.dumps (.obj [("header", hd), ("cs_height", .int block.height)]))).set
          (headerKey (.int p) (.int 0)) (toString (max n h))) := by
    unfold syncWrites
    rw [hcnt, ← Json.toStr_int]
    rfl
  rw [headerSync_run, hw]

/-! ## §6. Requests. -/

/-- The document a caller sends: the function's name and its arguments. -/
def request (f : Func) (args : List Json) : String :=
  Json.dumps (.obj [("func", .str f.name), ("arguments", .arr args)])

/-- **`exec` on a well-formed request is the call it names.** -/
theorem exec_request {args : List Json} (hargs : ∀ a ∈ args, a.wf = true) (ctx : Context)
    (f : Func) : exec ctx (.str (request f args)) = call ctx f args := by
  have hwf : (Json.obj [("func", .str f.name), ("arguments", .arr args)]).wf = true := by
    rw [Json.wf_obj_iff]
    refine ⟨by simp, ?_⟩
    simp [Json.wf, (Json.wfList_iff args).mpr hargs]
  have hparse : parseRequest (.str (request f args)) = .ok (f, args) := by
    unfold parseRequest request
    rw [Json.loadsValue, Json.loads_dumps hwf]
    simp [bind, Except.bind, Json.getItem, List.lookup_cons, CtrBase.listOf, pure, Except.pure]
  funext st
  rw [exec, hparse]
  rfl

/-! ## §7. What the calls raise. -/

theorem caughtE_height (ctx : Context) : Comp.CaughtE ctx.height := by
  unfold Context.height
  split
  · exact Comp.caughtE_ok _
  · exact Comp.caughtE_error rfl

theorem caughtE_chainType (st : BaseStore) : Comp.CaughtE (chainType st) := by
  unfold chainType
  split
  · exact Comp.caughtE_ok _
  · exact Comp.caughtE_error rfl

theorem caughtE_execTime (st : BaseStore) (paratype : Json) (stype : String) :
    Comp.CaughtE (execTime st paratype stype) := by
  refine Comp.caughtE_bind (caughtE_chainType st) fun c => ?_
  split
  · exact caughtE_floatOfStr _
  · exact Comp.caughtE_error rfl

theorem caughtE_maxHeight (cnt : Int) (height : Json) : Comp.CaughtE (maxHeight cnt height) := by
  cases height with
  | int h => exact Comp.caughtE_ok _
  | bool b => exact Comp.caughtE_ok _
  | float x => exact Comp.caughtE_ok _
  | _ => exact Comp.caughtE_error rfl

theorem caughtE_syncWrites (ctx : Context) (paraid height header : Json) (st : BaseStore) :
    Comp.CaughtE (syncWrites ctx paraid height header st) := by
  refine Comp.caughtE_bind
    (Comp.caughtE_bind (caughtE_intOfStr _) fun n => caughtE_maxHeight n height) fun cnt => ?_
  refine Comp.caughtE_bind
    (Comp.caughtE_bind (caughtE_height ctx) fun _ => Comp.caughtE_ok _) fun data => ?_
  exact Comp.caughtE_ok _

theorem caughtE_stateWrites (paraid height state : Json) (st : BaseStore) :
    Comp.CaughtE (stateWrites paraid height state st) := by
  refine Comp.caughtE_bind (Comp.caughtE_assert _ _) fun _ => ?_
  refine Comp.caughtE_bind
    (Comp.caughtE_bind (caughtE_intOfStr _) fun n => Comp.caughtE_ok (n + 1)) fun cnt => ?_
  cases state with
  | str s => exact Comp.caughtE_ok _
  | _ => exact Comp.caughtE_error rfl

theorem caught_appInit (ctx : Context) (a b c : Json) : Comp.Caught (appInit ctx a b c) := by
  refine Comp.caught_bind (Comp.caught_lift (Comp.caughtE_assert _ _)) fun _ => ?_
  refine Comp.caught_bind (Comp.caught_lift (Comp.caughtE_assert _ _)) fun _ => ?_
  refine Comp.caught_bind (Comp.caught_lift (Comp.caughtE_assert _ _)) fun _ => ?_
  refine Comp.caught_bind (Comp.caught_gets id) fun st => ?_
  refine Comp.caught_bind (Comp.caught_lift (caughtE_chainType st)) fun t => ?_
  split
  · exact Comp.caught_pure _
  · refine Comp.caught_bind (Comp.caught_lift (caughtE_height ctx)) fun n => ?_
    exact Comp.caught_bind (Comp.caught_update _) fun _ => Comp.caught_pure _

theorem isException_arityError (f : Func) (given : Nat) : (arityError f given).isException = true := by
  unfold arityError
  dsimp only
  split <;> rfl

theorem caught_call (ctx : Context) (f : Func) (args : List Json) :
    Comp.Caught (call ctx f args) := by
  unfold call
  split
  next paraid paratype height header =>
      intro st
      rw [headerSync_run]
      cases hw : syncWrites ctx paraid height header st with
      | error e => exact Comp.caughtE_error (caughtE_syncWrites ctx paraid height header st e hw)
      | ok st' =>
          exact Comp.caughtE_map (caughtE_execTime st' paratype "header") _
  next paraid paratype height state =>
      intro st
      rw [validateState_run]
      cases hw : stateWrites paraid height state st with
      | error e => exact Comp.caughtE_error (caughtE_stateWrites paraid height state st e hw)
      | ok r =>
          exact Comp.caughtE_map (caughtE_execTime r.1 paratype "state") _
  next => exact Comp.caught_bind (Comp.caught_update _) fun _ => Comp.caught_pure _
  next => exact Comp.caught_bind (Comp.caught_update _) fun _ => Comp.caught_pure _
  next a b c => exact caught_appInit ctx a b c
  next => exact Comp.caught_raise (isException_arityError f args.length)

/-- Whatever the request is, `exec` raises only what a `try` catches. -/
theorem caught_exec (ctx : Context) (rawdata : Json) : Comp.Caught (exec ctx rawdata) := by
  refine Comp.caught_bind (Comp.caught_lift ?_) fun r => caught_call ctx r.1 r.2
  refine Comp.caughtE_bind (Json.caughtE_loadsValue rawdata) fun data => ?_
  refine Comp.caughtE_bind (Json.caughtE_getItem data _) fun func => ?_
  refine Comp.caughtE_bind ?_ fun f => ?_
  · unfold Func.ofMethod
    repeat' split
    all_goals first
      | exact Comp.caughtE_ok _
      | exact Comp.caughtE_error rfl
  refine Comp.caughtE_bind (Json.caughtE_getItem data _) fun arguments => ?_
  exact Comp.caughtE_bind (CtrBase.caughtE_listOf arguments) fun args => Comp.caughtE_ok _

/-- **Of its context the contract reads the height of the block only.** -/
theorem exec_congr_height {ctx ctx' : Context} (h : ctx.height = ctx'.height) (rawdata : Json) :
    exec ctx rawdata = exec ctx' rawdata := by
  have happ : appInit ctx = appInit ctx' := by
    unfold appInit
    rw [h]
  have hsync : headerSync ctx = headerSync ctx' := by
    unfold headerSync headerRecord
    rw [h]
  have hcall : call ctx = call ctx' := by
    unfold call
    rw [happ, hsync]
  unfold exec
  rw [hcall]

end CtrLightClient

end TorSim
