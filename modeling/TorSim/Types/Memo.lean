/-
  TorSim.Types.Memo — the memo of a transaction and its time marks.

  The memo is a JSON document inside a string.  The pool, the commit and the
  relayer each append a time mark under `ts`; the relayer also rewrites `type`
  and `src` at every hop.  Every writer decodes the document, changes the
  dictionary and encodes it again.

  Main results:
    * `stampMemo_eq_ok` — what a mark did: a list under `ts` is one longer.
    * `stampMemo_of_stamped` — when a mark succeeds.
    * `memoField_stampMemo` / `memoField_stampRelayer` — **a mark changes no
      entry but `ts`**.
    * `memoField_rewriteMemo` — a rewritten entry is read back, the others stay.
-/
import TorSim.Types.Transaction

namespace TorSim

open TorSim.Lib

/-! ## §1. Reading entries. -/

/-- The entry `k` of a memo, if the memo is the text of a dictionary with one. -/
def memoField (memo : Json) (k : String) : Option Json :=
  match Json.loadsValue memo with
  | .ok (.obj kvs) => kvs.lookup k
  | _ => none

/-- The text of a dictionary, as a memo. -/
def memoOf (kvs : List (String × Json)) : Json := .str (Json.dumps (.obj kvs))

theorem loadsValue_memoOf {kvs : List (String × Json)} (h : (Json.obj kvs).wf = true) :
    Json.loadsValue (memoOf kvs) = .ok (.obj kvs) :=
  Json.loads_dumps h

theorem memoField_memoOf {kvs : List (String × Json)} (h : (Json.obj kvs).wf = true)
    (k : String) : memoField (memoOf kvs) k = kvs.lookup k := by
  rw [memoField, loadsValue_memoOf h]

theorem memoField_of_loads {memo : Json} {kvs : List (String × Json)}
    (h : Json.loadsValue memo = .ok (.obj kvs)) (k : String) :
    memoField memo k = kvs.lookup k := by
  rw [memoField, h]

/-! ## §2. The marks of the pool and of the commit. -/

/-- `mark_tx(key, tx)` on the memo: append a time to the list `ts[key]`. -/
def stampMemo (key : String) (time : PyFloat) (memo : Json) : Except Exn Json := do
  let m ← Json.loadsValue memo
  let ts ← m.get "ts" (.obj [])
  let marks ← ts.get key (.arr [])
  match m, ts, marks with
  | .obj kvs, .obj tkvs, .arr xs =>
      .ok (memoOf (dictSet "ts" (.obj (dictSet key (.arr (xs ++ [.float time])) tkvs)) kvs))
  | _, _, _ => .error ⟨.assertion, ""⟩

/-! ## §3. The marks of the relayer. -/

/-- `ts[relayer_key].append((time_key, now_time))`, the list created when it is
missing or `None`. -/
def relayerMarks (marks : Json) (timeKey : String) (time : PyFloat) : Except Exn Json :=
  match marks with
  | .null => .ok (.arr [.arr [.str timeKey, .float time]])
  | .arr xs => .ok (.arr (xs ++ [.arr [.str timeKey, .float time]]))
  | v => .error ⟨.attribute, "'" ++ v.typeName ++ "' object has no attribute 'append'"⟩

/-- The relayer's `mark_tx(tx, time_key)` on the memo. -/
def stampRelayer (timeKey : String) (time : PyFloat) (memo : Json) : Except Exn Json := do
  let m ← Json.loadsValue memo
  let ts ← m.get "ts" (.obj [])
  let marks ← ts.get "relayer" .null
  let marks ← relayerMarks marks timeKey time
  match m, ts with
  | .obj kvs, .obj tkvs =>
      .ok (memoOf (dictSet "ts" (.obj (dictSet "relayer" marks tkvs)) kvs))
  | _, _ => .error ⟨.type, "item assignment"⟩

/-! ## §4. What the marks change. -/

theorem get_eq_ok {v w d : Json} {k : String} (h : v.get k d = .ok w) :
    ∃ kvs, v = .obj kvs ∧ w = (kvs.lookup k).getD d := by
  cases v with
  | obj kvs =>
      cases h
      exact ⟨kvs, rfl, rfl⟩
  | _ => cases h

theorem wf_getD {kvs : List (String × Json)} {k : String} {d : Json}
    (hkvs : (Json.obj kvs).wf = true) (hd : d.wf = true) : ((kvs.lookup k).getD d).wf = true := by
  cases hk : kvs.lookup k with
  | none => exact hd
  | some v => exact Json.wf_lookup hkvs hk

/-- The time marks: the dictionary under `ts`, or an empty one. -/
def tsOf (kvs : List (String × Json)) : Json := (kvs.lookup "ts").getD (.obj [])

theorem wf_append_mark {xs : List Json} {x : Json} (hxs : (Json.arr xs).wf = true)
    (hx : x.wf = true) : (Json.arr (xs ++ [x])).wf = true := by
  rw [Json.wf_arr_iff] at hxs ⊢
  intro y hy
  rcases List.mem_append.mp hy with hy | hy
  · exact hxs y hy
  · rw [List.mem_singleton.mp hy]
    exact hx

/-- **What a mark did**: the memo was a dictionary, its `ts` entry a dictionary, the
entry of the key a list; that list is one longer, nothing else changed. -/
theorem stampMemo_eq_ok {key : String} {time : PyFloat} {memo memo' : Json}
    (h : stampMemo key time memo = .ok memo') :
    ∃ kvs ts xs, Json.loadsValue memo = .ok (.obj kvs) ∧ tsOf kvs = .obj ts
      ∧ (ts.lookup key).getD (.arr []) = .arr xs
      ∧ (Json.obj (dictSet "ts" (.obj (dictSet key (.arr (xs ++ [.float time])) ts)) kvs)).wf = true
      ∧ memo' = memoOf (dictSet "ts" (.obj (dictSet key (.arr (xs ++ [.float time])) ts)) kvs) := by
  obtain ⟨m, hm, h⟩ := except_bind_ok h
  obtain ⟨ts, hts, h⟩ := except_bind_ok h
  obtain ⟨marks, hmarks, h⟩ := except_bind_ok h
  obtain ⟨kvs, rfl, hts'⟩ := get_eq_ok hts
  obtain ⟨tkvs, rfl, hmarks'⟩ := get_eq_ok hmarks
  have hwf : (Json.obj kvs).wf = true := Json.loadsValue_wf hm
  have htwf : (Json.obj tkvs).wf = true := by
    rw [hts']
    exact wf_getD hwf rfl
  cases marks with
  | arr xs =>
      have hxs : (Json.arr xs).wf = true := by
        rw [hmarks']
        exact wf_getD htwf rfl
      cases h
      exact ⟨kvs, tkvs, xs, hm, hts'.symm, hmarks'.symm,
        Json.wf_dictSet hwf (Json.wf_dictSet htwf (wf_append_mark hxs rfl)), rfl⟩
  | _ => cases h

/-- **What a mark of the relayer did**: the marks are `relayerMarks` of the old. -/
theorem stampRelayer_eq_ok {timeKey : String} {time : PyFloat} {memo memo' : Json}
    (h : stampRelayer timeKey time memo = .ok memo') :
    ∃ kvs ts marks, Json.loadsValue memo = .ok (.obj kvs) ∧ tsOf kvs = .obj ts
      ∧ relayerMarks ((ts.lookup "relayer").getD .null) timeKey time = .ok marks
      ∧ (Json.obj (dictSet "ts" (.obj (dictSet "relayer" marks ts)) kvs)).wf = true
      ∧ memo' = memoOf (dictSet "ts" (.obj (dictSet "relayer" marks ts)) kvs) := by
  obtain ⟨m, hm, h⟩ := except_bind_ok h
  obtain ⟨ts, hts, h⟩ := except_bind_ok h
  obtain ⟨marks, hmarks, h⟩ := except_bind_ok h
  obtain ⟨marks', hmarks', h⟩ := except_bind_ok h
  obtain ⟨kvs, rfl, hts'⟩ := get_eq_ok hts
  obtain ⟨tkvs, rfl, hold⟩ := get_eq_ok hmarks
  have hwf : (Json.obj kvs).wf = true := Json.loadsValue_wf hm
  have htwf : (Json.obj tkvs).wf = true := by
    rw [hts']
    exact wf_getD hwf rfl
  have hnew : marks'.wf = true := by
    cases marks with
    | null =>
        cases hmarks'
        rfl
    | arr xs =>
        have hxs : (Json.arr xs).wf = true := by
          rw [hold]
          exact wf_getD htwf rfl
        cases hmarks'
        exact wf_append_mark hxs rfl
    | _ => cases hmarks'
  rw [hold] at hmarks'
  cases h
  exact ⟨kvs, tkvs, marks', hm, hts'.symm, hmarks',
    Json.wf_dictSet hwf (Json.wf_dictSet htwf hnew), rfl⟩

theorem caughtE_relayerMarks (marks : Json) (timeKey : String) (time : PyFloat) :
    Comp.CaughtE (relayerMarks marks timeKey time) := by
  cases marks with
  | null => exact Comp.caughtE_ok _
  | arr xs => exact Comp.caughtE_ok _
  | _ => exact Comp.caughtE_error rfl

theorem caughtE_stampRelayer (timeKey : String) (time : PyFloat) (memo : Json) :
    Comp.CaughtE (stampRelayer timeKey time memo) := by
  refine Comp.caughtE_bind (Json.caughtE_loadsValue memo) (fun m => ?_)
  refine Comp.caughtE_bind (Json.caughtE_get m "ts" _) (fun ts => ?_)
  refine Comp.caughtE_bind (Json.caughtE_get ts "relayer" _) (fun marks => ?_)
  refine Comp.caughtE_bind (caughtE_relayerMarks marks timeKey time) (fun marks => ?_)
  split
  · exact Comp.caughtE_ok _
  · exact Comp.caughtE_error rfl

/-- The mark is appended to the list there, or to an empty one. -/
theorem relayerMarks_eq_ok {marks marks' : Json} {timeKey : String} {time : PyFloat}
    (h : relayerMarks marks timeKey time = .ok marks') :
    ∃ xs, (marks = .null ∧ xs = [] ∨ marks = .arr xs)
      ∧ ∀ key t, relayerMarks marks key t = .ok (.arr (xs ++ [.arr [.str key, .float t]])) := by
  cases marks with
  | null => exact ⟨[], Or.inl ⟨rfl, rfl⟩, fun _ _ => rfl⟩
  | arr xs => exact ⟨xs, Or.inr rfl, fun _ _ => rfl⟩
  | _ => cases h

/-- **When the relayer's mark succeeds**: the time marks are a dictionary, and the
relayer's marks in it a list, `null` or missing. -/
theorem stampRelayer_iff {memo : Json} {kvs : List (String × Json)}
    (hm : Json.loadsValue memo = .ok (.obj kvs)) (timeKey : String) (time : PyFloat) :
    (∃ memo', stampRelayer timeKey time memo = .ok memo')
      ↔ ∃ ts xs, tsOf kvs = .obj ts
        ∧ relayerMarks ((ts.lookup "relayer").getD .null) timeKey time
          = .ok (.arr (xs ++ [.arr [.str timeKey, .float time]])) := by
  constructor
  · rintro ⟨memo', h⟩
    obtain ⟨kvs', ts, marks, hm', hts, hmarks, _, _⟩ := stampRelayer_eq_ok h
    cases hm.symm.trans hm'
    obtain ⟨xs, _, hall⟩ := relayerMarks_eq_ok hmarks
    exact ⟨ts, xs, hts, hall timeKey time⟩
  · rintro ⟨ts, xs, hts, hmarks⟩
    refine ⟨memoOf (dictSet "ts" (.obj (dictSet "relayer"
      (.arr (xs ++ [.arr [.str timeKey, .float time]])) ts)) kvs), ?_⟩
    unfold tsOf at hts
    unfold stampRelayer
    rw [hm]
    simp only [bind, Except.bind, Json.get, hts, hmarks]

/-- A memo the relayer has marked can be marked again. -/
theorem stampRelayer_again {timeKey : String} {time : PyFloat} {memo memo' : Json}
    (h : stampRelayer timeKey time memo = .ok memo') (timeKey' : String) (time' : PyFloat) :
    ∃ memo'', stampRelayer timeKey' time' memo' = .ok memo'' := by
  obtain ⟨kvs, ts, marks, _, _, hmarks, hwf, rfl⟩ := stampRelayer_eq_ok h
  obtain ⟨xs, _, hall⟩ := relayerMarks_eq_ok hmarks
  cases hmarks.symm.trans (hall timeKey time)
  rw [stampRelayer_iff (loadsValue_memoOf hwf)]
  refine ⟨dictSet "relayer" (.arr (xs ++ [.arr [.str timeKey, .float time]])) ts,
    xs ++ [.arr [.str timeKey, .float time]], ?_, ?_⟩
  · rw [tsOf, lookup_dictSet_self]
    rfl
  · rw [lookup_dictSet_self]
    rfl

/-- **When a mark of the pool succeeds**: the memo is a dictionary, its `ts` entry a
dictionary or missing, the entry of the key a list or missing. -/
theorem stampMemo_iff (key : String) (time : PyFloat) (memo : Json) :
    (∃ memo', stampMemo key time memo = .ok memo')
      ↔ ∃ kvs ts xs, Json.loadsValue memo = .ok (.obj kvs) ∧ tsOf kvs = .obj ts
        ∧ (ts.lookup key).getD (.arr []) = .arr xs := by
  constructor
  · rintro ⟨memo', h⟩
    obtain ⟨kvs, ts, xs, hm, hts, hxs, _⟩ := stampMemo_eq_ok h
    exact ⟨kvs, ts, xs, hm, hts, hxs⟩
  · rintro ⟨kvs, ts, xs, hm, hts, hxs⟩
    refine ⟨memoOf (dictSet "ts" (.obj (dictSet key (.arr (xs ++ [.float time])) ts)) kvs), ?_⟩
    unfold tsOf at hts
    unfold stampMemo
    rw [hm]
    simp only [bind, Except.bind, Json.get, hts, hxs]

/-- A memo with time marks: a dictionary with a dictionary under `ts`. -/
def Stamped (memo : Json) : Prop :=
  ∃ kvs ts, Json.loadsValue memo = .ok (.obj kvs) ∧ kvs.lookup "ts" = some (.obj ts)

/-- Whether the memo has its time marks. -/
def isStamped (memo : Json) : Bool :=
  match Json.loadsValue memo with
  | .ok (.obj kvs) =>
      match kvs.lookup "ts" with
      | some (.obj _) => true
      | _ => false
  | _ => false

theorem isStamped_iff {memo : Json} : isStamped memo = true ↔ Stamped memo := by
  unfold isStamped
  constructor
  · intro h
    split at h
    next kvs hload =>
        split at h
        next ts hts => exact ⟨kvs, ts, hload, hts⟩
        next => cases h
    next => cases h
  · intro h
    obtain ⟨kvs, ts, hload, hts⟩ := h
    rw [hload]
    dsimp only
    rw [hts]

instance decidableStamped (memo : Json) : Decidable (Stamped memo) :=
  decidable_of_iff _ isStamped_iff

theorem wf_of_stamped {memo : Json} (h : Stamped memo) : memo.wf = true := by
  obtain ⟨kvs, _, hm, _⟩ := h
  cases memo with
  | str text => rfl
  | _ => cases hm

theorem stamped_stampMemo {key : String} {time : PyFloat} {memo memo' : Json}
    (h : stampMemo key time memo = .ok memo') : Stamped memo' := by
  obtain ⟨kvs, ts, xs, _, _, _, hwf, rfl⟩ := stampMemo_eq_ok h
  exact ⟨_, _, loadsValue_memoOf hwf, lookup_dictSet_self _ _ _⟩

/-- **A mark changes no entry but `ts`.** -/
theorem memoField_stampMemo {key : String} {time : PyFloat} {memo memo' : Json} {k : String}
    (h : stampMemo key time memo = .ok memo') (hk : k ≠ "ts") :
    memoField memo' k = memoField memo k := by
  obtain ⟨kvs, ts, xs, hm, _, _, hwf, rfl⟩ := stampMemo_eq_ok h
  rw [memoField_memoOf hwf, memoField_of_loads hm, lookup_dictSet_ne hk]

theorem memoField_stampRelayer {timeKey : String} {time : PyFloat} {memo memo' : Json}
    {k : String} (h : stampRelayer timeKey time memo = .ok memo') (hk : k ≠ "ts") :
    memoField memo' k = memoField memo k := by
  obtain ⟨kvs, ts, marks, hm, _, _, hwf, rfl⟩ := stampRelayer_eq_ok h
  rw [memoField_memoOf hwf, memoField_of_loads hm, lookup_dictSet_ne hk]

/-! ## §5. The time marks themselves. -/

/-- The entry `k` of the time marks of a memo. -/
def tsField (memo : Json) (k : String) : Option Json :=
  match memoField memo "ts" with
  | some (.obj ts) => ts.lookup k
  | _ => none

theorem tsField_memoOf {kvs ts : List (String × Json)}
    (h : (Json.obj (dictSet "ts" (.obj ts) kvs)).wf = true) (k : String) :
    tsField (memoOf (dictSet "ts" (.obj ts) kvs)) k = ts.lookup k := by
  rw [tsField, memoField_memoOf h, lookup_dictSet_self]

theorem tsField_of_loads {memo : Json} {kvs ts : List (String × Json)}
    (hm : Json.loadsValue memo = .ok (.obj kvs)) (hts : tsOf kvs = .obj ts) (k : String) :
    tsField memo k = ts.lookup k := by
  rw [tsField, memoField_of_loads hm]
  unfold tsOf at hts
  cases hk : kvs.lookup "ts" with
  | none =>
      rw [hk] at hts
      cases hts
      rfl
  | some v =>
      rw [hk] at hts
      cases hts
      rfl

/-- **A mark appends to the list of its key** and leaves the other lists alone. -/
theorem tsField_stampMemo {key : String} {time : PyFloat} {memo memo' : Json}
    (h : stampMemo key time memo = .ok memo') :
    ∃ xs, (tsField memo key).getD (.arr []) = .arr xs
      ∧ tsField memo' key = some (.arr (xs ++ [.float time]))
      ∧ ∀ k, k ≠ key → tsField memo' k = tsField memo k := by
  obtain ⟨kvs, ts, xs, hm, hts, hxs, hwf, rfl⟩ := stampMemo_eq_ok h
  refine ⟨xs, by rw [tsField_of_loads hm hts, hxs], ?_, ?_⟩
  · rw [tsField_memoOf hwf, lookup_dictSet_self]
  · intro k hk
    rw [tsField_memoOf hwf, lookup_dictSet_ne hk, tsField_of_loads hm hts]

theorem tsField_stampRelayer {timeKey : String} {time : PyFloat} {memo memo' : Json}
    (h : stampRelayer timeKey time memo = .ok memo') :
    ∃ marks, relayerMarks ((tsField memo "relayer").getD .null) timeKey time = .ok marks
      ∧ tsField memo' "relayer" = some marks
      ∧ ∀ k, k ≠ "relayer" → tsField memo' k = tsField memo k := by
  obtain ⟨kvs, ts, marks, hm, hts, hmarks, hwf, rfl⟩ := stampRelayer_eq_ok h
  refine ⟨marks, by rw [tsField_of_loads hm hts, hmarks], ?_, ?_⟩
  · rw [tsField_memoOf hwf, lookup_dictSet_self]
  · intro k hk
    rw [tsField_memoOf hwf, lookup_dictSet_ne hk, tsField_of_loads hm hts]

/-- **With time marks there, a mark succeeds exactly on a key whose entry is missing
or a list.** -/
theorem stampMemo_of_stamped {memo : Json} (h : Stamped memo) (key : String) (time : PyFloat) :
    (∃ memo', stampMemo key time memo = .ok memo')
      ↔ ∀ v, tsField memo key = some v → ∃ xs, v = .arr xs := by
  obtain ⟨kvs, ts, hm, hts⟩ := h
  have htsOf : tsOf kvs = .obj ts := by
    rw [tsOf, hts]
    rfl
  constructor
  · rintro ⟨memo', hmemo⟩ v hv
    obtain ⟨xs, hxs, _⟩ := tsField_stampMemo hmemo
    rw [hv] at hxs
    exact ⟨xs, hxs⟩
  · intro hlist
    obtain ⟨xs, hxs⟩ : ∃ xs, (ts.lookup key).getD (.arr []) = .arr xs := by
      cases hv : ts.lookup key with
      | none => exact ⟨[], rfl⟩
      | some v => exact hlist v (by rw [tsField_of_loads hm htsOf, hv])
    refine ⟨memoOf (dictSet "ts" (.obj (dictSet key (.arr (xs ++ [.float time])) ts)) kvs), ?_⟩
    unfold stampMemo
    rw [hm]
    simp only [bind, Except.bind, Json.get, hts, Option.getD_some, hxs]

/-- The relayer can add its mark: no entry `relayer` there, `null`, or a list. -/
def markable (memo : Json) : Bool :=
  match tsField memo "relayer" with
  | none => true
  | some .null => true
  | some (.arr _) => true
  | some _ => false

/-- The mark on a memo with time marks. -/
theorem stampRelayer_run {memo : Json} {kvs ts : List (String × Json)}
    (hm : Json.loadsValue memo = .ok (.obj kvs)) (hts : kvs.lookup "ts" = some (.obj ts))
    (timeKey : String) (time : PyFloat) :
    stampRelayer timeKey time memo = (do
      let marks ← relayerMarks ((ts.lookup "relayer").getD .null) timeKey time
      .ok (memoOf (dictSet "ts" (.obj (dictSet "relayer" marks ts)) kvs))) := by
  unfold stampRelayer
  rw [hm]
  simp only [bind, Except.bind, Json.get, hts, Option.getD_some]

/-- On such a memo the relayer's mark raises only on marks without `append`. -/
theorem stampRelayer_error {memo : Json} (h : Stamped memo) {timeKey : String} {time : PyFloat}
    {e : Exn} (he : stampRelayer timeKey time memo = .error e) :
    ∃ v : Json, e = ⟨.attribute, "'" ++ v.typeName ++ "' object has no attribute 'append'"⟩ := by
  obtain ⟨kvs, ts, hm, hts⟩ := h
  rw [stampRelayer_run hm hts] at he
  cases hmarks : (ts.lookup "relayer").getD .null with
  | null =>
      rw [hmarks] at he
      cases he
  | arr xs =>
      rw [hmarks] at he
      cases he
  | _ =>
      rw [hmarks] at he
      cases he
      exact ⟨_, rfl⟩

/-- **With time marks there, the relayer's mark succeeds exactly on a markable memo.** -/
theorem stampRelayer_of_stamped {memo : Json} (h : Stamped memo) (timeKey : String)
    (time : PyFloat) :
    (∃ memo', stampRelayer timeKey time memo = .ok memo') ↔ markable memo = true := by
  obtain ⟨kvs, ts, hm, hts⟩ := h
  have htsOf : tsOf kvs = .obj ts := by
    rw [tsOf, hts]
    rfl
  rw [stampRelayer_run hm hts, markable, tsField_of_loads hm htsOf]
  cases hv : ts.lookup "relayer" with
  | none => exact ⟨fun _ => rfl, fun _ => ⟨_, rfl⟩⟩
  | some v =>
      -- the marks go on a list or start one; every other value has no `append`
      cases v with
      | null => exact ⟨fun _ => rfl, fun _ => ⟨_, rfl⟩⟩
      | arr xs => exact ⟨fun _ => rfl, fun _ => ⟨_, rfl⟩⟩
      | _ => exact ⟨fun ⟨_, h⟩ => (nomatch h), fun h => (nomatch h)⟩

/-- The memo as a dictionary, the list `key` of its time marks written out. -/
def openMarks (key : String) (memo : Json) : Option Json :=
  match Json.loadsValue memo with
  | .ok (.obj kvs) =>
      match tsOf kvs with
      | .obj ts =>
          match (ts.lookup key).getD (.arr []) with
          | .arr xs => some (.obj (dictSet "ts" (.obj (dictSet key (.arr xs) ts)) kvs))
          | _ => none
      | _ => none
  | _ => none

/-- The document with the list `key` of its time marks replaced through `f`. -/
def mapMarks (key : String) (f : List Json → List Json) (kvs : List (String × Json)) : Json :=
  match kvs.lookup "ts" with
  | some (.obj ts) =>
      match ts.lookup key with
      | some (.arr xs) => .obj (dictSet "ts" (.obj (dictSet key (.arr (f xs)) ts)) kvs)
      | _ => .null
  | _ => .null

theorem mapMarks_dictSet (key : String) (f : List Json → List Json) (xs : List Json)
    (ts kvs : List (String × Json)) :
    mapMarks key f (dictSet "ts" (.obj (dictSet key (.arr xs) ts)) kvs)
      = .obj (dictSet "ts" (.obj (dictSet key (.arr (f xs)) ts)) kvs) := by
  unfold mapMarks
  simp only [lookup_dictSet_self, dictSet_dictSet]

/-- **Marks made at one time are equal exactly where the memos were**, a missing list
counting as an empty one. -/
theorem stampMemo_inj {key : String} {time : PyFloat} {m₁ m₂ s₁ s₂ : Json}
    (h₁ : stampMemo key time m₁ = .ok s₁) (h₂ : stampMemo key time m₂ = .ok s₂) :
    s₁ = s₂ ↔ openMarks key m₁ = openMarks key m₂ := by
  obtain ⟨kvs₁, ts₁, xs₁, hm₁, hts₁, hxs₁, hwf₁, rfl⟩ := stampMemo_eq_ok h₁
  obtain ⟨kvs₂, ts₂, xs₂, hm₂, hts₂, hxs₂, hwf₂, rfl⟩ := stampMemo_eq_ok h₂
  have hopen₁ : openMarks key m₁
      = some (.obj (dictSet "ts" (.obj (dictSet key (.arr xs₁) ts₁)) kvs₁)) := by
    simp only [openMarks, hm₁, hts₁, hxs₁]
  have hopen₂ : openMarks key m₂
      = some (.obj (dictSet "ts" (.obj (dictSet key (.arr xs₂) ts₂)) kvs₂)) := by
    simp only [openMarks, hm₂, hts₂, hxs₂]
  rw [hopen₁, hopen₂]
  constructor
  · intro h
    have hdoc : Except.ok _ = Except.ok _ := (loadsValue_memoOf hwf₁).symm.trans
      ((congrArg Json.loadsValue h).trans (loadsValue_memoOf hwf₂))
    have hdrop := congrArg (mapMarks key List.dropLast) (Json.obj.inj (Except.ok.inj hdoc))
    simp only [mapMarks_dictSet, List.dropLast_concat] at hdrop
    rw [hdrop]
  · intro h
    have hadd := congrArg (mapMarks key (fun xs => xs ++ [.float time]))
      (Json.obj.inj (Option.some.inj h))
    simp only [mapMarks_dictSet] at hadd
    rw [memoOf, memoOf, hadd]

/-! ## §6. Rewriting at a hop. -/

/-- `memo.update({"type": …, "src": …})`, encoded again. -/
def rewriteMemo (kvs : List (String × Json)) (ty : String) (src : Int) : Json :=
  memoOf (dictUpdate kvs [("type", .str ty), ("src", .int src)])

theorem wf_rewrite {kvs : List (String × Json)} (h : (Json.obj kvs).wf = true) (ty : String)
    (src : Int) : (Json.obj (dictUpdate kvs [("type", .str ty), ("src", .int src)])).wf = true :=
  Json.wf_dictSet (Json.wf_dictSet h rfl) rfl

/-- **A rewritten memo has the new type**, and its other entries but `src`. -/
theorem memoField_rewriteMemo {kvs : List (String × Json)} (h : (Json.obj kvs).wf = true)
    (ty : String) (src : Int) :
    memoField (rewriteMemo kvs ty src) "type" = some (.str ty)
      ∧ ∀ k, k ≠ "type" → k ≠ "src" →
          memoField (rewriteMemo kvs ty src) k = kvs.lookup k := by
  have hfield : ∀ k, memoField (rewriteMemo kvs ty src) k
      = (dictUpdate kvs [("type", .str ty), ("src", .int src)]).lookup k :=
    memoField_memoOf (wf_rewrite h ty src)
  constructor
  · rw [hfield]
    show (dictSet "src" (.int src) (dictSet "type" (.str ty) kvs)).lookup "type" = _
    rw [lookup_dictSet_ne (by decide), lookup_dictSet_self]
  · intro k hty hsrc
    rw [hfield]
    show (dictSet "src" (.int src) (dictSet "type" (.str ty) kvs)).lookup k = _
    rw [lookup_dictSet_ne hsrc, lookup_dictSet_ne hty]

theorem memoField_rewriteMemo_src {kvs : List (String × Json)} (h : (Json.obj kvs).wf = true)
    (ty : String) (src : Int) : memoField (rewriteMemo kvs ty src) "src" = some (.int src) := by
  show memoField (memoOf (dictUpdate kvs [("type", .str ty), ("src", .int src)])) "src" = _
  rw [memoField_memoOf (wf_rewrite h ty src)]
  exact lookup_dictSet_self _ _ _

/-- Whether the relayer can mark a memo does not change with a rewriting, nor with
the time. -/
theorem stampRelayer_rewriteMemo {memo : Json} {kvs : List (String × Json)}
    (hm : Json.loadsValue memo = .ok (.obj kvs)) (ty : String) (src : Int) (timeKey : String)
    (time time' : PyFloat) :
    (∃ memo', stampRelayer timeKey time (rewriteMemo kvs ty src) = .ok memo')
      ↔ ∃ memo', stampRelayer timeKey time' memo = .ok memo' := by
  have hload := loadsValue_memoOf (wf_rewrite (Json.loadsValue_wf hm) ty src)
  have hts : tsOf (dictUpdate kvs [("type", .str ty), ("src", .int src)]) = tsOf kvs := by
    show ((dictSet "src" (.int src) (dictSet "type" (.str ty) kvs)).lookup "ts").getD _ = _
    rw [lookup_dictSet_ne (by decide), lookup_dictSet_ne (by decide)]
    rfl
  rw [stampRelayer_iff hm, rewriteMemo, stampRelayer_iff hload, hts]
  refine exists_congr fun ts => ?_
  constructor
  · rintro ⟨_, ht, hmarks⟩
    obtain ⟨xs, _, hall⟩ := relayerMarks_eq_ok hmarks
    exact ⟨xs, ht, hall timeKey time'⟩
  · rintro ⟨_, ht, hmarks⟩
    obtain ⟨xs, _, hall⟩ := relayerMarks_eq_ok hmarks
    exact ⟨xs, ht, hall timeKey time⟩

/-- A rewritten memo has the time marks of the old one. -/
theorem tsField_rewriteMemo {memo : Json} {kvs : List (String × Json)}
    (h : Json.loadsValue memo = .ok (.obj kvs)) (ty : String) (src : Int) (k : String) :
    tsField (rewriteMemo kvs ty src) k = tsField memo k := by
  have hts := (memoField_rewriteMemo (Json.loadsValue_wf h) ty src).2 "ts" (by decide) (by decide)
  rw [tsField, tsField, hts, memoField_of_loads h]

theorem stamped_rewriteMemo {memo : Json} {kvs : List (String × Json)} (h : Stamped memo)
    (hm : Json.loadsValue memo = .ok (.obj kvs)) (ty : String) (src : Int) :
    Stamped (rewriteMemo kvs ty src) := by
  obtain ⟨kvs', ts, hm', hts⟩ := h
  cases hm.symm.trans hm'
  refine ⟨_, ts, loadsValue_memoOf (wf_rewrite (Json.loadsValue_wf hm) ty src), ?_⟩
  show (dictSet "src" (.int src) (dictSet "type" (.str ty) kvs)).lookup "ts" = _
  rw [lookup_dictSet_ne (by decide), lookup_dictSet_ne (by decide), hts]

theorem markable_rewriteMemo {memo : Json} {kvs : List (String × Json)}
    (h : Json.loadsValue memo = .ok (.obj kvs)) (ty : String) (src : Int) :
    markable (rewriteMemo kvs ty src) = markable memo := by
  rw [markable, markable, tsField_rewriteMemo h]

end TorSim
