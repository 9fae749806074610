/-
  TorSim.Lib.Json — JSON documents as the host language's values.

  `json.loads` turns a document into `None`, booleans, integers, floats,
  strings, lists and dictionaries; the programs then subscript, update and
  format these values.  A dictionary is its list of entries in insertion order;
  `Json.wf` says that no key occurs twice, and every operation keeps it.

  Main results:
    * `lookup_dictSet_self` / `lookup_dictSet_ne` — reading after writing a key.
    * `foldl_dictSet_nodup` — entries with distinct keys rebuild themselves.
    * `wf_dictSet` — writing a key keeps a dictionary well formed.
-/
import TorSim.Lib.Float

namespace TorSim.Lib

/-! ## §1. Values. -/

/-- A JSON value. -/
inductive Json where
  | null
  | bool (b : Bool)
  | int (i : Int)
  | float (x : PyFloat)
  | str (s : String)
  | arr (xs : List Json)
  | obj (kvs : List (String × Json))

/-! ## §2. Dictionaries. -/

/-- `d[k] = v`: replace in place, or append. -/
def dictSet {α : Type} (k : String) (v : α) : List (String × α) → List (String × α)
  | [] => [(k, v)]
  | (k', v') :: d => if k' = k then (k, v) :: d else (k', v') :: dictSet k v d

/-- `d.update(e)`. -/
def dictUpdate {α : Type} (d e : List (String × α)) : List (String × α) :=
  e.foldl (fun acc kv => dictSet kv.1 kv.2 acc) d

section Dict

variable {α : Type}

@[simp] theorem lookup_dictSet_self (k : String) (v : α) (d : List (String × α)) :
    (dictSet k v d).lookup k = some v := by
  induction d with
  | nil => simp [dictSet]
  | cons kv d ih =>
      obtain ⟨k', v'⟩ := kv
      by_cases h : k' = k
      · simp [dictSet, h]
      · simp [dictSet, h, List.lookup_cons, beq_false_of_ne (Ne.symm h), ih]

theorem lookup_dictSet_ne {k k' : String} (h : k' ≠ k) (v : α) (d : List (String × α)) :
    (dictSet k v d).lookup k' = d.lookup k' := by
  induction d with
  | nil => simp [dictSet, List.lookup_cons, beq_false_of_ne h]
  | cons kv d ih =>
      obtain ⟨q, w⟩ := kv
      by_cases hq : q = k
      · have hk' : (k' == q) = false := beq_false_of_ne (hq ▸ h)
        simp [dictSet, hq, List.lookup_cons, beq_false_of_ne h]
      · simp only [dictSet, if_neg hq, List.lookup_cons, ih]

/-- The second of two assignments to a key wins. -/
theorem dictSet_dictSet (k : String) (v w : α) (d : List (String × α)) :
    dictSet k v (dictSet k w d) = dictSet k v d := by
  induction d with
  | nil => simp [dictSet]
  | cons e d ih =>
      obtain ⟨k', u⟩ := e
      by_cases hk : k' = k
      · simp [dictSet, hk]
      · simp [dictSet, hk, ih]

/-- The keys after writing `k`: unchanged when it was there, one longer otherwise. -/
theorem keys_dictSet (k : String) (v : α) (d : List (String × α)) :
    (dictSet k v d).map Prod.fst
      = if k ∈ d.map Prod.fst then d.map Prod.fst else d.map Prod.fst ++ [k] := by
  induction d with
  | nil => simp [dictSet]
  | cons kv d ih =>
      obtain ⟨q, w⟩ := kv
      by_cases hq : q = k
      · simp [dictSet, hq]
      · simp only [dictSet, if_neg hq, List.map_cons, ih, List.mem_cons, Ne.symm hq, false_or]
        split <;> rfl

theorem nodup_keys_dictSet (k : String) (v : α) {d : List (String × α)}
    (h : (d.map Prod.fst).Nodup) : ((dictSet k v d).map Prod.fst).Nodup := by
  rw [keys_dictSet]
  split
  next => exact h
  next hk =>
      rw [List.nodup_append]
      refine ⟨h, by simp, ?_⟩
      intro a ha b hb
      rw [List.mem_singleton.mp hb]
      exact fun hab => hk (hab ▸ ha)

theorem dictSet_of_not_mem {k : String} (v : α) {d : List (String × α)}
    (h : k ∉ d.map Prod.fst) : dictSet k v d = d ++ [(k, v)] := by
  induction d with
  | nil => rfl
  | cons kv d ih =>
      obtain ⟨q, w⟩ := kv
      simp only [List.map_cons, List.mem_cons, not_or] at h
      rw [dictSet, if_neg (Ne.symm h.1), ih h.2]
      rfl

/-- **Entries with distinct keys rebuild themselves** when set one by one. -/
theorem foldl_dictSet_nodup (e : List (String × α)) :
    ∀ d : List (String × α), ((d ++ e).map Prod.fst).Nodup →
      e.foldl (fun acc kv => dictSet kv.1 kv.2 acc) d = d ++ e := by
  induction e with
  | nil => intro d _; simp
  | cons kv e ih =>
      intro d hd
      have hk : kv.1 ∉ d.map Prod.fst := by
        rw [List.map_append, List.nodup_append] at hd
        exact fun hmem => hd.2.2 _ hmem _ (by simp) rfl
      rw [List.foldl_cons, dictSet_of_not_mem kv.2 hk, ih]
      · simp
      · simpa using hd

theorem nodup_keys_foldl (e : List (String × α)) :
    ∀ d : List (String × α), (d.map Prod.fst).Nodup →
      ((e.foldl (fun acc kv => dictSet kv.1 kv.2 acc) d).map Prod.fst).Nodup := by
  induction e with
  | nil => intro d hd; exact hd
  | cons kv e ih =>
      intro d hd
      exact ih _ (nodup_keys_dictSet kv.1 kv.2 hd)

/-- A value of the dictionary after a write is the new one or an old one. -/
theorem mem_dictSet {k : String} {v : α} {d : List (String × α)} {p : String × α}
    (h : p ∈ dictSet k v d) : p = (k, v) ∨ p ∈ d := by
  induction d with
  | nil => exact Or.inl (List.mem_singleton.mp h)
  | cons kv d ih =>
      obtain ⟨q, w⟩ := kv
      by_cases hq : q = k
      · rw [dictSet, if_pos hq] at h
        rcases List.mem_cons.mp h with h | h
        · exact Or.inl h
        · exact Or.inr (List.mem_cons_of_mem _ h)
      · rw [dictSet, if_neg hq] at h
        rcases List.mem_cons.mp h with h | h
        · exact Or.inr (h ▸ List.mem_cons_self)
        · exact (ih h).imp id (List.mem_cons_of_mem _)

theorem mem_foldl_dictSet {p : String × α} (e : List (String × α)) :
    ∀ d : List (String × α), p ∈ e.foldl (fun acc kv => dictSet kv.1 kv.2 acc) d →
      p ∈ d ∨ p ∈ e := by
  induction e with
  | nil => intro d h; exact Or.inl h
  | cons kv e ih =>
      intro d h
      rcases ih _ h with h | h
      · rcases mem_dictSet h with h | h
        · exact Or.inr (h ▸ List.mem_cons_self)
        · exact Or.inl h
      · exact Or.inr (List.mem_cons_of_mem _ h)

theorem mem_of_lookup {κ : Type} [BEq κ] [LawfulBEq κ] {k : κ} {v : α} {d : List (κ × α)}
    (h : d.lookup k = some v) : (k, v) ∈ d := by
  obtain ⟨pre, post, rfl, _⟩ := List.lookup_eq_some_iff.mp h
  exact List.mem_append_right _ List.mem_cons_self

end Dict

/-! ## §3. Well-formed values. -/

namespace Json

mutual

/-- No dictionary inside has a key twice. -/
def wf : Json → Bool
  | .arr xs => wfList xs
  | .obj kvs => decide (kvs.map Prod.fst).Nodup && wfFields kvs
  | _ => true

def wfList : List Json → Bool
  | [] => true
  | x :: xs => x.wf && wfList xs

def wfFields : List (String × Json) → Bool
  | [] => true
  | (_, x) :: kvs => x.wf && wfFields kvs

end

theorem wfList_iff (xs : List Json) : wfList xs = true ↔ ∀ x ∈ xs, x.wf = true := by
  induction xs with
  | nil => simp [wfList]
  | cons x xs ih => simp [wfList, ih]

theorem wfFields_iff (kvs : List (String × Json)) :
    wfFields kvs = true ↔ ∀ p ∈ kvs, p.2.wf = true := by
  induction kvs with
  | nil => simp [wfFields]
  | cons kv kvs ih =>
      obtain ⟨k, x⟩ := kv
      simp [wfFields, ih]

theorem wf_obj_iff (kvs : List (String × Json)) :
    (Json.obj kvs).wf = true ↔ (kvs.map Prod.fst).Nodup ∧ ∀ p ∈ kvs, p.2.wf = true := by
  rw [wf, Bool.and_eq_true, decide_eq_true_eq, wfFields_iff]

theorem wf_arr_iff (xs : List Json) : (Json.arr xs).wf = true ↔ ∀ x ∈ xs, x.wf = true := by
  rw [wf, wfList_iff]

/-- **Writing a key keeps a dictionary well formed.** -/
theorem wf_dictSet {k : String} {v : Json} {d : List (String × Json)}
    (hd : (Json.obj d).wf = true) (hv : v.wf = true) : (Json.obj (dictSet k v d)).wf = true := by
  rw [wf_obj_iff] at hd ⊢
  refine ⟨nodup_keys_dictSet k v hd.1, ?_⟩
  intro p hp
  rcases mem_dictSet hp with h | h
  · rw [h]
    exact hv
  · exact hd.2 p h

theorem wf_lookup {k : String} {v : Json} {d : List (String × Json)}
    (hd : (Json.obj d).wf = true) (h : d.lookup k = some v) : v.wf = true :=
  ((wf_obj_iff d).mp hd).2 _ (mem_of_lookup h)

/-! ## §4. The operations programs apply to values. -/

/-- `type(v).__name__`. -/
def typeName : Json → String
  | .null => "NoneType"
  | .bool _ => "bool"
  | .int _ => "int"
  | .float _ => "float"
  | .str _ => "str"
  | .arr _ => "list"
  | .obj _ => "dict"

/-- `v.get(k, default)`. -/
def get (v : Json) (k : String) (default : Json) : Except Exn Json :=
  match v with
  | .obj kvs => .ok ((kvs.lookup k).getD default)
  | v => .error ⟨.attribute, "'" ++ v.typeName ++ "' object has no attribute 'get'"⟩

/-- `v[k]` for a string `k`. -/
def getItem (v : Json) (k : String) : Except Exn Json :=
  match v with
  | .obj kvs =>
      match kvs.lookup k with
      | some x => .ok x
      | none => .error ⟨.key, "'" ++ k ++ "'"⟩
  | .str _ => .error ⟨.type, "string indices must be integers"⟩
  | .arr _ => .error ⟨.type, "list indices must be integers or slices, not str"⟩
  | v => .error ⟨.type, "'" ++ v.typeName ++ "' object is not subscriptable"⟩

theorem lookup_of_getItem {kvs : List (String × Json)} {k : String} {x : Json}
    (h : (Json.obj kvs).getItem k = .ok x) : kvs.lookup k = some x := by
  unfold getItem at h
  cases hk : kvs.lookup k with
  | none => simp [hk] at h
  | some y => simpa [hk] using h

/-- `v == s` for a string `s`. -/
def isStr (v : Json) (s : String) : Bool :=
  match v with
  | .str t => t == s
  | _ => false

/-- `not v`. -/
def isFalsy : Json → Bool
  | .null => true
  | .bool b => !b
  | .int i => i == 0
  | .float x => match x.val with
    | .finite _ m _ => m == 0
    | _ => false
  | .str s => s == ""
  | .arr xs => xs.isEmpty
  | .obj kvs => kvs.isEmpty

/-- `s.encode()`, which only strings have. -/
def encode : Json → Except Exn Bytes
  | .str s => .ok (encodeUtf8 s)
  | v => .error ⟨.attribute, "'" ++ v.typeName ++ "' object has no attribute 'encode'"⟩

/-- `bytes.fromhex(v)`, which takes only strings. -/
def fromhexArg : Json → Except Exn Bytes
  | .str s => fromhex s
  | .null => .error ⟨.type, "fromhex() argument must be str, not None"⟩
  | v => .error ⟨.type, "fromhex() argument must be str, not " ++ v.typeName⟩

/-- `int(v)`. -/
def toInt : Json → Except Exn Int
  | .int i => .ok i
  | .bool b => .ok (if b then 1 else 0)
  | .float x => x.val.trunc
  | .str s => intOfStr s
  | v => .error ⟨.type, "int() argument must be a string, a bytes-like object or a number, not '"
      ++ v.typeName ++ "'"⟩

/-! ## §5. `str(v)`. -/

/-- Two lower-case hexadecimal digits. -/
def hexByte (n : Nat) : List Char := [hexDigit (n / 16), hexDigit (n % 16)]

/-- One character of `repr(s)`.  Characters above `U+00FF` are kept: of these
`repr` escapes only the unassigned and format ones. -/
def reprChar (quote c : Char) : List Char :=
  let n := c.toNat
  if c = quote ∨ c = '\\' then ['\\', c]
  else if c = '\n' then ['\\', 'n']
  else if c = '\r' then ['\\', 'r']
  else if c = '\t' then ['\\', 't']
  else if n < 32 ∨ (127 ≤ n ∧ n ≤ 160) ∨ n = 173 then '\\' :: 'x' :: hexByte n
  else [c]

/-- `repr(s)`: single quotes unless the text holds a single quote and no double one. -/
def reprStr (s : String) : String :=
  let cs := s.toList
  let quote := if cs.contains '\'' && !cs.contains '"' then '"' else '\''
  String.ofList (quote :: (cs.flatMap (reprChar quote) ++ [quote]))

mutual

/-- `repr(v)`. -/
def repr : Json → String
  | .null => "None"
  | .bool b => if b then "True" else "False"
  | .int i => toString i
  | .float x => x.str
  | .str s => reprStr s
  | .arr xs => "[" ++ reprElems xs ++ "]"
  | .obj kvs => "\x7b" ++ reprFields kvs ++ "\x7d"

def reprElems : List Json → String
  | [] => ""
  | [x] => repr x
  | x :: y :: xs => repr x ++ ", " ++ reprElems (y :: xs)

def reprFields : List (String × Json) → String
  | [] => ""
  | [(k, x)] => reprStr k ++ ": " ++ repr x
  | (k, x) :: kv :: kvs => reprStr k ++ ": " ++ repr x ++ ", " ++ reprFields (kv :: kvs)

end

/-- `str(v)`: a string is itself. -/
def toStr : Json → String
  | .str s => s
  | v => repr v

@[simp] theorem toStr_str (s : String) : toStr (.str s) = s := rfl

@[simp] theorem toStr_int (i : Int) : toStr (.int i) = toString i := by
  rw [toStr, repr]
  intro s h
  cases h

end Json

end TorSim.Lib
