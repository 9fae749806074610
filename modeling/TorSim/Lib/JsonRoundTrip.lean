/-
  TorSim.Lib.JsonRoundTrip — reading a written document gives the value back.

  The scanner and the writer meet character by character: `scanStr_escapeChar`
  for strings, `scanNum_render` for floats, `scanNum_intChars` for integers.
  The parser then follows the value's own structure; the recursion bound it
  needs is the length of the text it reads.

  Main results:
    * `parseValue_render` — the parser inverts the writer in front of any text
      that cannot continue a number.
    * `loads_dumps` — **`json.loads(json.dumps(v)) == v`** for well-formed `v`.
    * `loads_wf` — whatever `json.loads` returns is well formed.
-/
import TorSim.Lib.JsonText

namespace TorSim.Lib

namespace Json

/-! ## §1. Strings. -/

theorem hex4Value_hex4 {n : Nat} (h : n < 0x10000) :
    hex4Value (hexDigit (n / 4096 % 16)) (hexDigit (n / 256 % 16)) (hexDigit (n / 16 % 16))
      (hexDigit (n % 16)) = some n := by
  have hlt : ∀ k, k % 16 < 16 := fun k => Nat.mod_lt k (by decide)
  rw [hex4Value, hexValue_hexDigit _ (hlt _), hexValue_hexDigit _ (hlt _),
    hexValue_hexDigit _ (hlt _), hexValue_hexDigit _ (hlt _)]
  simp only [Option.some.injEq]
  omega

theorem scanStr_quote (rest : List Char) : scanStr ('"' :: rest) = some ([], rest) := by
  rw [scanStr.eq_def]
  simp only [if_true]

theorem scanStr_plain {c : Char} (h1 : c ≠ '"') (h2 : c ≠ '\\') (h3 : 32 ≤ c.toNat)
    (rest : List Char) : scanStr (c :: rest) = pushChar c (scanStr rest) := by
  rw [scanStr.eq_def]
  simp only [if_neg h1, if_neg h2, if_neg (show ¬ c.toNat < 32 by omega)]

theorem scanStr_short {e c : Char} (he : e ≠ 'u') (hc : unescape e = some c)
    (rest : List Char) : scanStr ('\\' :: e :: rest) = pushChar c (scanStr rest) := by
  rw [scanStr.eq_def]
  simp only [if_neg (show ('\\' : Char) ≠ '"' by decide), if_true, if_neg he, hc]

theorem scanStr_unicode {a b k d : Char} {n : Nat} (hn : hex4Value a b k d = some n)
    (hh : isHighSurrogate n = false) (hl : isLowSurrogate n = false) (rest : List Char) :
    scanStr ('\\' :: 'u' :: a :: b :: k :: d :: rest) = pushChar (Char.ofNat n) (scanStr rest) := by
  rw [scanStr.eq_def]
  simp only [if_neg (show ('\\' : Char) ≠ '"' by decide), if_true, hn, hh, hl, Bool.false_eq_true,
    if_false]

theorem scanStr_pair {a b k d a' b' k' d' : Char} {n m : Nat} (hn : hex4Value a b k d = some n)
    (hm : hex4Value a' b' k' d' = some m) (hh : isHighSurrogate n = true)
    (hl : isLowSurrogate m = true) (rest : List Char) :
    scanStr ('\\' :: 'u' :: a :: b :: k :: d :: '\\' :: 'u' :: a' :: b' :: k' :: d' :: rest)
      = pushChar (Char.ofNat (0x10000 + (n - 0xd800) * 0x400 + (m - 0xdc00))) (scanStr rest) := by
  rw [scanStr.eq_def]
  simp only [if_neg (show ('\\' : Char) ≠ '"' by decide), if_true, hn, hh, hm, hl, and_self]

/-- A short escape is read back, and is never the letter `u`. -/
theorem unescape_escapeLetter {c e : Char} (h : escapeLetter c = some e) :
    e ≠ 'u' ∧ unescape e = some c := by
  unfold escapeLetter at h
  split at h
  next hc => cases h; subst hc; decide
  next =>
  split at h
  next hc => cases h; subst hc; decide
  next =>
  split at h
  next hc => cases h; subst hc; decide
  next =>
  split at h
  next hc => cases h; subst hc; decide
  next =>
  split at h
  next hc => cases h; subst hc; decide
  next =>
  split at h
  next hc => cases h; subst hc; decide
  next =>
  split at h
  next hc => cases h; subst hc; decide
  next => cases h

/-- A Unicode scalar value lies outside the surrogate range. -/
theorem char_not_surrogate (c : Char) :
    isHighSurrogate c.toNat = false ∧ isLowSurrogate c.toNat = false := by
  have hv : c.toNat < 0xd800 ∨ (0xdfff < c.toNat ∧ c.toNat < 0x110000) := c.valid
  simp only [isHighSurrogate, isLowSurrogate, Bool.and_eq_false_iff, decide_eq_false_iff_not]
  omega

/-- **A written character is read back.** -/
theorem scanStr_escapeChar (c : Char) (rest : List Char) :
    scanStr (escapeChar c ++ rest) = pushChar c (scanStr rest) := by
  unfold escapeChar
  cases hesc : escapeLetter c with
  | some e =>
      obtain ⟨hu, hc⟩ := unescape_escapeLetter hesc
      exact scanStr_short hu hc rest
  | none =>
      simp only
      split
      next hprint =>
          have hq : c ≠ '"' := by
            rintro rfl
            exact absurd hesc (by decide)
          have hb : c ≠ '\\' := by
            rintro rfl
            exact absurd hesc (by decide)
          exact scanStr_plain hq hb hprint.1 rest
      next =>
          obtain ⟨hh, hl⟩ := char_not_surrogate c
          split
          next hsmall =>
              have := scanStr_unicode (hex4Value_hex4 hsmall) hh hl rest
              rwa [Char.ofNat_toNat] at this
          next hbig =>
              -- a character above the basic plane is written as a surrogate pair
              have hv : c.toNat < 0x110000 := by
                have hvalid : c.toNat < 0xd800 ∨ (0xdfff < c.toNat ∧ c.toNat < 0x110000) := c.valid
                omega
              have hhi : 0xd800 + (c.toNat - 0x10000) / 0x400 < 0x10000 := by omega
              have hlo : 0xdc00 + (c.toNat - 0x10000) % 0x400 < 0x10000 := by omega
              have hpair := scanStr_pair (hex4Value_hex4 hhi) (hex4Value_hex4 hlo)
                (by simp only [isHighSurrogate, Bool.and_eq_true, decide_eq_true_eq]; omega)
                (by simp only [isLowSurrogate, Bool.and_eq_true, decide_eq_true_eq]; omega) rest
              have hval : 0x10000 + (0xd800 + (c.toNat - 0x10000) / 0x400 - 0xd800) * 0x400
                  + (0xdc00 + (c.toNat - 0x10000) % 0x400 - 0xdc00) = c.toNat := by omega
              rw [hval, Char.ofNat_toNat] at hpair
              exact hpair

theorem scanStr_flatMap (cs rest : List Char) :
    scanStr (cs.flatMap escapeChar ++ '"' :: rest) = some (cs, rest) := by
  induction cs with
  | nil => exact scanStr_quote rest
  | cons c cs ih =>
      rw [List.flatMap_cons, List.append_assoc, scanStr_escapeChar, ih]
      rfl

/-- The rest of a written string literal scans back to the string. -/
theorem scanStr_renderStr (s : String) (rest : List Char) :
    ∃ body, renderStr s ++ rest = '"' :: body ∧ scanStr body = some (s.toList, rest) := by
  refine ⟨s.toList.flatMap escapeChar ++ '"' :: rest, ?_, scanStr_flatMap s.toList rest⟩
  simp [renderStr, chars_eq]

/-! ## §2. Numbers. -/

/-- The literal of an integer. -/
def intLit (i : Int) : NumLit := ⟨decide (i < 0), Nat.toDigits 10 i.natAbs, [], none⟩

theorem render_intLit (i : Int) : (intLit i).render = intChars i := by
  cases i with
  | ofNat n =>
      show (if decide ((Int.ofNat n) < 0) then ['-'] else []) ++ (Nat.toDigits 10 n ++ []) = _
      rw [show decide (Int.ofNat n < 0) = false from decide_eq_false (by simp)]
      simp [intChars]
  | negSucc n =>
      show (if decide ((Int.negSucc n) < 0) then ['-'] else []) ++ (Nat.toDigits 10 (n + 1) ++ []) = _
      rw [show decide (Int.negSucc n < 0) = true from decide_eq_true (by omega)]
      simp [intChars]

/-- Decimal texts have no superfluous leading zero. -/
theorem toDigits_head (n : Nat) : ∃ c cs, Nat.toDigits 10 n = c :: cs ∧ (c = '0' → cs = []) := by
  induction n using Nat.strongRecOn with
  | ind n ih =>
      by_cases hn : n < 10
      · exact ⟨n.digitChar, [], Nat.toDigits_of_lt_base hn, fun _ => rfl⟩
      · obtain ⟨c, cs, hcs, hz⟩ := ih (n / 10) (by omega)
        refine ⟨c, cs ++ [(n % 10).digitChar], ?_, ?_⟩
        · rw [Nat.toDigits_of_base_le (by decide) (by omega), hcs]
          rfl
        · -- a zero head would make the shorter text the text of zero
          intro h0
          have hnil := hz h0
          rw [h0, hnil] at hcs
          have hval := Nat.ofDigitChars_ten_toDigits (n := n / 10)
          rw [hcs] at hval
          have : n / 10 = 0 := by simpa [Nat.ofDigitChars_cons] using hval.symm
          omega

theorem wf_intLit (i : Int) : (intLit i).wf = true := by
  obtain ⟨c, cs, hcs, hz⟩ := toDigits_head i.natAbs
  have hdig : ∀ d ∈ Nat.toDigits 10 i.natAbs, isAsciiDigit d = true :=
    fun d hd => asciiDigit_of_mem_toDigits hd
  simp only [NumLit.wf, intLit, hcs, List.all_nil, Bool.and_true]
  rw [hcs] at hdig
  by_cases h0 : c = '0'
  · rw [if_pos h0, hz h0]
    rfl
  · rw [if_neg h0, hdig c List.mem_cons_self, Bool.true_and, List.all_eq_true]
    exact fun d hd => hdig d (List.mem_cons_of_mem _ hd)

theorem digitsNat_toDigits (n : Nat) : NumLit.digitsNat (Nat.toDigits 10 n) = n := by
  have h := natOfChars_toDigits n
  rw [natOfChars, digitRun_digits _ (fun c hc => asciiDigit_of_mem_toDigits hc) false
    (Or.inl Nat.toDigits_ne_nil)] at h
  exact Option.some.inj h

theorem ofNumLit_intLit (i : Int) : ofNumLit (intLit i) = some (.int i) := by
  have hi : (intLit i).isInt = true := rfl
  rw [ofNumLit, if_pos hi]
  simp only [NumLit.toInt, intLit, digitsNat_toDigits, decide_eq_true_eq]
  congr 2
  split <;> omega

theorem ofNumLit_reprLit {x : PyFloat} {neg : Bool} {m : Nat} {e : Int}
    (hx : x.val = .finite neg m e) : ofNumLit (Double.reprLit neg m e) = some (.float x) := by
  obtain ⟨_, hint, hval⟩ := PyFloat.toDouble_reprLit hx
  rw [ofNumLit, if_neg (by simp [hint]), hval, ← hx, PyFloat.ofDouble?_val]
  rfl

/-! ## §3. Words. -/

theorem expect_append (w rest : List Char) : expect w (w ++ rest) = some rest := by
  induction w with
  | nil => rfl
  | cons c w ih => rw [List.cons_append, expect, if_pos rfl, ih]

theorem expect_of_head {w : Char} {ws cs : List Char} (h : ∀ r, cs ≠ w :: r) :
    expect (w :: ws) cs = none := by
  cases cs with
  | nil => rfl
  | cons c cs =>
      rw [expect, if_neg]
      rintro rfl
      exact h cs rfl

/-- A text that starts like a number is not one of the words. -/
theorem parseScalar_num {cs : List Char} (h : ∃ c r, cs = c :: r ∧ isAsciiDigit c = true) :
    parseScalar cs = match scanNum cs with
      | none => none
      | some (l, r) => (ofNumLit l).map (·, r) := by
  obtain ⟨c, r, rfl, hc⟩ := h
  have hno : ∀ w : Char, isAsciiDigit w = false → ∀ r', c :: r ≠ w :: r' := by
    intro w hw r' heq
    rw [(List.cons.inj heq).1, hw] at hc
    cases hc
  rw [parseScalar,
    show expect "null".toList (c :: r) = none from expect_of_head (hno 'n' (by decide)),
    show expect "true".toList (c :: r) = none from expect_of_head (hno 't' (by decide)),
    show expect "false".toList (c :: r) = none from expect_of_head (hno 'f' (by decide)),
    show expect "NaN".toList (c :: r) = none from expect_of_head (hno 'N' (by decide)),
    show expect "Infinity".toList (c :: r) = none from expect_of_head (hno 'I' (by decide)),
    show expect "-Infinity".toList (c :: r) = none from expect_of_head (hno '-' (by decide))]
    <;> rfl

/-- The same behind a minus sign. -/
theorem parseScalar_neg {cs : List Char} (h : ∃ c r, cs = '-' :: c :: r ∧ isAsciiDigit c = true) :
    parseScalar cs = match scanNum cs with
      | none => none
      | some (l, r) => (ofNumLit l).map (·, r) := by
  obtain ⟨c, r, rfl, hc⟩ := h
  have hI : ∀ r', c :: r ≠ 'I' :: r' := by
    intro r' heq
    rw [(List.cons.inj heq).1] at hc
    exact absurd hc (by decide)
  have hinf : expect "-Infinity".toList ('-' :: c :: r) = none := by
    show (if '-' = '-' then expect "Infinity".toList (c :: r) else none) = none
    rw [if_pos rfl]
    exact expect_of_head hI
  have hno : ∀ w : Char, '-' ≠ w → ∀ r', '-' :: c :: r ≠ w :: r' :=
    fun w hw r' heq => hw (List.cons.inj heq).1
  rw [parseScalar,
    show expect "null".toList ('-' :: c :: r) = none from expect_of_head (hno 'n' (by decide)),
    show expect "true".toList ('-' :: c :: r) = none from expect_of_head (hno 't' (by decide)),
    show expect "false".toList ('-' :: c :: r) = none from expect_of_head (hno 'f' (by decide)),
    show expect "NaN".toList ('-' :: c :: r) = none from expect_of_head (hno 'N' (by decide)),
    show expect "Infinity".toList ('-' :: c :: r) = none from expect_of_head (hno 'I' (by decide)),
    hinf] <;> rfl

/-- The three float words. -/
theorem parseScalar_nan (rest : List Char) :
    parseScalar ("NaN".toList ++ rest) = (floatWord .nan).map (·, rest) := by
  simp [parseScalar, expect]

theorem parseScalar_infinity (rest : List Char) :
    parseScalar ("Infinity".toList ++ rest) = (floatWord (.inf false)).map (·, rest) := by
  simp [parseScalar, expect]

theorem parseScalar_neg_infinity (rest : List Char) :
    parseScalar ("-Infinity".toList ++ rest) = (floatWord (.inf true)).map (·, rest) := by
  simp [parseScalar, expect]

theorem floatWord_val (x : PyFloat) : floatWord x.val = some (.float x) := by
  rw [floatWord, PyFloat.ofDouble?_val]
  rfl

/-- The head of a well-formed literal: a digit, or a minus sign and a digit. -/
theorem render_head {l : NumLit} (hl : l.wf = true) (rest : List Char) :
    (∃ c r, l.render ++ rest = c :: r ∧ isAsciiDigit c = true)
      ∨ (∃ c r, l.render ++ rest = '-' :: c :: r ∧ isAsciiDigit c = true) := by
  obtain ⟨neg, int, frac, exp⟩ := l
  simp only [NumLit.wf, Bool.and_eq_true] at hl
  obtain ⟨⟨hint, _⟩, _⟩ := hl
  cases int with
  | nil => simp at hint
  | cons c cs =>
      have hc : isAsciiDigit c = true := by
        change (if c = '0' then cs.isEmpty else isAsciiDigit c && cs.all isAsciiDigit) = true at hint
        by_cases h0 : c = '0'
        · rw [h0]
          decide
        · rw [if_neg h0, Bool.and_eq_true] at hint
          exact hint.1
      cases neg with
      | false => exact Or.inl ⟨c, _, rfl, hc⟩
      | true => exact Or.inr ⟨c, _, rfl, hc⟩

/-- A rendered literal is read as the value of the literal. -/
theorem parseScalar_render {l : NumLit} (hl : l.wf = true) {v : Json} (hv : ofNumLit l = some v)
    {rest : List Char} (hr : HeadNot continuesNum rest) :
    parseScalar (l.render ++ rest) = some (v, rest) := by
  have hscan := scanNum_render hl hr
  rcases render_head hl rest with h | h
  · rw [parseScalar_num h, hscan]
    simp [hv]
  · rw [parseScalar_neg h, hscan]
    simp [hv]

/-! ## §4. The parser inverts the writer. -/

/-- A scalar's text does not start like a string, an array or a dictionary. -/
theorem parseValue_scalar {fuel : Nat} {cs : List Char} {v : Json} {rest : List Char}
    (hs : ∃ c r, cs = c :: r ∧ c ≠ '"' ∧ c ≠ '[' ∧ c ≠ '\x7b')
    (h : parseScalar cs = some (v, rest)) : parseValue (fuel + 1) cs = some (v, rest) := by
  obtain ⟨c, r, rfl, h1, h2, h3⟩ := hs
  rw [parseValue, if_neg h1, if_neg h2, if_neg h3, h]

theorem digit_head {c : Char} (hc : isAsciiDigit c = true) : c ≠ '"' ∧ c ≠ '[' ∧ c ≠ '\x7b' := by
  refine ⟨?_, ?_, ?_⟩ <;>
    · rintro rfl
      exact absurd hc (by decide)

theorem parseValue_lit {fuel : Nat} {l : NumLit} (hl : l.wf = true) {v : Json}
    (hv : ofNumLit l = some v) {rest : List Char} (hr : HeadNot continuesNum rest) :
    parseValue (fuel + 1) (l.render ++ rest) = some (v, rest) := by
  refine parseValue_scalar ?_ (parseScalar_render hl hv hr)
  rcases render_head hl rest with ⟨c, r, heq, hc⟩ | ⟨c, r, heq, hc⟩
  · exact ⟨c, r, heq, digit_head hc⟩
  · exact ⟨'-', c :: r, heq, by decide, by decide, by decide⟩

theorem parseValue_str (fuel : Nat) (s : String) (rest : List Char) :
    parseValue (fuel + 1) (renderStr s ++ rest) = some (.str s, rest) := by
  obtain ⟨body, heq, hscan⟩ := scanStr_renderStr s rest
  rw [heq, parseValue, if_pos rfl, hscan]
  simp

theorem skipWs_of_head {cs : List Char} (h : HeadNot isWs cs) : skipWs cs = cs := by
  cases cs with
  | nil => rfl
  | cons c r => simp [skipWs, h c r rfl]

/-- What may stand behind a value inside a document. -/
theorem headNot_follow {c : Char} (h : c = ',' ∨ c = ']' ∨ c = '\x7d') (r : List Char) :
    HeadNot continuesNum (c :: r) := by
  rcases h with rfl | rfl | rfl <;> exact headNot_cons (by decide)

/-- The characters a document's value starts with. -/
def opensValue (c : Char) : Bool :=
  isAsciiDigit c || ['-', 'n', 't', 'f', 'N', 'I', '"', '[', '\x7b'].contains c

/-- Such a character is not whitespace, closes nothing and is no byte order mark. -/
theorem opensValue_spec {c : Char} (h : opensValue c = true) :
    isWs c = false ∧ c ≠ ']' ∧ c ≠ Char.ofNat 0xfeff := by
  have key : ∀ d : Char, opensValue d = false → c ≠ d := by
    rintro d hd rfl
    rw [h] at hd
    cases hd
  refine ⟨?_, key ']' (by decide), key _ (by decide)⟩
  simp only [isWs, Bool.or_eq_false_iff, beq_eq_false_iff_ne]
  exact ⟨⟨⟨key ' ' (by decide), key '\t' (by decide)⟩, key '\n' (by decide)⟩, key '\r' (by decide)⟩

theorem render_cons (v : Json) : ∃ c r, v.render = c :: r ∧ opensValue c = true := by
  have hnum : ∀ l : NumLit, l.wf = true → ∃ c r, l.render = c :: r ∧ opensValue c = true := by
    intro l hl
    rcases render_head hl [] with ⟨c, r, heq, hc⟩ | ⟨c, r, heq, hc⟩
    · exact ⟨c, r, by simpa using heq, by simp [opensValue, hc]⟩
    · exact ⟨'-', c :: r, by simpa using heq, by decide⟩
  cases v with
  | null => exact ⟨'n', _, rfl, by decide⟩
  | bool b => cases b <;> exact ⟨_, _, rfl, by decide⟩
  | int i =>
      obtain ⟨c, r, h⟩ := hnum (intLit i) (wf_intLit i)
      exact ⟨c, r, by rw [render, ← render_intLit, h.1], h.2⟩
  | float x =>
      rw [render, renderFloat]
      cases hx : x.val with
      | nan => exact ⟨'N', _, rfl, by decide⟩
      | inf neg => cases neg <;> exact ⟨_, _, rfl, by decide⟩
      | finite neg m e => exact hnum _ (PyFloat.toDouble_reprLit hx).1
  | str s => exact ⟨'"', _, by rw [render, renderStr], by decide⟩
  | arr xs => exact ⟨'[', _, by rw [render], by decide⟩
  | obj kvs => exact ⟨'\x7b', _, by rw [render], by decide⟩

theorem renderElems_cons (x : Json) (xs : List Json) :
    ∃ c r, renderElems (x :: xs) = c :: r ∧ opensValue c = true := by
  obtain ⟨c, r, hr, h⟩ := render_cons x
  cases xs with
  | nil => exact ⟨c, r, by rw [renderElems, hr], h⟩
  | cons y ys => exact ⟨c, r ++ (',' :: ' ' :: renderElems (y :: ys)), by rw [renderElems, hr]; rfl, h⟩

theorem renderFields_cons (k : String) (x : Json) (kvs : List (String × Json)) :
    ∃ r, renderFields ((k, x) :: kvs) = '"' :: r := by
  cases kvs with
  | nil => exact ⟨_, by rw [renderFields, renderStr]; rfl⟩
  | cons kv kvs => exact ⟨_, by rw [renderFields, renderStr]; rfl⟩

mutual

/-- **The parser inverts the writer**, in front of any text that cannot
continue a number and with a bound as long as the value's own text. -/
theorem parseValue_render : ∀ (v : Json), v.wf = true → ∀ (fuel : Nat) (rest : List Char),
    v.render.length ≤ fuel → HeadNot continuesNum rest →
      parseValue (fuel + 1) (v.render ++ rest) = some (v, rest)
  | .null, _, fuel, rest, _, _ => by
      rw [render]
      refine parseValue_scalar ⟨'n', _, rfl, by decide, by decide, by decide⟩ ?_
      rw [parseScalar, expect_append]
  | .bool true, _, fuel, rest, _, _ => by
      rw [render, if_pos rfl]
      refine parseValue_scalar ⟨'t', _, rfl, by decide, by decide, by decide⟩ ?_
      rw [parseScalar, expect_append]
      rfl
  | .bool false, _, fuel, rest, _, _ => by
      rw [render, if_neg (by decide)]
      refine parseValue_scalar ⟨'f', _, rfl, by decide, by decide, by decide⟩ ?_
      rw [parseScalar, expect_append]
      rfl
  | .int i, _, fuel, rest, _, hr => by
      rw [render, ← render_intLit]
      exact parseValue_lit (wf_intLit i) (ofNumLit_intLit i) hr
  | .float x, _, fuel, rest, _, hr => by
      rw [render, renderFloat]
      cases hx : x.val with
      | nan =>
          refine parseValue_scalar ⟨'N', _, rfl, by decide, by decide, by decide⟩ ?_
          rw [parseScalar_nan, ← hx, floatWord_val]
          rfl
      | inf neg =>
          cases neg with
          | false =>
              refine parseValue_scalar ⟨'I', _, rfl, by decide, by decide, by decide⟩ ?_
              show parseScalar ("Infinity".toList ++ rest) = _
              rw [parseScalar_infinity, ← hx, floatWord_val]
              rfl
          | true =>
              refine parseValue_scalar ⟨'-', _, rfl, by decide, by decide, by decide⟩ ?_
              show parseScalar ("-Infinity".toList ++ rest) = _
              rw [parseScalar_neg_infinity, ← hx, floatWord_val]
              rfl
      | finite neg m e =>
          exact parseValue_lit (PyFloat.toDouble_reprLit hx).1 (ofNumLit_reprLit hx) hr
  | .str s, _, fuel, rest, _, _ => by
      rw [render]
      exact parseValue_str fuel s rest
  | .arr [], _, fuel, rest, _, _ => by
      rw [render, renderElems]
      show parseValue (fuel + 1) ('[' :: ']' :: rest) = _
      rw [parseValue, if_neg (by decide), if_pos rfl]
      rfl
  | .arr (x :: xs), hwf, fuel, rest, hlen, hr => by
      obtain ⟨c, r, hc, hopen⟩ := renderElems_cons x xs
      obtain ⟨hws, hne, _⟩ := opensValue_spec hopen
      rw [render] at hlen ⊢
      simp only [List.length_cons, List.length_append, List.length_nil] at hlen
      have htext : skipWs (renderElems (x :: xs) ++ ']' :: rest) = renderElems (x :: xs) ++ ']' :: rest :=
        skipWs_of_head (by rw [hc]; exact headNot_cons hws)
      have hfuel : fuel = (fuel - 1) + 1 := by omega
      have helems := parseElems_render x xs ((wf_arr_iff _).mp hwf) (fuel - 1) rest (by omega)
      rw [← hfuel] at helems
      simp only [List.cons_append, List.append_assoc, List.nil_append]
      rw [parseValue, if_neg (by decide), if_pos rfl, htext]
      split
      next heq =>
          rw [hc] at heq
          exact absurd (List.cons.inj heq).1 hne
      next => rw [helems, Option.map_some]
  | .obj [], _, fuel, rest, _, _ => by
      rw [render, renderFields]
      show parseValue (fuel + 1) ('\x7b' :: '\x7d' :: rest) = _
      rw [parseValue, if_neg (by decide), if_neg (by decide), if_pos rfl]
      rfl
  | .obj ((k, x) :: kvs), hwf, fuel, rest, hlen, hr => by
      obtain ⟨r, hc⟩ := renderFields_cons k x kvs
      obtain ⟨hnd, hall⟩ := (wf_obj_iff _).mp hwf
      rw [render] at hlen ⊢
      simp only [List.length_cons, List.length_append, List.length_nil] at hlen
      have htext : skipWs (renderFields ((k, x) :: kvs) ++ '\x7d' :: rest)
          = renderFields ((k, x) :: kvs) ++ '\x7d' :: rest :=
        skipWs_of_head (by rw [hc]; exact headNot_cons (by decide))
      have hfuel : fuel = (fuel - 1) + 1 := by omega
      have hfields := parseFields_render k x kvs hall (fuel - 1) rest (by omega)
      rw [← hfuel] at hfields
      have hbuild : dictUpdate [] ((k, x) :: kvs) = (k, x) :: kvs :=
        foldl_dictSet_nodup ((k, x) :: kvs) [] hnd
      simp only [List.cons_append, List.append_assoc, List.nil_append]
      rw [parseValue, if_neg (by decide), if_neg (by decide), if_pos rfl, htext]
      split
      next heq =>
          rw [hc] at heq
          exact absurd (List.cons.inj heq).1 (by decide)
      next => rw [hfields, Option.map_some, hbuild]
termination_by v => sizeOf v

theorem parseElems_render : ∀ (x : Json) (xs : List Json), (∀ y ∈ x :: xs, y.wf = true) →
    ∀ (fuel : Nat) (rest : List Char), (renderElems (x :: xs)).length + 1 ≤ fuel →
      parseElems (fuel + 1) (renderElems (x :: xs) ++ ']' :: rest) = some (x :: xs, rest)
  | x, [], hwf, fuel, rest, hlen => by
      rw [renderElems] at hlen ⊢
      obtain ⟨f, rfl⟩ : ∃ f, fuel = f + 1 := ⟨fuel - 1, by omega⟩
      rw [parseElems, parseValue_render x (hwf x List.mem_cons_self) f (']' :: rest) (by omega)
        (headNot_follow (Or.inr (Or.inl rfl)) rest)]
      rfl
  | x, y :: ys, hwf, fuel, rest, hlen => by
      rw [renderElems] at hlen ⊢
      simp only [List.length_append, List.length_cons] at hlen
      obtain ⟨f, rfl⟩ : ∃ f, fuel = f + 1 := ⟨fuel - 1, by omega⟩
      obtain ⟨c, r, hc, hopen⟩ := renderElems_cons y ys
      have hws := (opensValue_spec hopen).1
      have htail := parseElems_render y ys (fun z hz => hwf z (List.mem_cons_of_mem _ hz)) f rest
        (by omega)
      have hskip : skipWs (' ' :: (renderElems (y :: ys) ++ ']' :: rest))
          = renderElems (y :: ys) ++ ']' :: rest := by
        show skipWs (renderElems (y :: ys) ++ ']' :: rest) = _
        exact skipWs_of_head (by rw [hc]; exact headNot_cons hws)
      simp only [List.append_assoc, List.cons_append]
      rw [parseElems, parseValue_render x (hwf x List.mem_cons_self) f _ (by omega)
        (headNot_follow (Or.inl rfl) _)]
      show (parseElems (f + 1) (skipWs (' ' :: (renderElems (y :: ys) ++ ']' :: rest)))).map
        (fun p => (x :: p.1, p.2)) = _
      rw [hskip, htail, Option.map_some]
termination_by x xs => sizeOf (x :: xs)

theorem parseFields_render : ∀ (k : String) (x : Json) (kvs : List (String × Json)),
    (∀ p ∈ (k, x) :: kvs, p.2.wf = true) →
    ∀ (fuel : Nat) (rest : List Char), (renderFields ((k, x) :: kvs)).length + 1 ≤ fuel →
      parseFields (fuel + 1) (renderFields ((k, x) :: kvs) ++ '\x7d' :: rest)
        = some ((k, x) :: kvs, rest)
  | k, x, [], hwf, fuel, rest, hlen => by
      rw [renderFields] at hlen ⊢
      simp only [List.length_append, List.length_cons] at hlen
      obtain ⟨f, rfl⟩ : ∃ f, fuel = f + 1 := ⟨fuel - 1, by omega⟩
      obtain ⟨c, r, hc, hopen⟩ := render_cons x
      have hws := (opensValue_spec hopen).1
      obtain ⟨body, hbody, hscan⟩ := scanStr_renderStr k (':' :: ' ' :: (render x ++ '\x7d' :: rest))
      have hskip : skipWs (' ' :: (render x ++ '\x7d' :: rest)) = render x ++ '\x7d' :: rest := by
        show skipWs (render x ++ '\x7d' :: rest) = _
        exact skipWs_of_head (by rw [hc]; exact headNot_cons hws)
      simp only [List.append_assoc, List.cons_append]
      rw [hbody, parseFields, if_pos rfl, hscan]
      show (match parseValue (f + 1) (skipWs (' ' :: (render x ++ '\x7d' :: rest))) with
        | none => none
        | some (x, r2) => _) = _
      rw [hskip, parseValue_render x (hwf (k, x) List.mem_cons_self) f ('\x7d' :: rest) (by omega)
        (headNot_follow (Or.inr (Or.inr rfl)) rest)]
      show some ([(String.ofList k.toList, x)], rest) = _
      rw [String.ofList_toList]
  | k, x, (k', y) :: kvs, hwf, fuel, rest, hlen => by
      rw [renderFields] at hlen ⊢
      simp only [List.length_append, List.length_cons] at hlen
      obtain ⟨f, rfl⟩ : ∃ f, fuel = f + 1 := ⟨fuel - 1, by omega⟩
      obtain ⟨c, r, hc, hopen⟩ := render_cons x
      have hws := (opensValue_spec hopen).1
      obtain ⟨q, hq⟩ := renderFields_cons k' y kvs
      obtain ⟨body, hbody, hscan⟩ := scanStr_renderStr k
        (':' :: ' ' :: (render x ++ ',' :: ' ' :: (renderFields ((k', y) :: kvs) ++ '\x7d' :: rest)))
      have htail := parseFields_render k' y kvs (fun p hp => hwf p (List.mem_cons_of_mem _ hp)) f rest
        (by omega)
      have hskip : skipWs (' ' :: (render x ++ ',' :: ' '
            :: (renderFields ((k', y) :: kvs) ++ '\x7d' :: rest)))
          = render x ++ ',' :: ' ' :: (renderFields ((k', y) :: kvs) ++ '\x7d' :: rest) := by
        show skipWs (render x ++ _) = _
        exact skipWs_of_head (by rw [hc]; exact headNot_cons hws)
      have hskip' : skipWs (' ' :: (renderFields ((k', y) :: kvs) ++ '\x7d' :: rest))
          = renderFields ((k', y) :: kvs) ++ '\x7d' :: rest := by
        show skipWs (renderFields ((k', y) :: kvs) ++ '\x7d' :: rest) = _
        exact skipWs_of_head (by rw [hq]; exact headNot_cons (by decide))
      simp only [List.append_assoc, List.cons_append]
      rw [hbody, parseFields, if_pos rfl, hscan]
      show (match parseValue (f + 1) (skipWs (' ' :: (render x ++ ',' :: ' '
          :: (renderFields ((k', y) :: kvs) ++ '\x7d' :: rest)))) with
        | none => none
        | some (x, r2) => _) = _
      rw [hskip, parseValue_render x (hwf (k, x) List.mem_cons_self) f _ (by omega)
        (headNot_follow (Or.inl rfl) _)]
      show (parseFields (f + 1) (skipWs (' ' :: (renderFields ((k', y) :: kvs) ++ '\x7d' :: rest)))).map
        (fun p => ((String.ofList k.toList, x) :: p.1, p.2)) = _
      rw [hskip', htail, Option.map_some, String.ofList_toList]
termination_by k x kvs => sizeOf ((k, x) :: kvs)

end

/-! ## §5. The round trip. -/

theorem ofChars_render {v : Json} (hv : v.wf = true) : ofChars v.render = some v := by
  obtain ⟨c, r, hc, hopen⟩ := render_cons v
  have hws := (opensValue_spec hopen).1
  have hparse := parseValue_render v hv v.render.length [] (Nat.le_refl _) (headNot_nil _)
  rw [List.append_nil] at hparse
  have hskip : skipWs v.render = v.render := skipWs_of_head (by rw [hc]; exact headNot_cons hws)
  rw [ofChars, hskip, hparse]
  rfl

/-- **`json.loads(json.dumps(v)) == v`.** -/
@[simp] theorem loads_dumps {v : Json} (hv : v.wf = true) : loads (dumps v) = .ok v := by
  obtain ⟨c, r, hc, hopen⟩ := render_cons v
  have hof := ofChars_render hv
  rw [hc] at hof
  rw [loads, dumps, chars_eq, String.toList_ofList, hc]
  simp only [if_neg (opensValue_spec hopen).2.2, hof]

/-- Different well-formed values have different documents. -/
theorem dumps_injective {v w : Json} (hv : v.wf = true) (hw : w.wf = true)
    (h : dumps v = dumps w) : v = w := by
  have hl := loads_dumps hv
  rw [h, loads_dumps hw] at hl
  exact (Except.ok.inj hl).symm

/-! ## §6. Documents are well formed. -/

theorem wf_parseScalar {cs r : List Char} {v : Json} (h : parseScalar cs = some (v, r)) :
    v.wf = true := by
  have hfloat : ∀ (x : Double) (r' : List Char), (floatWord x).map (·, r') = some (v, r) →
      v.wf = true := by
    intro x r' hx
    simp only [floatWord, Option.map_map, Option.map_eq_some_iff, Function.comp_apply,
      Prod.mk.injEq] at hx
    obtain ⟨y, _, hy, _⟩ := hx
    rw [← hy]
    rfl
  unfold parseScalar at h
  split at h
  next => cases h; rfl
  next =>
  split at h
  next => cases h; rfl
  next =>
  split at h
  next => cases h; rfl
  next =>
  split at h
  next => exact hfloat _ _ h
  next =>
  split at h
  next => exact hfloat _ _ h
  next =>
  split at h
  next => exact hfloat _ _ h
  next =>
  split at h
  next => cases h
  next l r' _ =>
      simp only [Option.map_eq_some_iff, Prod.mk.injEq] at h
      obtain ⟨w, hw, hwv, _⟩ := h
      subst hwv
      unfold ofNumLit at hw
      split at hw
      next => cases hw; rfl
      next =>
          simp only [Option.map_eq_some_iff] at hw
          obtain ⟨y, _, rfl⟩ := hw
          rfl

/-- Whatever the parser returns is well formed; the induction is on the bound,
with the three mutual parts together. -/
theorem wf_parse (fuel : Nat) :
    (∀ cs v r, parseValue fuel cs = some (v, r) → v.wf = true)
      ∧ (∀ cs xs r, parseElems fuel cs = some (xs, r) → ∀ x ∈ xs, x.wf = true)
      ∧ (∀ cs kvs r, parseFields fuel cs = some (kvs, r) → ∀ p ∈ kvs, p.2.wf = true) := by
  induction fuel with
  | zero =>
      refine ⟨?_, ?_, ?_⟩
      · intro cs v r h; simp [parseValue] at h
      · intro cs xs r h; simp [parseElems] at h
      · intro cs kvs r h; simp [parseFields] at h
  | succ fuel ih =>
      obtain ⟨ihv, ihe, ihf⟩ := ih
      refine ⟨?_, ?_, ?_⟩
      · intro cs v r h
        cases cs with
        | nil => simp [parseValue] at h
        | cons c cs =>
            rw [parseValue] at h
            split at h
            next =>
                simp only [Option.map_eq_some_iff, Prod.mk.injEq] at h
                obtain ⟨p, _, hp, _⟩ := h
                rw [← hp]
                rfl
            next =>
            split at h
            next =>
                split at h
                next => cases h; rfl
                next =>
                    simp only [Option.map_eq_some_iff, Prod.mk.injEq] at h
                    obtain ⟨⟨xs, r'⟩, hp, hv, _⟩ := h
                    rw [← hv, wf_arr_iff]
                    exact ihe _ _ _ hp
            next =>
            split at h
            next =>
                split at h
                next => cases h; rfl
                next =>
                    simp only [Option.map_eq_some_iff, Prod.mk.injEq] at h
                    obtain ⟨⟨kvs, r'⟩, hp, hv, _⟩ := h
                    rw [← hv, wf_obj_iff]
                    refine ⟨nodup_keys_foldl kvs [] (by simp), ?_⟩
                    intro p hmem
                    rcases mem_foldl_dictSet kvs [] hmem with hnil | hkvs
                    · cases hnil
                    · exact ihf _ _ _ hp p hkvs
            next => exact wf_parseScalar h
      · intro cs xs r h
        rw [parseElems] at h
        split at h
        next => cases h
        next x r' hx =>
            split at h
            next =>
                simp only [Option.map_eq_some_iff, Prod.mk.injEq] at h
                obtain ⟨⟨ys, r''⟩, hp, hxs, _⟩ := h
                rw [← hxs]
                intro y hy
                rcases List.mem_cons.mp hy with rfl | hy
                · exact ihv _ _ _ hx
                · exact ihe _ _ _ hp y hy
            next =>
                cases h
                intro y hy
                rw [List.mem_singleton.mp hy]
                exact ihv _ _ _ hx
            next => cases h
      · intro cs kvs r h
        cases cs with
        | nil => simp [parseFields] at h
        | cons c cs =>
            rw [parseFields] at h
            split at h
            next =>
                split at h
                next => cases h
                next =>
                split at h
                next =>
                    split at h
                    next => cases h
                    next x r2 hx =>
                        split at h
                        next =>
                            simp only [Option.map_eq_some_iff, Prod.mk.injEq] at h
                            obtain ⟨⟨more, r4⟩, hp, hkvs, _⟩ := h
                            rw [← hkvs]
                            intro p hmem
                            rcases List.mem_cons.mp hmem with rfl | hmem
                            · exact ihv _ _ _ hx
                            · exact ihf _ _ _ hp p hmem
                        next =>
                            cases h
                            intro p hmem
                            rw [List.mem_singleton.mp hmem]
                            exact ihv _ _ _ hx
                        next => cases h
                next => cases h
            next => cases h

/-- **Whatever `json.loads` returns is well formed.** -/
theorem loads_wf {s : String} {v : Json} (h : loads s = .ok v) : v.wf = true := by
  unfold loads at h
  split at h
  next => cases h
  next =>
  split at h
  next => cases h
  next =>
  split at h
  next hof =>
      cases h
      unfold ofChars at hof
      split at hof
      next hp =>
          split at hof
          next =>
              cases hof
              exact (wf_parse _).1 _ _ _ hp
          next => cases hof
      next => cases hof
  next => cases h

theorem loadsValue_wf {d v : Json} (h : loadsValue d = .ok v) : v.wf = true := by
  unfold loadsValue at h
  split at h
  next => exact loads_wf h
  next => cases h

end Json

end TorSim.Lib
