/-
  TorSim.Lib.Float — binary64 numbers as their text determines them.

  A `float` is read from a decimal literal by rounding to the nearest binary64
  number (ties to even) and written as the shortest literal that reads back.
  Both directions are exact integer arithmetic here.  `PyFloat` carries the
  read-back property as a field, so a value that its own text does not
  determine cannot be built.

  Main results:
    * `scanNum_render` — scanning a rendered literal returns it and stops at
      the first character that cannot continue it.
    * `PyFloat.toDouble_reprLit` — `float(repr(x)) == x`.
-/
import TorSim.Lib.Text
import TorSim.Lib.Bytes

namespace TorSim.Lib

/-! ## §1. Binary64. -/

/-- A binary64 value: `finite neg m e` is `(-1)^neg · m · 2^e`. -/
inductive Double where
  | nan
  | inf (neg : Bool)
  | finite (neg : Bool) (m : Nat) (e : Int)
  deriving Repr, DecidableEq

namespace Double

/-- Scale a positive fraction by `2^(-e)`. -/
def scale2 (num den : Nat) (e : Int) : Nat × Nat :=
  if 0 ≤ e then (num, den * 2 ^ e.toNat) else (num * 2 ^ (-e).toNat, den)

/-- Scale a positive fraction by `10^(-p)`. -/
def scale10 (num den : Nat) (p : Int) : Nat × Nat :=
  if 0 ≤ p then (num, den * 10 ^ p.toNat) else (num * 10 ^ (-p).toNat, den)

/-- The quotient rounded to the nearest integer, ties to even. -/
def roundDiv (a b : Nat) : Nat :=
  let q := a / b
  let r := a % b
  if 2 * r < b then q else if b < 2 * r then q + 1 else q + q % 2

/-- The binary64 number nearest to `num / den`. -/
def ofFraction (neg : Bool) (num den : Nat) : Double :=
  if num = 0 then .finite neg 0 (-1074)
  else
    let e0 : Int := (Nat.log2 num : Int) - Nat.log2 den - 52
    let s0 := scale2 num den e0
    let e1 : Int := if s0.1 / s0.2 < 2 ^ 52 then e0 - 1 else e0
    let e := max e1 (-1074)
    let s := scale2 num den e
    let q := roundDiv s.1 s.2
    let r : Nat × Int := if q = 2 ^ 53 then (2 ^ 52, e + 1) else (q, e)
    if 971 < r.2 then .inf neg else .finite neg r.1 r.2

/-- The binary64 number nearest to `d · 10^k`. -/
def ofDecimal (neg : Bool) (d : Nat) (k : Int) : Double :=
  if 0 ≤ k then ofFraction neg (d * 10 ^ k.toNat) 1
  else ofFraction neg d (10 ^ (-k).toNat)

/-- `x > i`, compared exactly. -/
def gtInt : Double → Int → Bool
  | .nan, _ => false
  | .inf neg, _ => !neg
  | .finite neg m e, i =>
      let v : Int := if neg then -(m : Int) else m
      if 0 ≤ e then decide (i < v * 2 ^ e.toNat) else decide (i * 2 ^ (-e).toNat < v)

/-- `int(x)`: truncation toward zero. -/
def trunc : Double → Except Exn Int
  | .nan => .error ⟨.value, "cannot convert float NaN to integer"⟩
  | .inf _ => .error ⟨.overflow, "cannot convert float infinity to integer"⟩
  | .finite neg m e =>
      let a : Nat := if 0 ≤ e then m * 2 ^ e.toNat else m / 2 ^ (-e).toNat
      .ok (if neg then -(a : Int) else a)

/-- `math.ceil(x)`. -/
def ceil : Double → Except Exn Int
  | .nan => .error ⟨.value, "cannot convert float NaN to integer"⟩
  | .inf _ => .error ⟨.overflow, "cannot convert float infinity to integer"⟩
  | .finite neg m e =>
      let v : Int := if neg then -(m : Int) else m
      .ok (if 0 ≤ e then v * 2 ^ e.toNat else -(-v / 2 ^ (-e).toNat))

/-- `a / b` of two integers that are not negative, `b` not zero. -/
def ofQuotient (a b : Nat) : Except Exn Double :=
  match ofFraction false a b with
  | .inf _ => .error ⟨.overflow, "integer division result too large for a float"⟩
  | x => .ok x

end Double

/-! ## §2. Number literals. -/

/-- A decimal literal: sign, integer digits, fraction digits (none when empty),
exponent sign and digits. -/
structure NumLit where
  neg : Bool
  int : List Char
  frac : List Char
  exp : Option (Bool × List Char)
  deriving Repr, DecidableEq

namespace NumLit

/-- Without a fraction and an exponent the literal is an integer. -/
def isInt (l : NumLit) : Bool := l.frac.isEmpty && l.exp.isNone

/-- The number the digits `cs` denote. -/
def digitsNat (cs : List Char) : Nat := ofDigitList (cs.map (fun c => c.toNat - 48))

/-- The exponent of ten in front of the joined digits. -/
def exponent (l : NumLit) : Int :=
  (match l.exp with
    | none => 0
    | some (neg, ds) => if neg then -(digitsNat ds : Int) else digitsNat ds) - l.frac.length

def toDouble (l : NumLit) : Double :=
  Double.ofDecimal l.neg (digitsNat (l.int ++ l.frac)) l.exponent

def toInt (l : NumLit) : Int :=
  if l.neg then -(digitsNat l.int : Int) else digitsNat l.int

/-- No superfluous leading zero, digits only, no empty exponent. -/
def wf (l : NumLit) : Bool :=
  (match l.int with
    | [] => false
    | c :: cs => if c = '0' then cs.isEmpty else isAsciiDigit c && cs.all isAsciiDigit)
  && l.frac.all isAsciiDigit
  && (match l.exp with
    | none => true
    | some (_, ds) => !ds.isEmpty && ds.all isAsciiDigit)

def renderFrac : List Char → List Char
  | [] => []
  | ds => '.' :: ds

def renderExp : Option (Bool × List Char) → List Char
  | none => []
  | some (neg, ds) => 'e' :: (if neg then '-' else '+') :: ds

/-- The text of a literal. -/
def render (l : NumLit) : List Char :=
  (if l.neg then ['-'] else []) ++ (l.int ++ (renderFrac l.frac ++ renderExp l.exp))

end NumLit

/-! ## §3. Scanning a literal. -/

/-- The longest prefix of digits, and the rest. -/
def scanDigits (cs : List Char) : List Char × List Char :=
  (cs.takeWhile isAsciiDigit, cs.dropWhile isAsciiDigit)

def scanSign : List Char → Bool × List Char
  | '-' :: cs => (true, cs)
  | cs => (false, cs)

/-- The integer digits: a single zero, or digits that do not start with zero. -/
def scanInt : List Char → Option (List Char × List Char)
  | [] => none
  | c :: cs =>
      if c = '0' then some (['0'], cs)
      else if isAsciiDigit c then some (c :: (scanDigits cs).1, (scanDigits cs).2)
      else none

/-- A fraction needs a digit behind the point; otherwise the point is left. -/
def scanFrac : List Char → List Char × List Char
  | '.' :: cs =>
      if (scanDigits cs).1.isEmpty then ([], '.' :: cs) else scanDigits cs
  | cs => ([], cs)

def scanExpSign : List Char → Bool × List Char
  | '-' :: cs => (true, cs)
  | '+' :: cs => (false, cs)
  | cs => (false, cs)

/-- An exponent needs a digit; otherwise the letter is left. -/
def scanExp : List Char → Option (Bool × List Char) × List Char
  | [] => (none, [])
  | c :: cs =>
      if c = 'e' ∨ c = 'E' then
        if (scanDigits (scanExpSign cs).2).1.isEmpty then (none, c :: cs)
        else (some ((scanExpSign cs).1, (scanDigits (scanExpSign cs).2).1),
          (scanDigits (scanExpSign cs).2).2)
      else (none, c :: cs)

/-- The number literal at the head of a text, and the rest of the text. -/
def scanNum (cs : List Char) : Option (NumLit × List Char) :=
  match scanInt (scanSign cs).2 with
  | none => none
  | some (int, r1) =>
      some (⟨(scanSign cs).1, int, (scanFrac r1).1, (scanExp (scanFrac r1).2).1⟩,
        (scanExp (scanFrac r1).2).2)

/-- A character that can continue a number literal. -/
def continuesNum (c : Char) : Bool := isAsciiDigit c || c == '.' || c == 'e' || c == 'E'

/-- `cs` does not start with a character satisfying `p`. -/
def HeadNot (p : Char → Bool) (cs : List Char) : Prop := ∀ c r, cs = c :: r → p c = false

theorem headNot_nil (p : Char → Bool) : HeadNot p [] := by
  intro c r h
  cases h

theorem headNot_cons {p : Char → Bool} {c : Char} {cs : List Char} (h : p c = false) :
    HeadNot p (c :: cs) := by
  intro d r hd
  cases hd
  exact h

theorem HeadNot.mono {p q : Char → Bool} {cs : List Char} (h : HeadNot p cs)
    (hpq : ∀ c, p c = false → q c = false) : HeadNot q cs :=
  fun c r hc => hpq c (h c r hc)

theorem scanDigits_append {ds rest : List Char} (hds : ∀ c ∈ ds, isAsciiDigit c = true)
    (hr : HeadNot isAsciiDigit rest) : scanDigits (ds ++ rest) = (ds, rest) := by
  unfold scanDigits
  induction ds with
  | nil =>
      cases rest with
      | nil => rfl
      | cons c r => simp [hr c r rfl]
  | cons d ds ih =>
      have hd := hds d List.mem_cons_self
      have ih' := ih (fun c hc => hds c (List.mem_cons_of_mem _ hc))
      simp only [Prod.mk.injEq] at ih'
      simp [hd, ih'.1, ih'.2]

theorem not_digit_of_not_continues (c : Char) (h : continuesNum c = false) :
    isAsciiDigit c = false := by
  simp only [continuesNum, Bool.or_eq_false_iff] at h
  exact h.1.1.1

/-- The characters that can stand behind the integer digits start no digit run. -/
theorem headNot_digit_renderExp (e : Option (Bool × List Char)) {rest : List Char}
    (hr : HeadNot continuesNum rest) :
    HeadNot isAsciiDigit (NumLit.renderExp e ++ rest) := by
  cases e with
  | none => exact hr.mono not_digit_of_not_continues
  | some p => exact headNot_cons (by decide)

theorem headNot_digit_renderFrac (f : List Char) (e : Option (Bool × List Char))
    {rest : List Char} (hr : HeadNot continuesNum rest) :
    HeadNot isAsciiDigit (NumLit.renderFrac f ++ (NumLit.renderExp e ++ rest)) := by
  cases f with
  | nil => exact headNot_digit_renderExp e hr
  | cons d ds => exact headNot_cons (by decide)

theorem scanExp_render (e : Option (Bool × List Char)) {rest : List Char}
    (he : ∀ neg ds, e = some (neg, ds) → ds ≠ [] ∧ ∀ c ∈ ds, isAsciiDigit c = true)
    (hr : HeadNot continuesNum rest) :
    scanExp (NumLit.renderExp e ++ rest) = (e, rest) := by
  cases e with
  | none =>
      show scanExp rest = (none, rest)
      cases rest with
      | nil => rfl
      | cons c r =>
          have hc := hr c r rfl
          simp only [continuesNum, Bool.or_eq_false_iff, beq_eq_false_iff_ne] at hc
          rw [scanExp, if_neg (by simp [hc.1.2, hc.2])]
  | some p =>
      obtain ⟨neg, ds⟩ := p
      obtain ⟨hne, hds⟩ := he neg ds rfl
      have hdig := hr.mono not_digit_of_not_continues
      have hsign : scanExpSign ((if neg then '-' else '+') :: (ds ++ rest)) = (neg, ds ++ rest) := by
        cases neg <;> rfl
      show scanExp ('e' :: (if neg then '-' else '+') :: (ds ++ rest)) = _
      rw [scanExp, if_pos (Or.inl rfl), hsign, scanDigits_append hds hdig,
        if_neg (by simpa using hne)]

theorem scanFrac_render (f : List Char) (e : Option (Bool × List Char)) {rest : List Char}
    (hf : ∀ c ∈ f, isAsciiDigit c = true) (hr : HeadNot continuesNum rest) :
    scanFrac (NumLit.renderFrac f ++ (NumLit.renderExp e ++ rest))
      = (f, NumLit.renderExp e ++ rest) := by
  cases f with
  | nil =>
      show scanFrac (NumLit.renderExp e ++ rest) = _
      cases e with
      | none =>
          show scanFrac rest = ([], rest)
          cases rest with
          | nil => rfl
          | cons c r =>
              have hc := hr c r rfl
              simp only [continuesNum, Bool.or_eq_false_iff, beq_eq_false_iff_ne] at hc
              unfold scanFrac
              split
              next heq => exact absurd (List.cons.inj heq).1 hc.1.1.2
              next => rfl
      | some p => rfl
  | cons d ds =>
      show scanFrac ('.' :: (d :: ds ++ (NumLit.renderExp e ++ rest))) = _
      rw [scanFrac, scanDigits_append hf (headNot_digit_renderExp e hr)]
      rfl

/-- **Scanning a rendered literal returns it** and leaves what follows. -/
theorem scanNum_render {l : NumLit} (hl : l.wf = true) {rest : List Char}
    (hr : HeadNot continuesNum rest) : scanNum (l.render ++ rest) = some (l, rest) := by
  obtain ⟨neg, int, frac, exp⟩ := l
  simp only [NumLit.wf, Bool.and_eq_true, List.all_eq_true] at hl
  obtain ⟨⟨hint, hfrac⟩, hexp⟩ := hl
  have hexp' : ∀ n ds, exp = some (n, ds) → ds ≠ [] ∧ ∀ c ∈ ds, isAsciiDigit c = true := by
    intro n ds h
    subst h
    simpa using hexp
  cases int with
  | nil => simp at hint
  | cons c cs =>
      change (if c = '0' then cs.isEmpty else isAsciiDigit c && cs.all isAsciiDigit) = true at hint
      have htail := headNot_digit_renderFrac frac exp hr
      have hcne : c ≠ '-' := by
        rintro rfl
        simp [isAsciiDigit] at hint
      have hsign : scanSign ((if neg then ['-'] else []) ++ (c :: cs
          ++ (NumLit.renderFrac frac ++ (NumLit.renderExp exp ++ rest))))
          = (neg, c :: cs ++ (NumLit.renderFrac frac ++ (NumLit.renderExp exp ++ rest))) := by
        cases neg with
        | true => rfl
        | false =>
            show scanSign (c :: _) = _
            unfold scanSign
            split
            next heq => exact absurd (List.cons.inj heq).1 hcne
            next => rfl
      have hint' : scanInt (c :: cs ++ (NumLit.renderFrac frac ++ (NumLit.renderExp exp ++ rest)))
          = some (c :: cs, NumLit.renderFrac frac ++ (NumLit.renderExp exp ++ rest)) := by
        rw [List.cons_append, scanInt]
        by_cases h0 : c = '0'
        · have hcs : cs = [] := by simpa [h0] using hint
          rw [if_pos h0, hcs, h0]
          rfl
        · rw [if_neg h0] at hint
          simp only [Bool.and_eq_true, List.all_eq_true] at hint
          rw [if_neg h0, if_pos hint.1, scanDigits_append hint.2 htail]
      show scanNum (((if neg then ['-'] else []) ++ (c :: cs
        ++ (NumLit.renderFrac frac ++ NumLit.renderExp exp))) ++ rest) = _
      simp only [List.append_assoc]
      rw [scanNum, hsign]
      simp only [hint', scanFrac_render frac exp hfrac hr, scanExp_render exp hexp' hr]

/-! ## §4. The shortest literal. -/

namespace Double

/-- The decimal exponent of `num / den`: the `k` with `10^k ≤ num/den < 10^(k+1)`. -/
def decimalExponent (num den : Nat) : Int :=
  if den ≤ num then ((Nat.toDigits 10 (num / den)).length : Int) - 1
  else -(((List.range 400).find? (fun j => decide (den ≤ num * 10 ^ j))).getD 400 : Int)

/-- The nearest `n`-digit decimal that reads back as `x`, with its exponent. -/
def candidate (x : Double) (neg : Bool) (num den : Nat) (n : Nat) : Option (Nat × Int) :=
  let p : Int := decimalExponent num den - n + 1
  let s := scale10 num den p
  let lo := s.1 / s.2
  let okLo := ofDecimal neg lo p == x
  let okHi := ofDecimal neg (lo + 1) p == x
  if okLo && okHi then some (roundDiv s.1 s.2, p)
  else if okLo then some (lo, p)
  else if okHi then some (lo + 1, p)
  else none

/-- The digits without trailing zeros, and the position of the point. -/
def shortest (x : Double) (neg : Bool) (num den : Nat) : List Char × Int :=
  match (List.range 17).findSome? (fun i => candidate x neg num den (i + 1)) with
  | some (d, p) =>
      let ds := Nat.toDigits 10 d
      ((ds.reverse.dropWhile (· == '0')).reverse, ds.length + p)
  | none => ([], 0)

/-- Lay the digits out as `repr` does: with a point when the exponent is small,
with an exponent of at least two digits otherwise. -/
def layout (neg : Bool) (ds : List Char) (decpt : Int) : NumLit :=
  if -4 < decpt ∧ decpt ≤ 16 then
    if decpt ≤ 0 then ⟨neg, ['0'], List.replicate (-decpt).toNat '0' ++ ds, none⟩
    else if (ds.length : Int) ≤ decpt then
      ⟨neg, ds ++ List.replicate (decpt.toNat - ds.length) '0', ['0'], none⟩
    else ⟨neg, ds.take decpt.toNat, ds.drop decpt.toNat, none⟩
  else
    let e := decpt - 1
    let es := Nat.toDigits 10 e.natAbs
    ⟨neg, ds.take 1, ds.drop 1,
      some (decide (e < 0), if es.length < 2 then '0' :: es else es)⟩

/-- The literal `repr(x)` writes for a finite `x`. -/
def reprLit (neg : Bool) (m : Nat) (e : Int) : NumLit :=
  if m = 0 then ⟨neg, ['0'], ['0'], none⟩
  else
    let s := scale2 m 1 (-e)
    let d := shortest (.finite neg m e) neg s.1 s.2
    layout neg d.1 d.2

/-- `x` is determined by its own text. -/
def readsBack : Double → Bool
  | .nan => true
  | .inf _ => true
  | .finite neg m e =>
      let l := reprLit neg m e
      l.wf && !l.isInt && (l.toDouble == .finite neg m e)

end Double

/-- **A `float`**: a binary64 value that its text determines. -/
structure PyFloat where
  val : Double
  ok : val.readsBack = true
  deriving DecidableEq

namespace PyFloat

/-- `0.0`. -/
def zero : PyFloat := ⟨.finite false 0 (-1074), by decide⟩

/-- The `float` a binary64 value is, when its text determines it. -/
def ofDouble? (x : Double) : Option PyFloat :=
  if h : x.readsBack = true then some ⟨x, h⟩ else none

@[simp] theorem ofDouble?_val (x : PyFloat) : ofDouble? x.val = some x := by
  rw [ofDouble?, dif_pos x.ok]

/-- **`float(repr(x)) == x`** for a finite `x`, with the literal well formed. -/
theorem toDouble_reprLit {x : PyFloat} {neg : Bool} {m : Nat} {e : Int}
    (hx : x.val = .finite neg m e) :
    (Double.reprLit neg m e).wf = true ∧ (Double.reprLit neg m e).isInt = false
      ∧ (Double.reprLit neg m e).toDouble = .finite neg m e := by
  have h := x.ok
  rw [hx] at h
  simp only [Double.readsBack, Bool.and_eq_true, Bool.not_eq_true', beq_iff_eq] at h
  exact ⟨h.1.1, h.1.2, h.2⟩

/-- `str(x)`. -/
def str (x : PyFloat) : String :=
  match x.val with
  | .nan => "nan"
  | .inf neg => if neg then "-inf" else "inf"
  | .finite neg m e => String.ofList (Double.reprLit neg m e).render

/-- The text of a literal holds digits, signs, a point and an exponent mark only. -/
theorem r_not_mem_render {l : NumLit} (hl : l.wf = true) : 'r' ∉ l.render := by
  have hdigits : ∀ cs : List Char, cs.all isAsciiDigit = true → 'r' ∉ cs := by
    intro cs hcs hmem
    exact absurd (List.all_eq_true.mp hcs _ hmem) (by decide)
  obtain ⟨neg, int, frac, exp⟩ := l
  simp only [NumLit.wf, Bool.and_eq_true] at hl
  obtain ⟨⟨hint, hfrac⟩, hexp⟩ := hl
  have h1 : 'r' ∉ int := by
    cases int with
    | nil => cases hint
    | cons c cs =>
        simp only at hint
        split at hint
        next hc => simp [hc, List.isEmpty_iff.mp hint]
        next =>
            rw [Bool.and_eq_true] at hint
            exact hdigits (c :: cs) (by simpa using hint)
  have h2 : 'r' ∉ NumLit.renderFrac frac := by
    cases frac with
    | nil => simp [NumLit.renderFrac]
    | cons c cs =>
        intro hmem
        rcases List.mem_cons.mp hmem with h | h
        · exact absurd h (by decide)
        · exact hdigits _ hfrac h
  have h3 : 'r' ∉ NumLit.renderExp exp := by
    cases exp with
    | none => simp [NumLit.renderExp]
    | some e =>
        obtain ⟨s, ds⟩ := e
        simp only [Bool.and_eq_true] at hexp
        have hds := hdigits ds hexp.2
        cases s <;> simp [NumLit.renderExp, hds]
  simp only [NumLit.render, List.mem_append, not_or]
  exact ⟨by cases neg <;> simp, h1, h2, h3⟩

theorem r_not_mem_str (x : PyFloat) : 'r' ∉ x.str.toList := by
  unfold str
  split
  next => decide
  next neg _ => cases neg <;> decide
  next neg m e hx =>
      rw [String.toList_ofList]
      exact r_not_mem_render (toDouble_reprLit hx).1

end PyFloat

/-! ## §5. `float(s)`. -/

/-- Digits with underscores, possibly none at all. -/
def optDigitRun (cs : List Char) : Option (List Nat) :=
  if cs.isEmpty then some [] else digitRun false cs

/-- Cut at the first character satisfying `p`; the second part is `none` when
there is no such character. -/
def cutAt (p : Char → Bool) (cs : List Char) : List Char × Option (List Char) :=
  match cs.dropWhile (fun c => !p c) with
  | [] => (cs, none)
  | _ :: rest => (cs.takeWhile (fun c => !p c), some rest)

/-- An unsigned decimal: mantissa with an optional point, optional exponent. -/
def unsignedOfChars (neg : Bool) (cs : List Char) : Option Double :=
  let (mant, exp) := cutAt (fun c => c == 'e' || c == 'E') cs
  let (ip, fp) := cutAt (· == '.') mant
  let expo : Option Int := match exp with
    | none => some 0
    | some es => intOfChars es
  match optDigitRun ip, optDigitRun (fp.getD []), expo with
  | some is, some fs, some k =>
      if is.isEmpty && fs.isEmpty then none
      else some (Double.ofDecimal neg (ofDigitList (is ++ fs)) (k - fs.length))
  | _, _, _ => none

def wordOfChars (neg : Bool) (cs : List Char) : Option Double :=
  let w := String.ofList (cs.map Char.toLower)
  if w = "inf" ∨ w = "infinity" then some (.inf neg)
  else if w = "nan" then some .nan
  else unsignedOfChars neg cs

/-- `float(s)` for a string `s`. -/
def floatOfStr (s : String) : Except Exn Double :=
  let r := match strip s.toList with
    | '-' :: cs => wordOfChars true cs
    | '+' :: cs => wordOfChars false cs
    | cs => wordOfChars false cs
  match r with
  | some x => .ok x
  | none => .error ⟨.value, "could not convert string to float: '" ++ s ++ "'"⟩

theorem floatOfStr_error {s : String} {e : Exn} (h : floatOfStr s = .error e) :
    e = ⟨.value, "could not convert string to float: '" ++ s ++ "'"⟩ := by
  have hr : ∀ r : Option Double, (match r with
      | some x => .ok x
      | none => .error ⟨.value, "could not convert string to float: '" ++ s ++ "'"⟩
      : Except Exn Double) = .error e →
      e = ⟨.value, "could not convert string to float: '" ++ s ++ "'"⟩ := by
    intro r hr
    cases r with
    | some x => cases hr
    | none =>
        cases hr
        rfl
  exact hr _ h

theorem caughtE_floatOfStr (s : String) : Comp.CaughtE (floatOfStr s) := by
  intro e h
  rw [floatOfStr_error h]
  rfl

end TorSim.Lib
