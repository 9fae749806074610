/-
  TorSim.Lib.Text — numbers written into text and read back.

  `str(i)` of an integer, `int(s)` of a string, and the two facts every textual
  key rests on: reading back what was written gives the number, and a decimal
  text holds no separator.

  Main results:
    * `intOfStr_toString`     — `int(str(i)) = i`.
    * `toString_int_injective` — different integers have different texts.
    * `append_dash_inj`       — a text without `-` is recovered from behind the
      last `-` of a longer one, whatever stands before it.
-/
import TorSim.Lib.Comp
import Mathlib.Data.List.Basic

namespace TorSim.Lib

/-! ## §1. Characters. -/

/-- The characters `str.isspace` accepts, which `int` and `float` strip. -/
def isSpace (c : Char) : Bool :=
  let n := c.toNat
  (9 ≤ n && n ≤ 13) || (28 ≤ n && n ≤ 32) || n == 0x85 || n == 0xa0 || n == 0x1680
    || (0x2000 ≤ n && n ≤ 0x200a) || n == 0x2028 || n == 0x2029 || n == 0x202f
    || n == 0x205f || n == 0x3000

/-- The zeros of the Unicode decimal digit ranges (category `Nd`). -/
def decimalZeros : List Nat :=
  [0x30, 0x660, 0x6f0, 0x7c0, 0x966, 0x9e6, 0xa66, 0xae6, 0xb66, 0xbe6, 0xc66, 0xce6, 0xd66,
   0xde6, 0xe50, 0xed0, 0xf20, 0x1040, 0x1090, 0x17e0, 0x1810, 0x1946, 0x19d0, 0x1a80, 0x1a90,
   0x1b50, 0x1bb0, 0x1c40, 0x1c50, 0xa620, 0xa8d0, 0xa900, 0xa9d0, 0xa9f0, 0xaa50, 0xabf0,
   0xff10, 0x104a0, 0x10d30, 0x11066, 0x110f0, 0x11136, 0x111d0, 0x112f0, 0x11450, 0x114d0,
   0x11650, 0x116c0, 0x11730, 0x118e0, 0x11c50, 0x11d50, 0x11da0, 0x16a60, 0x16ac0, 0x16b50,
   0x1d7ce, 0x1d7d8, 0x1d7e2, 0x1d7ec, 0x1d7f6, 0x1e140, 0x1e2f0, 0x1e950]

/-- The value of a decimal digit character. -/
def decimalValue (c : Char) : Option Nat :=
  (decimalZeros.find? (fun z => decide (z ≤ c.toNat) && decide (c.toNat < z + 10))).map
    (fun z => c.toNat - z)

/-- An ASCII digit. -/
def isAsciiDigit (c : Char) : Bool := decide ('0' ≤ c) && decide (c ≤ '9')

theorem isAsciiDigit_iff (c : Char) :
    isAsciiDigit c = true ↔ 48 ≤ c.toNat ∧ c.toNat ≤ 57 := by
  simp only [isAsciiDigit, Bool.and_eq_true, decide_eq_true_eq]
  exact Iff.rfl

theorem isAsciiDigit_of_isDigit {c : Char} (h : c.isDigit = true) : isAsciiDigit c = true := by
  rw [isAsciiDigit_iff]
  simp only [Char.isDigit, Bool.and_eq_true, decide_eq_true_eq] at h
  exact h

theorem decimalValue_of_asciiDigit {c : Char} (h : isAsciiDigit c = true) :
    decimalValue c = some (c.toNat - 48) := by
  rw [isAsciiDigit_iff] at h
  unfold decimalValue decimalZeros
  rw [List.find?_cons_of_pos (by simp; omega)]
  rfl

theorem not_isSpace_of_asciiDigit {c : Char} (h : isAsciiDigit c = true) :
    isSpace c = false := by
  rw [isAsciiDigit_iff] at h
  simp only [isSpace, Bool.or_eq_false_iff, Bool.and_eq_false_iff, decide_eq_false_iff_not,
    beq_eq_false_iff_ne]
  omega

/-! ## §2. `str(i)`. -/

/-- The characters of `str(i)`. -/
def intChars : Int → List Char
  | .ofNat n => Nat.toDigits 10 n
  | .negSucc n => '-' :: Nat.toDigits 10 (n + 1)

theorem toList_toString_int (i : Int) : (toString i).toList = intChars i := by
  cases i with
  | ofNat n =>
      show (Nat.repr n).toList = _
      rw [Nat.toList_repr]
      rfl
  | negSucc n =>
      show ("-" ++ Nat.repr (n + 1)).toList = _
      rw [String.toList_append, Nat.toList_repr]
      rfl

theorem asciiDigit_of_mem_toDigits {n : Nat} {c : Char} (h : c ∈ Nat.toDigits 10 n) :
    isAsciiDigit c = true :=
  isAsciiDigit_of_isDigit (Nat.isDigit_of_mem_toDigits (by decide) (by decide) h)

/-- The text of an integer holds digits and the sign only. -/
theorem not_mem_intChars {c : Char} (hc : isAsciiDigit c = false) (hd : c ≠ '-') (i : Int) :
    c ∉ intChars i := by
  have hdigits : ∀ n : Nat, c ∉ Nat.toDigits 10 n := by
    intro n hn
    rw [asciiDigit_of_mem_toDigits hn] at hc
    cases hc
  intro hmem
  cases i with
  | ofNat n => exact hdigits n hmem
  | negSucc n =>
      rcases List.mem_cons.mp hmem with h | h
      · exact hd h
      · exact hdigits _ h

theorem dash_not_mem_toDigits (n : Nat) : '-' ∉ Nat.toDigits 10 n := by
  intro h
  have := asciiDigit_of_mem_toDigits h
  revert this
  decide

/-! ## §3. `int(s)`. -/

/-- `str.strip()`. -/
def strip (cs : List Char) : List Char :=
  ((cs.dropWhile isSpace).reverse.dropWhile isSpace).reverse

theorem strip_eq_self {cs : List Char} (h : ∀ c ∈ cs, isSpace c = false) : strip cs = cs := by
  have drop : ∀ l : List Char, (∀ c ∈ l, isSpace c = false) → l.dropWhile isSpace = l := by
    intro l hl
    cases l with
    | nil => rfl
    | cons c l => rw [List.dropWhile_cons_of_neg (by simp [hl c List.mem_cons_self])]
  unfold strip
  rw [drop cs h, drop cs.reverse (fun c hc => h c (List.mem_reverse.mp hc)), List.reverse_reverse]

/-- Digits with single underscores between them; `prev` tells whether a digit
stands just before. -/
def digitRun : Bool → List Char → Option (List Nat)
  | prev, [] => if prev then some [] else none
  | prev, c :: cs =>
      if c = '_' then (if prev then digitRun false cs else none)
      else match decimalValue c with
        | some d => (digitRun true cs).map (d :: ·)
        | none => none

/-- The number a digit sequence denotes. -/
def ofDigitList (ds : List Nat) : Nat := ds.foldl (fun acc d => 10 * acc + d) 0

/-- The unsigned part of an integer literal. -/
def natOfChars (cs : List Char) : Option Nat := (digitRun false cs).map ofDigitList

/-- A sign, then digits. -/
def intOfChars : List Char → Option Int
  | '-' :: cs => (natOfChars cs).map (fun n => -(n : Int))
  | '+' :: cs => (natOfChars cs).map (fun n => (n : Int))
  | cs => (natOfChars cs).map (fun n => (n : Int))

/-- `int(s)` for a string `s`. -/
def intOfStr (s : String) : Except Exn Int :=
  match intOfChars (strip s.toList) with
  | some i => .ok i
  | none => .error ⟨.value, "invalid literal for int() with base 10: '" ++ s ++ "'"⟩

theorem digitRun_digits (cs : List Char) (hcs : ∀ c ∈ cs, isAsciiDigit c = true) :
    ∀ prev : Bool, (cs ≠ [] ∨ prev = true) →
      digitRun prev cs = some (cs.map (fun c => c.toNat - 48)) := by
  induction cs with
  | nil =>
      intro prev h
      have hp : prev = true := by simpa using h
      rw [hp]
      rfl
  | cons c cs ih =>
      intro prev _
      have hc := hcs c List.mem_cons_self
      have hne : c ≠ '_' := by
        rintro rfl
        exact absurd hc (by decide)
      rw [digitRun, if_neg hne, decimalValue_of_asciiDigit hc,
        ih (fun d hd => hcs d (List.mem_cons_of_mem _ hd)) true (Or.inr rfl)]
      rfl

theorem natOfChars_toDigits (n : Nat) : natOfChars (Nat.toDigits 10 n) = some n := by
  have hd : ∀ c ∈ Nat.toDigits 10 n, isAsciiDigit c = true :=
    fun c hc => asciiDigit_of_mem_toDigits hc
  rw [natOfChars, digitRun_digits _ hd false (Or.inl Nat.toDigits_ne_nil), Option.map_some,
    ofDigitList, List.foldl_map]
  have := Nat.ofDigitChars_ten_toDigits (n := n)
  rw [Nat.ofDigitChars_eq_foldl] at this
  exact congrArg some this

theorem intOfChars_of_digits {cs : List Char} (hne : ∀ c ∈ cs, isAsciiDigit c = true) :
    intOfChars cs = (natOfChars cs).map (fun n => (n : Int)) := by
  unfold intOfChars
  split
  · exact absurd (hne '-' List.mem_cons_self) (by decide)
  · exact absurd (hne '+' List.mem_cons_self) (by decide)
  · rfl

theorem intOfChars_intChars (i : Int) : intOfChars (intChars i) = some i := by
  cases i with
  | ofNat n =>
      show intOfChars (Nat.toDigits 10 n) = _
      rw [intOfChars_of_digits (fun c hc => asciiDigit_of_mem_toDigits hc), natOfChars_toDigits]
      rfl
  | negSucc n =>
      show (natOfChars (Nat.toDigits 10 (n + 1))).map (fun m => -(m : Int)) = _
      rw [natOfChars_toDigits]
      rfl

theorem isSpace_intChars (i : Int) : ∀ c ∈ intChars i, isSpace c = false := by
  intro c hc
  cases i with
  | ofNat n => exact not_isSpace_of_asciiDigit (asciiDigit_of_mem_toDigits hc)
  | negSucc n =>
      rcases List.mem_cons.mp hc with h | h
      · rw [h]
        decide
      · exact not_isSpace_of_asciiDigit (asciiDigit_of_mem_toDigits h)

/-- **`int(str(i)) = i`.** -/
@[simp] theorem intOfStr_toString (i : Int) : intOfStr (toString i) = .ok i := by
  rw [intOfStr, toList_toString_int, strip_eq_self (isSpace_intChars i), intOfChars_intChars]

theorem intOfStr_error {s : String} {e : Exn} (h : intOfStr s = .error e) :
    e = ⟨.value, "invalid literal for int() with base 10: '" ++ s ++ "'"⟩ := by
  unfold intOfStr at h
  split at h
  · cases h
  · cases h
    rfl

theorem caughtE_intOfStr (s : String) : Comp.CaughtE (intOfStr s) := by
  intro e h
  rw [intOfStr_error h]
  rfl

theorem intChars_injective {i j : Int} (h : intChars i = intChars j) : i = j := by
  have hread := congrArg intOfChars h
  rw [intOfChars_intChars, intOfChars_intChars] at hread
  exact Option.some.inj hread

theorem toList_toString_nat (n : Nat) : (toString n).toList = intChars n := toList_toString_int n

/-- Different integers have different texts. -/
theorem toString_int_injective {i j : Int} (h : toString i = toString j) : i = j := by
  have hi := intOfStr_toString i
  rw [h, intOfStr_toString] at hi
  exact (Except.ok.inj hi).symm

/-! ## §4. Texts joined by separators. -/

/-- The first two characters. -/
def opening (s : String) : List Char := s.toList.take 2

/-- A text opens as its first part does. -/
theorem opening_append {s : String} (hs : 2 ≤ s.toList.length) (t : String) :
    opening (s ++ t) = opening s := by
  rw [opening, String.toList_append, List.take_append_of_le_length hs]
  rfl

theorem dash_not_mem_intChars {i : Int} (hi : 0 ≤ i) : '-' ∉ intChars i := by
  cases i with
  | ofNat n => exact dash_not_mem_toDigits n
  | negSucc n => exact absurd hi (by omega)

/-- Texts behind a separator differ from a text with another last character. -/
theorem append_sep_ne {α : Type} (sep c : α) {a b : List α} (hb : b.getLast? = some c)
    (ha : a.getLast? ≠ some c) (hc : c ≠ sep) (x y : List α) : x ++ sep :: a ≠ y ++ b := by
  intro heq
  have hlast : (x ++ sep :: a).getLast? = some c := by
    rw [heq, List.getLast?_append, hb]
    rfl
  rw [List.getLast?_append] at hlast
  cases a with
  | nil => exact hc (Option.some.inj hlast).symm
  | cons d a =>
      rw [List.getLast?_cons_cons] at hlast
      cases hla : (d :: a).getLast? with
      | none => cases List.getLast?_eq_none_iff.mp hla
      | some z =>
          rw [hla] at hlast ha
          exact ha hlast

/-- **The text behind the last separator is unique**: if neither tail holds the
separator, equal joins have equal heads and equal tails. -/
theorem append_sep_inj {α : Type} {sep : α} {a b c d : List α} (hb : sep ∉ b) (hd : sep ∉ d)
    (h : a ++ sep :: b = c ++ sep :: d) : a = c ∧ b = d := by
  rcases List.append_eq_append_iff.mp h with ⟨m, hc, hm⟩ | ⟨m, ha, hm⟩
  · cases m with
    | nil =>
        rw [List.append_nil] at hc
        exact ⟨hc.symm, (List.cons.inj hm).2⟩
    | cons x m =>
        have hmem : sep ∈ b := by
          rw [(List.cons.inj hm).2]
          exact List.mem_append_right m List.mem_cons_self
        exact absurd hmem hb
  · cases m with
    | nil =>
        rw [List.append_nil] at ha
        exact ⟨ha, (List.cons.inj hm).2.symm⟩
    | cons x m =>
        have hmem : sep ∈ d := by
          rw [(List.cons.inj hm).2]
          exact List.mem_append_right m List.mem_cons_self
        exact absurd hmem hd

/-- The text before the first separator is unique. -/
theorem sep_append_inj {α : Type} {sep : α} {a b c d : List α} (ha : sep ∉ a) (hc : sep ∉ c)
    (h : a ++ sep :: b = c ++ sep :: d) : a = c ∧ b = d := by
  have hrev := congrArg List.reverse h
  simp only [List.reverse_append, List.reverse_cons, List.append_assoc, List.cons_append,
    List.nil_append] at hrev
  obtain ⟨hbd, hac⟩ := append_sep_inj (List.mem_reverse.not.mpr ha) (List.mem_reverse.not.mpr hc) hrev
  exact ⟨List.reverse_inj.mp hac, List.reverse_inj.mp hbd⟩

/-- Decimal texts joined by `-` in front of a natural last number are recovered. -/
theorem append_dash_int_inj {s t : String} {i j : Int} (hi : 0 ≤ i) (hj : 0 ≤ j)
    (h : s ++ "-" ++ toString i = t ++ "-" ++ toString j) : s = t ∧ i = j := by
  have hl := congrArg String.toList h
  simp only [String.toList_append, toList_toString_int, List.append_assoc] at hl
  obtain ⟨hs, hij⟩ := append_sep_inj (dash_not_mem_intChars hi) (dash_not_mem_intChars hj) hl
  refine ⟨String.toList_inj.mp hs, toString_int_injective ?_⟩
  apply String.toList_inj.mp
  rw [toList_toString_int, toList_toString_int, hij]

end TorSim.Lib
