/-
  TorSim.Lib.JsonText — `json.dumps` and `json.loads`.

  The writer is `dumps` with its defaults: `", "` and `": "` as separators,
  ASCII output, `NaN` and `Infinity` allowed.  The reader is `loads` with its
  defaults: surrounding whitespace, strict strings, surrogate pairs joined, a
  repeated key keeping its first place and its last value.  The reader takes a
  recursion bound; `loads` gives it the length of the text, and every nested
  value is shorter than the text around it.

  A string here holds Unicode scalar values, so an escape that denotes a lone
  surrogate is a decoding error; and a decoding error carries no position.
-/
import TorSim.Lib.Json

namespace TorSim.Lib

/-! ## §1. Strings. -/

/-- Four lower-case hexadecimal digits. -/
def hex4 (n : Nat) : List Char :=
  [hexDigit (n / 4096 % 16), hexDigit (n / 256 % 16), hexDigit (n / 16 % 16), hexDigit (n % 16)]

/-- The number four hexadecimal digits denote. -/
def hex4Value (a b c d : Char) : Option Nat :=
  match hexValue a, hexValue b, hexValue c, hexValue d with
  | some i, some j, some k, some l => some (((i * 16 + j) * 16 + k) * 16 + l)
  | _, _, _, _ => none

/-- The short escape of a character, if it has one. -/
def escapeLetter (c : Char) : Option Char :=
  if c = '"' then some '"' else if c = '\\' then some '\\' else if c = '\n' then some 'n'
  else if c = '\r' then some 'r' else if c = '\t' then some 't'
  else if c = Char.ofNat 12 then some 'f' else if c = Char.ofNat 8 then some 'b' else none

/-- One character of an ASCII-only string literal. -/
def escapeChar (c : Char) : List Char :=
  let n := c.toNat
  match escapeLetter c with
  | some e => ['\\', e]
  | none =>
      if 32 ≤ n ∧ n ≤ 126 then [c]
      else if n < 0x10000 then '\\' :: 'u' :: hex4 n
      else
        '\\' :: 'u' :: (hex4 (0xd800 + (n - 0x10000) / 0x400)
          ++ '\\' :: 'u' :: hex4 (0xdc00 + (n - 0x10000) % 0x400))

/-- The text of a string literal, quotes included. -/
def renderStr (s : String) : List Char := '"' :: ((chars s).flatMap escapeChar ++ ['"'])

/-- The character a short escape denotes. -/
def unescape (c : Char) : Option Char :=
  if c = '"' then some '"' else if c = '\\' then some '\\' else if c = '/' then some '/'
  else if c = 'n' then some '\n' else if c = 'r' then some '\r' else if c = 't' then some '\t'
  else if c = 'f' then some (Char.ofNat 12) else if c = 'b' then some (Char.ofNat 8) else none

def isHighSurrogate (n : Nat) : Bool := decide (0xd800 ≤ n) && decide (n ≤ 0xdbff)

def isLowSurrogate (n : Nat) : Bool := decide (0xdc00 ≤ n) && decide (n ≤ 0xdfff)

/-- Put a character in front of a scanned string. -/
def pushChar (c : Char) (r : Option (List Char × List Char)) : Option (List Char × List Char) :=
  r.map (fun p => (c :: p.1, p.2))

/-- The rest of a string literal behind its opening quote. -/
def scanStr : List Char → Option (List Char × List Char)
  | [] => none
  | c :: cs =>
      if c = '"' then some ([], cs)
      else if c = '\\' then
        match cs with
        | [] => none
        | e :: cs1 =>
            if e = 'u' then
              match cs1 with
              | a :: b :: k :: d :: cs2 =>
                  match hex4Value a b k d with
                  | none => none
                  | some n =>
                      if isHighSurrogate n then
                        match cs2 with
                        | x :: y :: a' :: b' :: k' :: d' :: cs3 =>
                            if x = '\\' ∧ y = 'u' then
                              match hex4Value a' b' k' d' with
                              | none => none
                              | some m =>
                                  if isLowSurrogate m then
                                    pushChar (Char.ofNat
                                      (0x10000 + (n - 0xd800) * 0x400 + (m - 0xdc00))) (scanStr cs3)
                                  else none
                            else none
                        | _ => none
                      else if isLowSurrogate n then none
                      else pushChar (Char.ofNat n) (scanStr cs2)
              | _ => none
            else match unescape e with
              | none => none
              | some ch => pushChar ch (scanStr cs1)
      else if c.toNat < 32 then none
      else pushChar c (scanStr cs)

/-! ## §2. Writing. -/

namespace Json

/-- The text of a float. -/
def renderFloat (x : PyFloat) : List Char :=
  match x.val with
  | .nan => "NaN".toList
  | .inf neg => if neg then "-Infinity".toList else "Infinity".toList
  | .finite neg m e => (Double.reprLit neg m e).render

mutual

/-- The text of a value. -/
def render : Json → List Char
  | .null => "null".toList
  | .bool b => if b then "true".toList else "false".toList
  | .int i => intChars i
  | .float x => renderFloat x
  | .str s => renderStr s
  | .arr xs => '[' :: (renderElems xs ++ [']'])
  | .obj kvs => '\x7b' :: (renderFields kvs ++ ['\x7d'])

def renderElems : List Json → List Char
  | [] => []
  | [x] => render x
  | x :: y :: xs => render x ++ (',' :: ' ' :: renderElems (y :: xs))

def renderFields : List (String × Json) → List Char
  | [] => []
  | [(k, x)] => renderStr k ++ (':' :: ' ' :: render x)
  | (k, x) :: kv :: kvs =>
      renderStr k ++ (':' :: ' ' :: (render x ++ (',' :: ' ' :: renderFields (kv :: kvs))))

end

/-- `json.dumps(v)`. -/
def dumps (v : Json) : String := String.ofList (render v)

/-! ## §3. Reading. -/

/-- JSON whitespace. -/
def isWs (c : Char) : Bool := c == ' ' || c == '\t' || c == '\n' || c == '\r'

def skipWs (cs : List Char) : List Char := cs.dropWhile isWs

/-- The text behind a fixed word, if it starts with that word. -/
def expect : List Char → List Char → Option (List Char)
  | [], cs => some cs
  | _ :: _, [] => none
  | w :: ws, c :: cs => if w = c then expect ws cs else none

/-- The value a number literal denotes: without fraction and exponent an integer. -/
def ofNumLit (l : NumLit) : Option Json :=
  if l.isInt then some (.int l.toInt)
  else (PyFloat.ofDouble? l.toDouble).map Json.float

/-- `NaN`, the infinities. -/
def floatWord (x : Double) : Option Json := (PyFloat.ofDouble? x).map Json.float

/-- A word or a number. -/
def parseScalar (cs : List Char) : Option (Json × List Char) :=
  match expect "null".toList cs with
  | some r => some (.null, r)
  | none => match expect "true".toList cs with
    | some r => some (.bool true, r)
    | none => match expect "false".toList cs with
      | some r => some (.bool false, r)
      | none => match expect "NaN".toList cs with
        | some r => (floatWord .nan).map (·, r)
        | none => match expect "Infinity".toList cs with
          | some r => (floatWord (.inf false)).map (·, r)
          | none => match expect "-Infinity".toList cs with
            | some r => (floatWord (.inf true)).map (·, r)
            | none => match scanNum cs with
              | none => none
              | some (l, r) => (ofNumLit l).map (·, r)

mutual

/-- The value at the head of a text. -/
def parseValue : Nat → List Char → Option (Json × List Char)
  | 0, _ => none
  | _ + 1, [] => none
  | fuel + 1, c :: cs =>
      if c = '"' then (scanStr cs).map (fun p => (.str (String.ofList p.1), p.2))
      else if c = '[' then
        match skipWs cs with
        | ']' :: r => some (.arr [], r)
        | cs' => (parseElems fuel cs').map (fun p => (.arr p.1, p.2))
      else if c = '\x7b' then
        match skipWs cs with
        | '\x7d' :: r => some (.obj [], r)
        | cs' => (parseFields fuel cs').map (fun p => (.obj (dictUpdate [] p.1), p.2))
      else parseScalar (c :: cs)

/-- One element, then a comma and more elements or the closing bracket. -/
def parseElems : Nat → List Char → Option (List Json × List Char)
  | 0, _ => none
  | fuel + 1, cs =>
      match parseValue fuel cs with
      | none => none
      | some (x, r) =>
          match skipWs r with
          | ',' :: r' => (parseElems fuel (skipWs r')).map (fun p => (x :: p.1, p.2))
          | ']' :: r' => some ([x], r')
          | _ => none

/-- One entry, then a comma and more entries or the closing brace. -/
def parseFields : Nat → List Char → Option (List (String × Json) × List Char)
  | 0, _ => none
  | _ + 1, [] => none
  | fuel + 1, c :: cs =>
      if c = '"' then
        match scanStr cs with
        | none => none
        | some (k, r) =>
            match skipWs r with
            | ':' :: r1 =>
                match parseValue fuel (skipWs r1) with
                | none => none
                | some (x, r2) =>
                    match skipWs r2 with
                    | ',' :: r3 =>
                        (parseFields fuel (skipWs r3)).map
                          (fun p => ((String.ofList k, x) :: p.1, p.2))
                    | '\x7d' :: r3 => some ([(String.ofList k, x)], r3)
                    | _ => none
            | _ => none
      else none

end

/-- The document a text holds, with nothing but whitespace around it. -/
def ofChars (cs : List Char) : Option Json :=
  match parseValue (cs.length + 1) (skipWs cs) with
  | some (v, r) => if (skipWs r).isEmpty then some v else none
  | none => none

/-- `json.loads(s)` for a string `s`; a leading byte order mark is refused. -/
def loads (s : String) : Except Exn Json :=
  match chars s with
  | [] => .error ⟨.value, "Expecting value"⟩
  | c :: cs =>
      if c = Char.ofNat 0xfeff then .error ⟨.value, "Unexpected UTF-8 BOM (decode using utf-8-sig)"⟩
      else match ofChars (c :: cs) with
        | some v => .ok v
        | none => .error ⟨.value, "Expecting value"⟩

/-- `json.loads(v)` for any value: only strings are documents. -/
def loadsValue : Json → Except Exn Json
  | .str s => loads s
  | v => .error ⟨.type, "the JSON object must be str, bytes or bytearray, not " ++ v.typeName⟩

/-! ## §4. What the decoder and the subscripts raise. -/

theorem caughtE_loads (s : String) : Comp.CaughtE (loads s) := by
  unfold loads
  split
  next => exact Comp.caughtE_error rfl
  next =>
      split
      next => exact Comp.caughtE_error rfl
      next =>
          split
          next v _ => exact Comp.caughtE_ok v
          next => exact Comp.caughtE_error rfl

theorem caughtE_loadsValue (v : Json) : Comp.CaughtE (loadsValue v) := by
  cases v with
  | str s => exact caughtE_loads s
  | _ => exact Comp.caughtE_error rfl

theorem caughtE_get (v : Json) (k : String) (d : Json) : Comp.CaughtE (v.get k d) := by
  cases v with
  | obj kvs => exact Comp.caughtE_ok _
  | _ => exact Comp.caughtE_error rfl

theorem caughtE_encode (v : Json) : Comp.CaughtE v.encode := by
  cases v with
  | str s => exact Comp.caughtE_ok _
  | _ => exact Comp.caughtE_error rfl

theorem caughtE_getItem (v : Json) (k : String) : Comp.CaughtE (v.getItem k) := by
  unfold getItem
  split
  next kvs =>
      split
      next x _ => exact Comp.caughtE_ok x
      next => exact Comp.caughtE_error rfl
  all_goals exact Comp.caughtE_error rfl

end Json

end TorSim.Lib
