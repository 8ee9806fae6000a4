import Tyu.Verifier.ManifestReader

/-! # The JSON of certification packages -/

namespace Tyu

open Lib Lib.Json
open Manifest (hexDigitValue shortEscape)

namespace Cert

def E_CERT_PAIRING : UInt32 := 6503
def E_CERT_INDEX_MALFORMED : UInt32 := 6504

def JSON_DEPTH_CAP : Nat := 64

inductive CertError where
  | malformed (detail : String)
  | pairing (detail : String)

def CertError.code : CertError → UInt32
  | .malformed _ => E_CERT_INDEX_MALFORMED
  | .pairing _ => E_CERT_PAIRING

def bad {α : Type} (detail : String) : Except CertError α := .error (.malformed detail)

/-! ## Reader -/

def skip (bytes : Bytes) : Bytes := bytes.dropWhile isSpace

def plainByte (b : UInt8) : Bool := b ≠ 0x22 && b ≠ 0x5C && 0x20 ≤ b

def hexDigits : Nat → Bytes → Option Nat
  | v, [] => some v
  | v, b :: rest => (hexDigitValue b).bind fun d => hexDigits (v * 16 + d) rest

/-- The number four bytes spell in base sixteen; the conversion takes a leading plus. -/
def hexNumber (bytes : Bytes) : Option Nat :=
  match bytes with
  | [] => none
  | b :: rest => if b = 0x2B then hexDigits 0 rest else hexDigits 0 (b :: rest)

/-- What follows a plain run: the closing quote, or an escape and the rest of the string. -/
def afterRun (loop : String → Bytes → Except CertError (String × Bytes)) (out : String) :
    Bytes → Except CertError (String × Bytes)
  | [] => bad "unterminated string"
  | c :: rest =>
    if c = 0x22 then .ok (out, rest)
    else if c = 0x5C then
      match rest with
      | [] => bad "unterminated escape"
      | e :: rest =>
        match shortEscape e with
        | some ch => loop (out.push ch) rest
        | none =>
          if e = 0x75 then
            if rest.length < 4 then bad "truncated \\u escape"
            else
              match hexNumber (rest.take 4) with
              | none => bad "bad \\u escape"
              | some cp =>
                if cp.isValidChar then loop (out.push (Char.ofNat cp)) (rest.drop 4)
                else bad "bad \\u code point"
          else bad "unknown escape"
    else bad "control byte in string"

/-- The rest of a string after its opening quote: plain runs, decoded whole, and escapes.
Every round consumes a byte, so the length of the text is fuel enough. -/
def stringLoop : Nat → String → Bytes → Except CertError (String × Bytes)
  | 0, _, _ => bad "unterminated string"
  | fuel + 1, out, bytes =>
    match String.fromUTF8? (bytes.takeWhile plainByte).toByteArray with
    | none => bad "non-UTF-8 string content"
    | some run => afterRun (stringLoop fuel) (out ++ run) (bytes.dropWhile plainByte)

def string (bytes : Bytes) : Except CertError (String × Bytes) :=
  stringLoop (bytes.length + 1) "" bytes

def literal (lit : Bytes) (v : Json) (bytes : Bytes) : Except CertError (Json × Bytes) :=
  if bytes.take lit.length = lit then .ok (v, bytes.drop lit.length) else bad "malformed literal"

def number (bytes : Bytes) : Except CertError (Json × Bytes) :=
  let neg := bytes.head? = some 0x2D
  let text := if neg then bytes.tail else bytes
  let digits := text.takeWhile isDigit
  let rest := text.dropWhile isDigit
  if rest.head? = some 0x2E ∨ rest.head? = some 0x65 ∨ rest.head? = some 0x45 then
    bad "non-integer number in index"
  else
    let n : Int := if neg then -(digitsFrom 0 digits : Int) else digitsFrom 0 digits
    if digits = [] ∨ n < -2 ^ 63 ∨ 2 ^ 63 ≤ n then bad "bad integer" else .ok (.num n, rest)

def hexText (b : UInt8) : String :=
  String.ofList [Nat.digitChar (b.toNat / 16), Nat.digitChar (b.toNat % 16)]

/-- What follows an item: a comma and more, or the bracket that closes the list. -/
def afterItem (close : UInt8) (eof other : String) (v : Json)
    (more : Bytes → Except CertError (Json × Bytes)) (bytes : Bytes) :
    Except CertError (Json × Bytes) :=
  match skip bytes with
  | [] => bad eof
  | b :: rest =>
    if b = 0x2C then more rest
    else if b = close then .ok (v, rest)
    else bad other

/- A value, the items of an array and the members of an object.  The depth counts the values
around the one read; every call consumes a byte or is the last of its chain, so the length
of the text is fuel enough. -/
mutual
def value (total : Nat) : Nat → Nat → Bytes → Except CertError (Json × Bytes)
  | 0, _, _ => bad "unexpected EOF"
  | fuel + 1, depth, bytes =>
    if JSON_DEPTH_CAP ≤ depth then bad "nesting too deep"
    else
      match skip bytes with
      | [] => bad "unexpected EOF"
      | b :: rest =>
        if b = 0x7B then object total fuel (depth + 1) [] rest
        else if b = 0x5B then array total fuel (depth + 1) [] rest
        else if b = 0x22 then
          match string rest with
          | .ok (s, rest) => .ok (.str s, rest)
          | .error e => .error e
        else if b = 0x74 then literal (utf8 "true") (.bool true) (b :: rest)
        else if b = 0x66 then literal (utf8 "false") (.bool false) (b :: rest)
        else if b = 0x6E then literal (utf8 "null") .null (b :: rest)
        else if b = 0x2D ∨ isDigit b = true then number (b :: rest)
        else bad ("unexpected byte 0x" ++ hexText b ++ " at offset " ++
          toString (total - (rest.length + 1)))
def array (total : Nat) : Nat → Nat → List Json → Bytes → Except CertError (Json × Bytes)
  | 0, _, _, _ => bad "unterminated array"
  | fuel + 1, depth, items, bytes =>
    if (skip bytes).head? = some 0x5D then .ok (.arr items, (skip bytes).tail)
    else
      match value total fuel depth (skip bytes) with
      | .error e => .error e
      | .ok (v, rest) =>
        afterItem 0x5D "unterminated array" "expected ',' or ']' in array" (.arr (items ++ [v]))
          (array total fuel depth (items ++ [v])) rest
def object (total : Nat) :
    Nat → Nat → List (String × Json) → Bytes → Except CertError (Json × Bytes)
  | 0, _, _, _ => bad "unterminated object"
  | fuel + 1, depth, members, bytes =>
    if (skip bytes).head? = some 0x7D then .ok (.obj members, (skip bytes).tail)
    else if (skip bytes).head? ≠ some 0x22 then bad "object key must be a string"
    else
      match string (skip bytes).tail with
      | .error e => .error e
      | .ok (key, rest) =>
        if (skip rest).head? ≠ some 0x3A then bad "expected ':' in object"
        else
          match value total fuel depth (skip rest).tail with
          | .error e => .error e
          | .ok (v, rest) =>
            afterItem 0x7D "unterminated object" "expected ',' or '\x7d' in object"
              (.obj (members ++ [(key, v)])) (object total fuel depth (members ++ [(key, v)])) rest
end

def parseJson (bytes : Bytes) : Except CertError Json := do
  let _ ← expect (String.fromUTF8? bytes.toByteArray) (.malformed "index is not UTF-8")
  let (v, rest) ← value bytes.length (bytes.length + 1) 0 bytes
  require (skip rest = []) (.malformed "trailing bytes after the document")
  pure v

/-- A character of a string: the two that must be escaped, three short escapes, and the other
control characters by their number. -/
def jchar (c : Char) : Bytes :=
  if c = '"' then utf8 "\\\""
  else if c = '\\' then utf8 "\\\\"
  else if c = '\n' then utf8 "\\n"
  else if c = '\r' then utf8 "\\r"
  else if c = '\t' then utf8 "\\t"
  else if c.toNat < 0x20 then utf8 "\\u00" ++ [hexByte (c.toNat / 16), hexByte (c.toNat % 16)]
  else String.utf8EncodeChar c

def jstr (s : String) : Bytes := 0x22 :: (s.toList.flatMap jchar ++ [0x22])

end Cert

end Tyu
