/-!
Text in any encoding of Unicode. A byte order mark tells the encoding; without one the zero bytes at the front do, for
text whose first characters are ASCII.
-/

namespace ResourceApi.Text

inductive Encoding where
  | utf8
  | utf16 (bigEndian : Bool)
  | utf32 (bigEndian : Bool)
  deriving Repr, DecidableEq, Inhabited

namespace Encoding

/-- The encoding that zero bytes among the first four tell. -/
def ofZeros : List UInt8 → Encoding
  | [a, b] => if a = 0 then utf16 true else if b = 0 then utf16 false else utf8
  | a :: b :: c :: d :: _ =>
    if a = 0 then (if b = 0 then utf32 true else utf16 true)
    else if b = 0 then (if c = 0 && d = 0 then utf32 false else utf16 false)
    else utf8
  | _ => utf8

/-- The encoding of bytes, and the bytes without their byte order mark. -/
def detect : List UInt8 → Encoding × List UInt8
  | 0x00 :: 0x00 :: 0xFE :: 0xFF :: rest => (utf32 true, rest)
  | 0xFF :: 0xFE :: 0x00 :: 0x00 :: rest => (utf32 false, rest)
  | 0xFE :: 0xFF :: rest => (utf16 true, rest)
  | 0xFF :: 0xFE :: rest => (utf16 false, rest)
  | 0xEF :: 0xBB :: 0xBF :: rest => (utf8, rest)
  | bytes => (ofZeros bytes, bytes)

/-- The value of bytes, the first counting most or least. -/
def unit (bigEndian : Bool) (bytes : List UInt8) : Nat :=
  (if bigEndian then bytes else bytes.reverse).foldl (fun value byte => value * 256 + byte.toNat) 0

/-- A character of a code point that is one. -/
def char? (value : Nat) : Option Char := if Nat.isValidChar value then some (Char.ofNat value) else none

/-- The characters of bytes in UTF-16; above the first plane two units make one character. -/
def chars16? (bigEndian : Bool) : List UInt8 → Option (List Char)
  | [] => some []
  | a :: b :: c :: d :: rest =>
    let first := unit bigEndian [a, b]
    let second := unit bigEndian [c, d]
    if 0xD800 ≤ first && first < 0xDC00 && 0xDC00 ≤ second && second < 0xE000 then do
      let char ← char? (0x10000 + (first - 0xD800) * 0x400 + (second - 0xDC00))
      return char :: (← chars16? bigEndian rest)
    else do
      let char ← char? first
      return char :: (← chars16? bigEndian (c :: d :: rest))
  | [a, b] => do return [← char? (unit bigEndian [a, b])]
  | _ => none

/-- The characters of bytes in UTF-32. -/
def chars32? (bigEndian : Bool) : List UInt8 → Option (List Char)
  | [] => some []
  | a :: b :: c :: d :: rest => do
    let char ← char? (unit bigEndian [a, b, c, d])
    return char :: (← chars32? bigEndian rest)
  | _ => none

/-- The text of bytes, if they are one. -/
def decode? (bytes : ByteArray) : Option String :=
  match detect bytes.toList with
  | (utf8, rest) => String.fromUTF8? ⟨rest.toArray⟩
  | (utf16 bigEndian, rest) => (chars16? bigEndian rest).map String.ofList
  | (utf32 bigEndian, rest) => (chars32? bigEndian rest).map String.ofList

end Encoding

end ResourceApi.Text
