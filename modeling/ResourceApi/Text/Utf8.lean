/-!
Text from bytes in UTF-8 where nothing may be refused: what is no character becomes the sign for something unknown, one
sign for each piece that might have become a character.
-/

namespace ResourceApi.Text.Utf8

/-- A character that has begun: how many bytes it still needs, between what bounds the next one lies, and its value so
far. -/
structure Begun where
  missing : Nat
  low : Nat
  high : Nat
  value : Nat
  deriving Repr, Inhabited

/-- What a byte begins: a character of one byte, a longer one, or nothing. -/
def begin? (byte : Nat) : Option Begun :=
  if byte < 0x80 then some ⟨0, 0, 0, byte⟩
  else if 0xC2 ≤ byte && byte ≤ 0xDF then some ⟨1, 0x80, 0xBF, byte % 32⟩
  else if byte = 0xE0 then some ⟨2, 0xA0, 0xBF, 0⟩
  else if byte = 0xED then some ⟨2, 0x80, 0x9F, 0xD⟩
  else if 0xE1 ≤ byte && byte ≤ 0xEF then some ⟨2, 0x80, 0xBF, byte % 16⟩
  else if byte = 0xF0 then some ⟨3, 0x90, 0xBF, 0⟩
  else if 0xF1 ≤ byte && byte ≤ 0xF3 then some ⟨3, 0x80, 0xBF, byte % 8⟩
  else if byte = 0xF4 then some ⟨3, 0x80, 0x8F, 4⟩
  else none

/-- The sign for what is no character. -/
def unknown : Char := '\ufffd'

/-- The characters of bytes, the last of which have begun a character or not. -/
def charsAfter (begun : Option Begun) : List UInt8 → List Char
  | [] => begun.toList.map fun _ => unknown
  | byte :: rest =>
    let n := byte.toNat
    let fresh : List Char :=
      match begin? n with
      | none => unknown :: charsAfter none rest
      | some start => if start.missing = 0 then Char.ofNat n :: charsAfter none rest else charsAfter (some start) rest
    match begun with
    | none => fresh
    | some before =>
      if before.low ≤ n && n ≤ before.high then
        let value := before.value * 64 + n % 64
        if before.missing = 1 then Char.ofNat value :: charsAfter none rest
        else charsAfter (some ⟨before.missing - 1, 0x80, 0xBF, value⟩) rest
      else unknown :: fresh

/-- The text of bytes. -/
def decode (bytes : List UInt8) : String := String.ofList (charsAfter none bytes)

end ResourceApi.Text.Utf8
