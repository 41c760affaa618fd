import ResourceApi.Text.Utf8

/-!
Percent signs in paths: a percent sign with two hexadecimal digits stands for a byte.
-/

namespace ResourceApi.Text

def hexDigit? (byte : UInt8) : Option UInt8 :=
  if 48 ≤ byte && byte ≤ 57 then some (byte - 48)
  else if 65 ≤ byte && byte ≤ 70 then some (byte - 55)
  else if 97 ≤ byte && byte ≤ 102 then some (byte - 87)
  else none

/-- The bytes that a path stands for; a percent sign without digits stands for itself. -/
def decodeBytes : List UInt8 → List UInt8
  | 37 :: a :: b :: rest =>
    match hexDigit? a, hexDigit? b with
    | some high, some low => (high * 16 + low) :: decodeBytes rest
    | _, _ => 37 :: decodeBytes (a :: b :: rest)
  | byte :: rest => byte :: decodeBytes rest
  | [] => []

/-- The text that a path stands for. -/
def percentDecoded (path : String) : String := Utf8.decode (decodeBytes path.toUTF8.toList)

end ResourceApi.Text
