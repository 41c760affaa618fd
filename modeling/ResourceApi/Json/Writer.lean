import ResourceApi.Json.Basic
import ResourceApi.Number.Digits
import ResourceApi.Text.Quoted

/-!
Writing JSON text in ASCII.
-/

namespace ResourceApi.Json.Writer

/-- A code unit as an escape. -/
def unit (n : Nat) : List Char := '\\' :: 'u' :: Text.hex 4 n

def escape (c : Char) : List Char :=
  if c == '"' || c == '\\' then ['\\', c]
  else if 32 ≤ c.toNat && c.toNat < 127 then [c]
  else if c.toNat < 0x10000 then unit c.toNat
  else
    let n := c.toNat - 0x10000
    unit (0xD800 + n / 0x400) ++ unit (0xDC00 + n % 0x400)

def quoted (s : String) : String := String.ofList ('"' :: s.toList.flatMap escape ++ ['"'])

end Writer

mutual
/-- The text of a value, without blank space. -/
def write : Json → String
  | .null => "null"
  | .bool b => if b then "true" else "false"
  | .int n => toString n
  | .double d => d.text
  | .text s => Writer.quoted s
  | .list items => "[" ++ ",".intercalate (writeItems items) ++ "]"
  | .object members => "\x7b" ++ ",".intercalate (writeMembers members) ++ "\x7d"
termination_by structural j => j

def writeItems : List Json → List String
  | [] => []
  | j :: rest => write j :: writeItems rest
termination_by structural js => js

def writeMembers : List (String × Json) → List String
  | [] => []
  | (k, v) :: rest => (Writer.quoted k ++ ":" ++ write v) :: writeMembers rest
termination_by structural ms => ms
end

end ResourceApi.Json
