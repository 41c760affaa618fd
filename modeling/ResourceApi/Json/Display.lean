import ResourceApi.Json.Basic
import ResourceApi.Number.Digits
import ResourceApi.Text.Quoted

/-!
JSON values as they stand in messages.
-/

namespace ResourceApi.Json

mutual
/-- Text of a value inside a message, texts in quotes. -/
def display : Json → String
  | .null => "None"
  | .bool b => if b then "True" else "False"
  | .int n => toString n
  | .double d => d.text
  | .text s => Text.quoted s
  | .list items => "[" ++ ", ".intercalate (displayItems items) ++ "]"
  | .object members => "\x7b" ++ ", ".intercalate (displayMembers members) ++ "\x7d"
termination_by structural j => j

def displayItems : List Json → List String
  | [] => []
  | j :: rest => display j :: displayItems rest
termination_by structural js => js

def displayMembers : List (String × Json) → List String
  | [] => []
  | (k, v) :: rest => (Text.quoted k ++ ": " ++ display v) :: displayMembers rest
termination_by structural ms => ms
end

/-- Text of a value where a text stands bare. -/
def bare : Json → String
  | .text s => s
  | j => j.display

/-- Text of an option where a text stands bare; the items of a list are one compound name. -/
def bareOption : Json → String
  | .list [item] => "(" ++ item.display ++ ",)"
  | .list items => "(" ++ ", ".intercalate (displayItems items) ++ ")"
  | j => j.bare

end ResourceApi.Json
