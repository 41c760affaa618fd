import ResourceApi.Text.LowerCase

/-!
Snake case. A capital run followed by a capitalised word is split once in front of the word, then every
capital letter but a first one gets an underscore in front, then all is put in lower case.
-/

namespace ResourceApi.Text

def isCapital (c : Char) : Bool := 'A' ≤ c && c ≤ 'Z'
def isSmall (c : Char) : Bool := 'a' ≤ c && c ≤ 'z'

/-- Splits a text that starts with `run` capitals (at least two, then a small letter) before the last of them;
a run not followed by a small letter stays whole. -/
private def splitRun (run rest : List Char) : List Char :=
  match rest with
  | c :: _ => if isSmall c && 2 ≤ run.length then run.dropLast ++ '_' :: run.drop (run.length - 1) else run
  | [] => run

/-- Puts an underscore between a run of capitals and the capitalised word that ends it. -/
def splitAcronyms (run : List Char) : List Char → List Char
  | [] => run
  | c :: rest =>
    if isCapital c then splitAcronyms (run ++ [c]) rest
    else splitRun run (c :: rest) ++ c :: splitAcronyms [] rest

/-- Puts an underscore in front of every capital. -/
def markCapitals (cs : List Char) : List Char :=
  cs.flatMap fun c => if isCapital c then ['_', c] else [c]

def snakeChars (cs : List Char) : List Char :=
  match splitAcronyms [] cs with
  | [] => []
  | c :: rest => c :: markCapitals rest

/-- Name of a word in snake case. -/
def snakeCase (name : String) : String :=
  String.ofList (lowerChars false (snakeChars name.toList))

/-- Column name of an aggregate: relation path, function and field, each in snake case. -/
def aggregateLabel (relation function : String) (field : Option String) : String :=
  let parts := [String.ofList (relation.toList.map fun c => if c == '.' then '_' else c), function]
    ++ (match field with | some f => if f.isEmpty then [] else [f] | none => [])
  String.intercalate "_" (parts.map snakeCase)

end ResourceApi.Text
