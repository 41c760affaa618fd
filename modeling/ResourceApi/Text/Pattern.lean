/-!
Patterns of texts, in which `%` stands for any characters and `_` for one; ASCII letters fit in either case.
-/

namespace ResourceApi.Text

/-- Letters of the ASCII range in lower case. -/
def foldCase (c : Char) : Char := if 'A' ≤ c && c ≤ 'Z' then Char.ofNat (c.toNat + 32) else c

/-- The ends of a text, from the whole of it to nothing. -/
def ends : List Char → List (List Char)
  | [] => [[]]
  | c :: rest => (c :: rest) :: ends rest

/-- Whether a text fits a pattern. -/
def fits : List Char → List Char → Bool
  | [], cs => cs.isEmpty
  | '%' :: pattern, cs => (ends cs).any (fits pattern)
  | c :: pattern, cs =>
    match cs with
    | [] => false
    | d :: rest => (c = '_' || foldCase c = foldCase d) && fits pattern rest

end ResourceApi.Text
