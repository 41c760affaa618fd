/-!
Comparisons between a column and a value.
-/

namespace ResourceApi

inductive Comparison where
  | equal | notEqual | greater | atLeast | less | atMost | like | notLike | isIn | notIn
  deriving Repr, DecidableEq, Inhabited

namespace Comparison

def symbol : Comparison → String
  | equal => "="
  | notEqual => "!="
  | greater => ">"
  | atLeast => ">="
  | less => "<"
  | atMost => "<="
  | like => "like"
  | notLike => "not like"
  | isIn => "in"
  | notIn => "not in"

def all : List Comparison :=
  [equal, notEqual, greater, atLeast, less, atMost, like, notLike, isIn, notIn]

def ofSymbol? (text : String) : Option Comparison := all.find? (·.symbol == text)

theorem ofSymbol?_symbol (comparison : Comparison) : ofSymbol? comparison.symbol = some comparison := by
  cases comparison <;> decide

end Comparison

end ResourceApi
