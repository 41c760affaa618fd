import ResourceApi.Json.Basic
import ResourceApi.Search.Comparison

/-!
Scopes: named restrictions of a table. A scope takes parameters, the later ones with defaults, and demands that columns
compare with them.
-/

namespace ResourceApi

/-- A column that a scope names itself or takes from a parameter. -/
inductive ScopeColumn where
  | named (name : String)
  | parameter (position : Nat)
  deriving Repr, DecidableEq

/-- A demand of a scope: the column compares with the parameter. -/
structure ScopeDemand where
  column : ScopeColumn
  comparison : Comparison
  parameter : Nat
  /-- Whether a null parameter lifts the demand. -/
  liftedByNull : Bool := false
  deriving Repr

structure Scope where
  name : String
  /-- Defaults of the parameters in order; one without a default has to be given. -/
  parameters : List (Option Json)
  demands : List ScopeDemand
  deriving Repr

namespace Scope

/-- The parameters of a call, defaults filled in; none when there are too many or too few. -/
def arguments? (scope : Scope) (given : List Json) : Option (List Json) :=
  if scope.parameters.length < given.length then none
  else ((scope.parameters.drop given.length).mapM id).map (given ++ ·)

/-- Records whose number is above a minimum. -/
def numbered : Scope := ⟨"numbered", [some (.int 0)], [⟨.named "number", .greater, 0, false⟩]⟩

/-- Records with at least a minimum of views. -/
def popular : Scope := ⟨"popular", [some (.int 100)], [⟨.named "views", .atLeast, 0, false⟩]⟩

/-- Records with a column at or above a lower bound and, if one is given, at or below an upper bound. -/
def between : Scope :=
  ⟨"between", [none, none, some .null], [⟨.parameter 0, .atLeast, 1, false⟩, ⟨.parameter 0, .atMost, 2, true⟩]⟩

/-- The scopes that declarations can name. -/
def known : List Scope := [numbered, popular, between]

end Scope

end ResourceApi
