import ResourceApi.Rule.Constraint

/-!
What a relation demands of the part of a mutation that writes through it.
-/

namespace ResourceApi

/-- Rules for the writes through a relation of some kind, below the path of its entry. -/
def Kind.writeRules (kind : Kind) (name : String) (targets pivotFields : List Json) (path : String) : RuleSet :=
  if !kind.isMutable then [(path, [.immutable name kind])]
  else
    let operations := (kind.operations.map (·.name)).mergeSort fun a b => a ≤ b
    [(path, [.sometimes, .isObject]),
      (path ++ ".operation", [.sometimes, .isString, .oneOf (operations.map .text)]),
      (path ++ ".operations",
        [.required, .isList] ++ if kind.cardinality = .one then [.atMostItems (.int 1)] else []),
      (path ++ ".operations.*", [.isObject]),
      (path ++ ".operations.*.pivot",
        if kind.linkPlace = .pivot then [.sometimes, .isObject, .pivotFields pivotFields] else [.prohibited]),
      (path ++ ".operations.*.resource",
        if kind = .morphTo then [.required, .isString, .oneOf targets] else [.prohibited])]

def RelationDeclaration.writeRules (relation : RelationDeclaration) (path : String) : RuleSet :=
  relation.kind.writeRules relation.name relation.targets relation.pivotFields path

def Relation.writeRules (relation : Relation) (path : String) : RuleSet :=
  relation.kind.writeRules relation.name (relation.targets.map .text) (relation.pivotFields.map .text) path

/-- Refuses to write through a relation that cannot be written. -/
def RelationDeclaration.assertMutable (relation : RelationDeclaration) : Except Failure Unit :=
  if relation.kind.isMutable then .ok () else .error (.unsupported (.readOnly relation.name relation.kind.name))

end ResourceApi
