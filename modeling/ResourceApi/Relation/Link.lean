import ResourceApi.Relation.Declaration
import ResourceApi.Schema.Table

/-!
Relations whose declaration fits the tables: every name in them is known to stand for a column or a table.
-/

namespace ResourceApi

/-- The greatest or the least value of a column. -/
inductive Extreme where
  | max | min
  deriving Repr, DecidableEq, Inhabited

def Extreme.name : Extreme → String
  | max => "max"
  | min => "min"

def Extreme.ofName? (text : String) : Option Extreme := [max, min].find? (·.name == text)

/-- One record picked out of many: the one with an extreme value in a column. -/
structure Pick where
  column : String
  extreme : Extreme
  deriving Repr, DecidableEq, Inhabited

/-- Which of two linked records a type column tells about. -/
inductive TypeOwner where
  | parent | target
  deriving Repr, DecidableEq, Inhabited

/-- The link is kept by the related record. -/
structure ChildLink where
  foreignKey : String
  localKey : String
  /-- Column of the related record that tells the type of the parent. -/
  morphType : Option String := none
  pick : Option Pick := none
  deriving Repr, Inhabited

/-- The link is kept by the record itself. -/
structure ParentLink where
  foreignKey : String
  ownerKey : String
  /-- Column of the record that tells the type of the related one. -/
  morphType : Option String := none
  deriving Repr, Inhabited

/-- The link is a record of a join table. -/
structure PivotLink where
  table : Table
  foreignKey : String
  relatedKey : String
  localKey : String
  targetKey : String
  /-- Column of the join table that tells the type of one of the two records. -/
  morph : Option (String × TypeOwner) := none
  fields : List String := []
  deriving Repr, Inhabited

/-- The link goes through the records of a third table. -/
structure ThroughLink where
  table : Table
  firstKey : String
  secondKey : String
  localKey : String
  secondLocalKey : String
  deriving Repr, Inhabited

inductive Link where
  | child (link : ChildLink)
  | parent (link : ParentLink)
  | pivot (link : PivotLink)
  | through (link : ThroughLink)
  deriving Repr, Inhabited

structure Relation where
  name : String
  kind : Kind
  /-- Names of the resources it leads to. -/
  targets : List String
  link : Link
  deriving Repr, Inhabited

namespace Relation

def isMutable (relation : Relation) : Bool := relation.kind.isMutable

def isNestable (relation : Relation) : Bool := relation.kind.isNestable

/-- The join fields that clients may read and write. -/
def pivotFields (relation : Relation) : List String :=
  match relation.link with
  | .pivot link => link.fields
  | _ => []

/-- The columns that a parent record has to carry for its related records to be found. -/
def parentColumns (relation : Relation) : List String :=
  match relation.link with
  | .child link => [link.localKey]
  | .parent link => link.foreignKey :: link.morphType.toList
  | .pivot link => [link.localKey]
  | .through link => [link.localKey]

end Relation

namespace RelationDeclaration

/-- The pick of a declaration, provided that it names a column and an extreme. -/
def pick? (relation : RelationDeclaration) : Option (Option Pick) :=
  match relation.ofMany with
  | none => some none
  | some (column, extreme) => do
    let extreme ← Extreme.ofName? (← extreme.text?)
    some (some ⟨← column.text?, extreme⟩)

/-- The link of a declaration, provided that every option it needs is a name. -/
def link? (relation : RelationDeclaration) (schema : Schema) : Option Link := do
  let localKey := relation.localKey.text?
  match relation.kind.linkPlace with
  | .child =>
    return .child ⟨← relation.foreignKey.text?, ← localKey, relation.morphType, ← relation.pick?⟩
  | .parent =>
    let morphType := if relation.kind = .morphTo then relation.morphType else none
    return .parent ⟨← relation.foreignKey.text?, ← relation.ownerKey.text?, morphType⟩
  | .pivot =>
    let table ← schema.table? (← relation.pivotTable.text?)
    let morph := match relation.kind with
      | .morphToMany => relation.morphType.map (·, .parent)
      | .morphedByMany => relation.morphType.map (·, .target)
      | _ => none
    return .pivot {
      table, morph
      foreignKey := ← relation.foreignPivotKey.text?
      relatedKey := ← relation.relatedPivotKey.text?
      localKey := ← localKey
      targetKey := ← relation.relatedKey.text?
      fields := ← relation.pivotFields.mapM Json.text? }
  | .through =>
    let table ← schema.table? (← relation.throughTable.text?)
    return .through {
      table
      firstKey := ← relation.firstKey.text?
      secondKey := ← relation.secondKey.text?
      localKey := ← localKey
      secondLocalKey := ← relation.secondLocalKey.text? }

/-- The relation of a declaration, provided that every option it needs is a name. -/
def relation? (relation : RelationDeclaration) (schema : Schema) : Option Relation := do
  return ⟨relation.name, relation.kind, ← relation.targets.mapM Json.text?, ← relation.link? schema⟩

end RelationDeclaration

end ResourceApi
