/-!
Kinds of relations. A kind decides how many records a relation leads to, where the link is stored and which writes it
accepts.
-/

namespace ResourceApi

inductive Kind where
  | hasOne | belongsTo | hasMany | belongsToMany
  | morphTo | morphOne | morphOneOfMany | morphMany | morphToMany | morphedByMany
  | hasOneThrough | hasManyThrough
  deriving Repr, DecidableEq, Inhabited

inductive Cardinality where
  | one | many
  deriving Repr, DecidableEq, Inhabited

/-- Where the link between two records is stored: with the related record, with the record itself, in a join table, or
nowhere of its own because it is derived through a third table. -/
inductive LinkPlace where
  | child | parent | pivot | through
  deriving Repr, DecidableEq, Inhabited

/-- What a nested write does with the records it names. -/
inductive Operation where
  | create | attach | detach | sync
  deriving Repr, DecidableEq, Inhabited

def Cardinality.name : Cardinality → String
  | one => "one"
  | many => "many"

def LinkPlace.name : LinkPlace → String
  | child => "child"
  | parent => "parent"
  | pivot => "pivot"
  | through => "through"

namespace Operation

def name : Operation → String
  | create => "create"
  | attach => "attach"
  | detach => "detach"
  | sync => "sync"

def all : List Operation := [create, attach, detach, sync]

def ofName? (text : String) : Option Operation := all.find? (·.name == text)

end Operation

namespace Kind

def all : List Kind :=
  [hasOne, belongsTo, hasMany, belongsToMany, morphTo, morphOne, morphOneOfMany, morphMany, morphToMany,
    morphedByMany, hasOneThrough, hasManyThrough]

def name : Kind → String
  | hasOne => "has_one"
  | belongsTo => "belongs_to"
  | hasMany => "has_many"
  | belongsToMany => "belongs_to_many"
  | morphTo => "morph_to"
  | morphOne => "morph_one"
  | morphOneOfMany => "morph_one_of_many"
  | morphMany => "morph_many"
  | morphToMany => "morph_to_many"
  | morphedByMany => "morphed_by_many"
  | hasOneThrough => "has_one_through"
  | hasManyThrough => "has_many_through"

def ofName? (text : String) : Option Kind := all.find? (·.name == text)

def cardinality : Kind → Cardinality
  | hasOne | belongsTo | morphTo | morphOne | morphOneOfMany | hasOneThrough => .one
  | hasMany | belongsToMany | morphMany | morphToMany | morphedByMany | hasManyThrough => .many

def linkPlace : Kind → LinkPlace
  | hasOne | hasMany | morphOne | morphOneOfMany | morphMany => .child
  | belongsTo | morphTo => .parent
  | belongsToMany | morphToMany | morphedByMany => .pivot
  | hasOneThrough | hasManyThrough => .through

/-- Whether related records can be written through the relation. -/
def isMutable (kind : Kind) : Bool := kind.linkPlace != .through

/-- Whether a search can go on through the relation: it has one target resource. -/
def isNestable (kind : Kind) : Bool := kind != .morphTo

/-- The writes that a kind accepts. -/
def operations (kind : Kind) : List Operation :=
  match kind.linkPlace with
  | .child | .parent => [.create, .attach, .detach]
  | .pivot => [.create, .attach, .detach, .sync]
  | .through => []

def allows (kind : Kind) (operation : Operation) : Bool := kind.operations.contains operation

theorem ofName?_name (kind : Kind) : ofName? kind.name = some kind := by
  cases kind <;> decide

end Kind

end ResourceApi
