import ResourceApi.Storage.Binding
import ResourceApi.Storage.Database

/-!
What queries mean on a database. Conditions have three outcomes, nothing being known where null is compared; rows are
kept that are known to meet the conditions.
-/

namespace ResourceApi

/-- Outcome of a condition; none where it is not known. -/
abbrev Truth := Option Bool

namespace Truth

/-- False if one is false, else not known if one is not. -/
def all (truths : List Truth) : Truth :=
  if truths.contains (some false) then some false
  else if truths.contains none then none
  else some true

/-- True if one is true, else not known if one is not. -/
def any (truths : List Truth) : Truth :=
  if truths.contains (some true) then some true
  else if truths.contains none then none
  else some false

def negate (truth : Truth) : Truth := truth.map not

def holds (truth : Truth) : Bool := truth == some true

end Truth

/-- The rows that a query has in hand, one for each of its tables so far. -/
abbrev Frame := List Row

/-- What a query is run on: the tables, and the keys of the parents it is run for. -/
structure Ground where
  rows : String → List Row
  parents : List Cell := []

namespace Query

/-- The cell of a column in sight. -/
def cellOf (frames : List Frame) (ref : ColumnRef) : Cell :=
  Row.cell ((frames.getD ref.frame []).getD ref.slot []) ref.name

/-- Whether an ordering answers a comparison. -/
def answers : Comparison → Ordering → Bool
  | .equal, ordering => ordering == .eq
  | .notEqual, ordering => ordering != .eq
  | .greater, ordering => ordering == .gt
  | .atLeast, ordering => ordering != .lt
  | .less, ordering => ordering == .lt
  | .atMost, ordering => ordering != .gt
  | _, _ => false

/-- Comparison of a cell of a column with a value from elsewhere. -/
def compare (comparison : Comparison) (affinity : Affinity) (cell value : Cell) : Truth :=
  match comparison with
  | .like => cell.like? value
  | .notLike => Truth.negate (cell.like? value)
  | _ =>
    if cell = .null || value = .null then none
    else some (answers comparison (Cell.orderFor affinity cell value))

/-- Whether a cell is one of some values; a list without values holds nothing, not even null. -/
def among (affinity : Affinity) (cell : Cell) (values : List Cell) : Truth :=
  Truth.any (values.map (compare .equal affinity cell))

/-- The extreme cell of several, null if there is none but nulls. -/
def extremeOf (extreme : Extreme) (cells : List Cell) : Cell :=
  let better (a b : Cell) : Bool := Cell.order a b == (if extreme = .max then .gt else .lt)
  match cells.filter (· != .null) with
  | [] => .null
  | first :: rest => rest.foldl (fun best cell => if better cell best then cell else best) first

mutual
/-- Outcome of a condition for the rows in hand. -/
def truth (ground : Ground) (frames : List Frame) : Cond → Truth
  | .isNull ref => some (cellOf frames ref == .null)
  | .isNotNull ref => some (cellOf frames ref != .null)
  | .compare comparison ref bound => compare comparison ref.type.affinity (cellOf frames ref) bound.cell
  | .truth equal ref b =>
    compare (if equal then .equal else .notEqual) ref.type.affinity (cellOf frames ref) (.int (if b then 1 else 0))
  | .among ref bounds => among ref.type.affinity (cellOf frames ref) (bounds.map Bound.cell)
  | .notAmong ref bounds => Truth.negate (among ref.type.affinity (cellOf frames ref) (bounds.map Bound.cell))
  | .amongParents ref => among ref.type.affinity (cellOf frames ref) ground.parents
  | .linked ref other =>
    let a := cellOf frames ref
    let b := cellOf frames other
    if a = .null || b = .null then none
    else some (Cell.orderBetween ref.type.affinity other.type.affinity a b == .eq)
  | .picked ref extreme of source conditions =>
    let rows := (extend ground frames source []).filter fun frame =>
      Truth.holds (Truth.all (truths ground (frame :: frames) conditions))
    let best := extremeOf extreme (rows.map fun frame => cellOf (frame :: frames) of)
    compare .equal ref.type.affinity (cellOf frames ref) best
  | .exist _ source conditions =>
    some ((extend ground frames source []).any fun frame =>
      Truth.holds (Truth.all (truths ground (frame :: frames) conditions)))
  | .all conditions => Truth.all (truths ground frames conditions)
  | .any conditions => Truth.any (truths ground frames conditions)
termination_by structural c => c

def truths (ground : Ground) (frames : List Frame) : List Cond → List Truth
  | [] => []
  | c :: rest => truth ground frames c :: truths ground frames rest
termination_by structural cs => cs

/-- The rows of a source joined to those in hand, first table first. -/
def extend (ground : Ground) (frames : List Frame) : Source → Frame → List Frame
  | .table name, frame => (ground.rows name).map fun row => frame ++ [row]
  | .join left right on, frame =>
    (extend ground frames left frame).flatMap fun joined =>
      (extend ground frames right joined).filter fun both =>
        Truth.holds (Truth.all (truths ground (both :: frames) on))
termination_by structural source => source
end

/-- The rows of a source that are known to meet conditions. -/
def matching (ground : Ground) (frames : List Frame) (source : Source) (conditions : List Cond) : List Frame :=
  (extend ground frames source []).filter fun frame =>
    Truth.holds (Truth.all (truths ground (frame :: frames) conditions))

/-! ## Measures -/

/-- A number among others in a sum: integers are added as such as long as there is nothing else. -/
inductive Sum where
  | whole (value : Int)
  | real (value : Double)

namespace Sum

/-- What a cell adds: an integer, also one in a text, or a real number. -/
def ofCell (cell : Cell) : Sum :=
  match cell.asNumber with
  | .int n => whole n
  | other => real other.toDouble

def toDouble : Sum → Double
  | whole n => .ofInt n
  | real d => d

/-- Adds two; no sum of integers may leave the word. -/
def add : Sum → Sum → Option Sum
  | whole m, whole n => if Word.holds (m + n) then some (whole (m + n)) else none
  | a, b => some (real (a.toDouble.add b.toDouble))

end Sum

/-- The measure of the cells of some rows; an integer sum that leaves the word is refused. -/
def measured (measure : Measure) (cells : List Cell) : Except Failure Cell :=
  let known := cells.filter (· != .null)
  match measure with
  | .count => .ok (.int cells.length)
  | .presence => .ok (.int (if cells.isEmpty then 0 else 1))
  | .min => .ok (extremeOf .min cells)
  | .max => .ok (extremeOf .max cells)
  | .sum =>
    match known with
    | [] => .ok .null
    | first :: rest =>
      match rest.foldlM (fun sum cell => sum.add (Sum.ofCell cell)) (Sum.ofCell first) with
      | none => .error (.storage .statement)
      | some (.whole n) => .ok (.int n)
      | some (.real d) => .ok (.real d)
  | .avg =>
    match known with
    | [] => .ok .null
    | _ =>
      let total := known.foldl (fun sum cell => sum.add cell.asNumber.toDouble) Double.zero
      .ok (.real (total.divNat known.length))

/-- Type of the values of a measure, for reading them. -/
def measureType (measure : Measure) (argument : Option ColumnRef) : ColumnType :=
  match measure, argument with
  | .min, some ref | .max, some ref | .sum, some ref => ref.type
  | _, _ => .float

/-- The value of an output for a row. -/
def outputValue (ground : Ground) (frame : Frame) : Output → Except Failure Json
  | .column ref _ => (cellOf [frame] ref).shown ref.type
  | .measure _ measure argument source conditions => do
    let frames := matching ground [frame] source conditions
    let cells := frames.map fun inner =>
      match argument with
      | some ref => cellOf [inner, frame] ref
      | none => .int 1
    let cell ← measured measure cells
    if measure = .presence then return .bool (cell == .int 1)
    cell.shown (measureType measure argument)

/-! ## Values of a statement -/

mutual
/-- The values in a condition, in the order of the text. -/
def boundsOf : Cond → List Bound
  | .compare _ _ bound => [bound]
  | .among _ bounds | .notAmong _ bounds => bounds
  | .picked _ _ _ source conditions | .exist _ source conditions => sourceBounds source ++ allBounds conditions
  | .all conditions | .any conditions => allBounds conditions
  | _ => []
termination_by structural c => c

def allBounds : List Cond → List Bound
  | [] => []
  | c :: rest => boundsOf c ++ allBounds rest
termination_by structural cs => cs

def sourceBounds : Source → List Bound
  | .table _ => []
  | .join left right on => sourceBounds left ++ sourceBounds right ++ allBounds on
termination_by structural source => source
end

def outputBounds : Output → List Bound
  | .column .. => []
  | .measure _ _ _ source conditions => sourceBounds source ++ allBounds conditions

/-- The values of a query but for the keys of parents, in the order of its text. -/
def bounds (query : Query) : List Bound :=
  query.outputs.flatMap outputBounds ++ sourceBounds query.source ++ allBounds query.conditions ++
    match query.page with
    | some (limit, offset) => [⟨.integer, .int limit⟩, ⟨.integer, .int offset⟩]
    | none => []

/-! ## Rows of a result -/

/-- Order of rows by columns, the first that differs deciding. -/
def rowOrder (order : List (ColumnRef × Direction)) (a b : Frame) : Ordering :=
  match order with
  | [] => .eq
  | (ref, direction) :: rest =>
    let ordering := Cell.order (cellOf [a] ref) (cellOf [b] ref)
    match if direction = .asc then ordering else ordering.swap with
    | .eq => rowOrder rest a b
    | decided => decided

def sorted (order : List (ColumnRef × Direction)) (frames : List Frame) : List Frame :=
  frames.mergeSort fun a b => rowOrder order a b != .gt

/-- The rows of a page; a negative limit is none, a negative offset nothing. -/
def paged (page : Option (Int × Int)) (frames : List Frame) : List Frame :=
  match page with
  | none => frames
  | some (limit, offset) =>
    let rest := frames.drop offset.toNat
    if limit < 0 then rest else rest.take limit.toNat

/-- The rows that a query takes, in their order. -/
def frames (query : Query) (ground : Ground) : List Frame :=
  paged query.page (sorted query.order (matching ground [] query.source query.conditions))

/-- A name that two outputs bear. -/
def repeatedKey? (outputs : List Output) : Option String :=
  let keys := outputs.map Output.key
  keys.find? fun key => 1 < keys.count key

/-- The rows of a result as members by output. -/
def results (query : Query) (ground : Ground) : Except Failure (List Members) := do
  let found ← (query.frames ground).mapM fun frame =>
    query.outputs.mapM fun output => return (output.key, ← outputValue ground frame output)
  match found, repeatedKey? query.outputs with
  | _ :: _, some key => .error (.storage (.ambiguousColumn key))
  | _, _ => return found

end Query

end ResourceApi
