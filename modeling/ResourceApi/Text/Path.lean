import ResourceApi.Text.Cut

/-!
Dotted paths: names joined by points. The text is the path; but for the empty one, it has one name more than points.
-/

namespace ResourceApi.Path

/-- A name below a path; below the empty path it stands alone. -/
def under (path name : String) : String :=
  if path.isEmpty then name else path ++ "." ++ name

/-- The names of a path. -/
def names (path : String) : List String := (Text.cut '.' path.toList).map String.ofList

/-- The names of a path, none when it is empty. -/
def segments (path : String) : List String :=
  if path.isEmpty then [] else names path

/-- The names joined again. -/
def ofNames (names : List String) : String := ".".intercalate names

/-- Number of points in a path. -/
def points (path : String) : Nat := path.toList.count '.'

/-- A path without its last name, and that name. -/
def splitLast (path : String) : String × String :=
  match (names path).reverse with
  | [] => ("", path)
  | last :: before => (ofNames before.reverse, last)

end ResourceApi.Path
