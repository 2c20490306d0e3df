/-!
# Paths

A path is a row of names between slashes. Empty stretches between slashes say nothing, a single
point stays where it is, two points go up, and any other name goes down. A path that begins with a
slash starts at the top of all files.

* `Path.names` is the row; `Path.steps` leaves the single points out.
* `Path.ancestors` are the paths on the way, the longest first; each step makes one:
  `Path.length_ancestors`.
-/

set_option autoImplicit false

namespace Stepwise.Path

/-- The names of a path. -/
def names (path : String) : List String := (path.splitOn "/").filter (· != "")

/-- The names of a path that lead elsewhere. -/
def steps (path : String) : List String := (names path).filter (· != ".")

/-- Whether a path starts at the top of all files. -/
def isAbsolute (path : String) : Bool := path.startsWith "/"

/-- The path through other names from where a path starts. -/
def withNames (path : String) (names : List String) : String :=
  (if isAbsolute path then "/" else "") ++ "/".intercalate names

/-- Whether a slash ends the path. What a path leads to has to be a directory then. -/
def endsInSlash (path : String) : Bool := path.endsWith "/"

/-- The path to the directory that a path leads into. -/
def parent (path : String) : String := withNames path (steps path).dropLast

/-- The path itself, then the paths through fewer and fewer of its steps, down to none. -/
def ancestors (path : String) : List String :=
  path :: ((List.range (steps path).length).reverse.map fun n =>
    withNames path ((steps path).take n))

/-- A path has an ancestor for every step, and itself. -/
theorem length_ancestors (path : String) : (ancestors path).length = (steps path).length + 1 := by
  simp [ancestors]

/-! ## Limits -/

/-- The most bytes of a name. -/
def greatestName : Nat := 255

/-- The most bytes of a path. -/
def greatestPath : Nat := 4095

/-- Whether a name has too many bytes. -/
def isLongName (name : String) : Bool := decide (greatestName < name.utf8ByteSize)

/-- Whether a path has too many bytes. -/
def isLong (path : String) : Bool := decide (greatestPath < path.utf8ByteSize)

/-- Whether the character that ends texts in memory is in a path. -/
def hasNul (path : String) : Bool := path.toList.contains '\x00'

/-! ## The name of a file -/

/-- A name without its extension: what stands behind the last point, if something stands before
it. -/
def stem (name : String) : String :=
  match name.splitOn "." with
  | [] | [_] => name
  | parts => if parts.dropLast = [""] then name else ".".intercalate parts.dropLast

/-- The path with the extension of its last name replaced. A path that names no file stays as it is.
So does, its extension apart, one that ends in a name such as `..x`: what is left is the way up,
which names no file. -/
def withExtension (path extension : String) : String :=
  match (steps path).reverse with
  | [] | ".." :: _ => path
  | name :: above =>
    let fresh := if path.endsWith name && stem name == "." then ".." else stem name ++ "." ++
      extension
    withNames path (above.reverse ++ [fresh])

end Stepwise.Path
