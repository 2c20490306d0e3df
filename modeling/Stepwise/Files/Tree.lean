import Stepwise.Files.Fault
import Stepwise.Files.Path

/-!
# Trees of files

A directory with everything below it, as a value. A path is followed name by name, from the working
directory if it does not begin at the top; every name but the last has to be that of a directory.

* `Files.read`, `Files.write`, `Files.move` and `Files.makeDirectories` are what programs do with
  files.
* What is put in a directory is found there, and nothing else has changed:
  `FileNode.child?_put_self`, `FileNode.child?_put_of_ne`. A directory far below is changed where it
  is: `FileNode.node?_changeAt`.
-/

set_option autoImplicit false

namespace Stepwise

/-- A file, or a directory with what is in it by name. -/
inductive FileNode where
  | file (content : ByteArray)
  | directory (entries : List (String × FileNode))

namespace FileNode

/-! ## One directory -/

/-- What is in a directory; nothing is in a file. -/
def entries : FileNode → List (String × FileNode)
  | file _ => []
  | directory entries => entries

/-- What has a name in a directory. -/
def child? (d : FileNode) (name : String) : Option FileNode :=
  (d.entries.find? (·.1 == name)).map (·.2)

/-- The directory without a name. -/
def erase (d : FileNode) (name : String) : FileNode := directory (d.entries.filter (·.1 != name))

/-- The directory with something put at a name. -/
def put (d : FileNode) (name : String) (node : FileNode) : FileNode :=
  directory ((name, node) :: (d.erase name).entries)

@[simp] theorem child?_put_self (d : FileNode) (name : String) (node : FileNode) :
    (d.put name node).child? name = some node := by
  simp [child?, put, entries]

theorem child?_put_of_ne (d : FileNode) {name other : String} (node : FileNode) (h : name ≠ other) :
    (d.put name node).child? other = d.child? other := by
  have hfind : ∀ es : List (String × FileNode),
      (es.filter (·.1 != name)).find? (·.1 == other) = es.find? (·.1 == other) := by
    intro es
    induction es with
    | nil => rfl
    | cons e rest ih =>
      by_cases he : e.1 = name
      · simp [he, h, ih]
      · by_cases ho : e.1 = other <;> simp [he, ho, ih, Ne.symm h]
  simp [child?, put, erase, entries, h, hfind]

/-! ## Directories below -/

/-- What is at a place: the names lead down to it. -/
def node? (d : FileNode) : List String → Option FileNode
  | [] => some d
  | name :: rest =>
    match d.child? name with
    | none => none
    | some node => node.node? rest

/-- The directory with what is at a place below it changed, if something is there. -/
def changeAt (f : FileNode → FileNode) (d : FileNode) : List String → FileNode
  | [] => f d
  | name :: rest =>
    match d.child? name with
    | none => d
    | some node => d.put name (node.changeAt f rest)

theorem node?_changeAt (f : FileNode → FileNode) (d : FileNode) (place : List String) :
    (d.changeAt f place).node? place = (d.node? place).map f := by
  induction place generalizing d with
  | nil => rfl
  | cons name rest ih => cases h : d.child? name <;> simp [changeAt, node?, h, ih]

end FileNode

/-- A tree of files, and the place of the working directory in it. -/
structure Files where
  top : FileNode
  working : List String

/-- Where a path ends. -/
inductive PathEnd where
  /-- At a directory, reached by staying or by going up. -/
  | directory (node : FileNode)
  /-- At a name in the directory at a place. Something may have that name, and a slash may follow
  it. -/
  | entry (place : List String) (name : String) (there : Option FileNode) (slash : Bool)

namespace Files

/-- The tree with nothing in it but the working directory. -/
def empty : Files := ⟨.directory [("work", .directory [])], ["work"]⟩

instance : Inhabited Files := ⟨empty⟩

/-- The tree with something put at a name in the directory at a place. -/
def putAt (t : Files) (place : List String) (name : String) (node : FileNode) : Files :=
  { t with top := t.top.changeAt (·.put name node) place }

/-- The tree without a name in the directory at a place. -/
def eraseAt (t : Files) (place : List String) (name : String) : Files :=
  { t with top := t.top.changeAt (·.erase name) place }

/-! ## Following a path -/

/-- The directory that a trail leads to, a trail being the names followed and what they led to, the
last one first. -/
def onTrail (t : Files) : List (String × FileNode) → FileNode
  | [] => t.top
  | (_, node) :: _ => node

/-- The trail on which names lead from the end of a trail; each has to be that of a directory. -/
def walk (t : Files) (trail : List (String × FileNode)) :
    List String → Except FileFault (List (String × FileNode))
  | [] => .ok trail
  | name :: rest =>
    if name = "." then walk t trail rest
    else if name = ".." then walk t trail.tail rest
    else if Path.isLongName name then .error .nameTooLong
    else
      match (t.onTrail trail).child? name with
      | none => .error .missing
      | some (.file _) => .error .notDirectory
      | some node => walk t ((name, node) :: trail) rest

/-- Where a path ends; what leads there has to be directories. -/
def pathEnd (t : Files) (path : String) : Except FileFault PathEnd :=
  if Path.hasNul path then .error .nulInName
  else if Path.isLong path then .error .nameTooLong
  else do
    let start ← if Path.isAbsolute path then .ok [] else t.walk [] t.working
    match (Path.names path).getLast? with
    | none => return .directory (t.onTrail start)
    | some name =>
      let trail ← t.walk start (Path.names path).dropLast
      if name = "." then return .directory (t.onTrail trail)
      if name = ".." then return .directory (t.onTrail trail.tail)
      if Path.isLongName name then throw .nameTooLong
      return .entry (trail.reverse.map (·.1)) name ((t.onTrail trail).child? name)
        (Path.endsInSlash path)

/-- What a path leads to. -/
def find (t : Files) (path : String) : Except FileFault FileNode := do
  match ← t.pathEnd path with
  | .directory node => return node
  | .entry _ _ none _ => throw .missing
  | .entry _ _ (some (.file _)) true => throw .notDirectory
  | .entry _ _ (some node) _ => return node

/-- Whether a path leads to a directory. -/
def isDirectory (t : Files) (path : String) : Bool :=
  match t.find path with
  | .ok (.directory _) => true
  | _ => false

/-! ## Files -/

/-- The content of a file, which has to be text. -/
def read (t : Files) (path : String) : Except FileFault String := do
  match ← t.find path with
  | .directory _ => throw .isDirectory
  | .file content =>
    match String.fromUTF8? content with
    | some text => return text
    | none => throw .notText

/-- The tree with a file written, anew or over a file. A path that a slash ends asks for a
directory, even where nothing is. -/
def write (t : Files) (path : String) (content : ByteArray) : Except FileFault Files := do
  match ← t.pathEnd path with
  | .directory _ | .entry _ _ _ true | .entry _ _ (some (.directory _)) _ => throw .isDirectory
  | .entry place name _ false => return t.putAt place name (.file content)

/-- The tree with a file moved, over another file if there is one. -/
def move (t : Files) (path target : String) : Except FileFault Files := do
  match ← t.pathEnd path, ← t.pathEnd target with
  | .directory _, _ | _, .directory _ => throw .busy
  | .entry _ _ none _, _ => throw .missing
  | .entry _ _ (some (.directory _)) _, _ => throw .isDirectory
  | .entry source name (some node) slash, .entry place fresh there slash' =>
    if slash || slash' then throw .notDirectory
    match there with
    | some (.directory _) => throw .isDirectory
    | _ => return (t.eraseAt source name).putAt place fresh node

/-! ## Directories -/

/-- The tree with a directory made where nothing is. -/
def makeDirectory (t : Files) (path : String) : Except FileFault Files := do
  match ← t.pathEnd path with
  | .directory _ | .entry _ _ (some _) _ => throw .present
  | .entry place name none _ => return t.putAt place name (.directory [])

/-- Makes directories in turn, passing over those that are there, until one cannot be made. -/
def makeEach (t : Files) : List String → Except FileFault Unit × Files
  | [] => (.ok (), t)
  | path :: rest =>
    match t.makeDirectory path with
    | .ok t => makeEach t rest
    | .error fault =>
      if fault = .present ∧ t.isDirectory path then makeEach t rest else (.error fault, t)

/-- Whether a directory cannot be made for want of one on the way. -/
def lacksParent (t : Files) (path : String) : Bool :=
  match t.makeDirectory path with
  | .error .missing => true
  | _ => false

/-- Makes a directory and those on the way to it. The longest part of the path that lacks nothing on
its way comes first, then the longer ones; what has been made before a fault stays. -/
def makeDirectories (t : Files) (path : String) : Except FileFault Unit × Files :=
  let (lacking, others) := (Path.ancestors path).span t.lacksParent
  t.makeEach ((lacking ++ others.take 1).reverse)

/-- The names in a directory, sorted; none if there is no such directory. -/
def list (t : Files) (path : String) : List String :=
  match t.find path with
  | .ok d => (d.entries.map (·.1)).mergeSort fun a b => decide (a ≤ b)
  | .error _ => []

end Files

end Stepwise
