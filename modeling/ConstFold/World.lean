import ConstFold.Command

/-!
# Worlds

A file tree together with what may be done in it and what has been said.  `World.host` runs the command in a
world, without a machine.

On a disk, names of files and what is in them are rows of characters.  A name or a text that is none, half of a
pair in it standing alone, gets there with the replacement character in that place.
-/

namespace ConstFold

/-- Where a location is found on a disk. -/
def Location.onDisk (l : Location) : Location := ⟨l.parts.map Text.toWellFormed⟩

/-!
## File trees

Files with their texts, and directories.  A directory is one that is listed or that something listed lies in,
and the root always is one.
-/

structure FileTree where
  files : List (Location × Text)
  directories : List Location

namespace FileTree

def empty : FileTree := ⟨[], []⟩

def addFile (t : FileTree) (l : Location) (text : Text) : FileTree :=
  { t with files := Keyed.put l text t.files }

def addDirectory (t : FileTree) (l : Location) : FileTree :=
  { t with directories := l :: t.directories }

def text? (t : FileTree) (l : Location) : Option Text := t.files.lookup l

def isFile (t : FileTree) (l : Location) : Bool := (t.text? l).isSome

def isDirectory (t : FileTree) (l : Location) : Bool :=
  l.parts.isEmpty || t.directories.any (·.within l) ||
    t.files.any fun file => file.1 ≠ l && file.1.within l

/-- Some file stands where a directory on the way to the location should be. -/
def isBlocked (t : FileTree) (l : Location) : Bool :=
  t.files.any fun file => file.1 ≠ l && l.within file.1

def pathExists (t : FileTree) (l : Location) : Bool := t.isFile l || t.isDirectory l

def readText (t : FileTree) (l : Location) : Except FileError Text :=
  match t.text? l with
  | some text => .ok text
  | none =>
    .error (if t.isDirectory l then .isDirectory else if t.isBlocked l then .notDirectory else .notFound)

def makeDirectory (t : FileTree) (l : Location) : Except FileError FileTree :=
  if t.isBlocked l then .error .notDirectory
  else if t.isFile l then .error .alreadyExists
  else .ok (t.addDirectory l)

def writeText (t : FileTree) (l : Location) (text : Text) : Except FileError FileTree :=
  if t.isDirectory l then .error .isDirectory
  else if t.isBlocked l then .error .notDirectory
  else if t.isDirectory l.parent then .ok (t.addFile l text)
  else .error .notFound

/-- The files of one tree that another does not hold with the same text. -/
def changesSince (t before : FileTree) : List (Location × Text) :=
  t.files.filter fun file => before.text? file.1 ≠ some file.2

end FileTree

/-! ## Worlds -/

/-- A file tree, what may be done in it, and what has been said. -/
structure World where
  tree : FileTree
  /-- Whether a file at the location may be read. -/
  mayRead : Location → Bool := fun _ => true
  /-- Whether a file may be written, or a directory made, at the location. -/
  mayWrite : Location → Bool := fun _ => true
  output : List Text := []
  errors : List Text := []

namespace World

/-- The result of an operation, unless it would succeed and is not allowed. -/
def permit {α : Type} (allowed : Bool) (result : Except FileError α) : Except FileError α := do
  let a ← result
  if allowed then return a else throw .permissionDenied

def readText (w : World) (l : Location) : Except FileError Text := permit (w.mayRead l) (w.tree.readText l)

def writeText (w : World) (l : Location) (text : Text) : Except FileError FileTree :=
  permit (w.mayWrite l) (w.tree.writeText l text)

/-- A directory that is there already needs no permission. -/
def makeDirectory (w : World) (l : Location) : Except FileError FileTree :=
  permit (w.tree.isDirectory l || w.mayWrite l) (w.tree.makeDirectory l)

/-- Changes the tree, unless that fails. -/
def update (change : World → Except FileError FileTree) : StateM World (Except FileError Unit) := do
  let world ← get
  match change world with
  | .ok tree =>
    set { world with tree }
    return .ok ()
  | .error e => return .error e

def host : Host (StateM World) where
  pathExists l := return (← get).tree.pathExists l.onDisk
  readText l := return (← get).readText l.onDisk
  writeText l text := update (·.writeText l.onDisk text.toWellFormed)
  makeDirectory l := update (·.makeDirectory l.onDisk)
  say text := modify fun world => { world with output := world.output ++ [text] }
  complain text := modify fun world => { world with errors := world.errors ++ [text] }

end World

end ConstFold
