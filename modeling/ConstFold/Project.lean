import ConstFold.Propagation

/-!
# Projects

A configuration names the program to read and the place for the result, and sets two switches.  It is found in the
directory at hand or in the nearest one above it that has a configuration file; that file alone decides, whether
it can be used or not.  The bare root is not looked into.
-/

namespace ConstFold

/-!
## Locations

A location is an absolute path in normal form, given by its components: none of them is empty, a single dot
or a double dot.
-/

structure Location where
  parts : List Text
deriving DecidableEq, Repr

namespace Location

def slash : CodeUnit := '/'

def dot : CodeUnit := '.'

def root : Location := ⟨[]⟩

def text (l : Location) : Text := "/" ++ Text.intercalate "/" l.parts

/-- The directory that holds a location; the root holds itself. -/
def parent (l : Location) : Location := ⟨l.parts.dropLast⟩

/-- One location lies in another, or is it. -/
def within (l dir : Location) : Bool := dir.parts.isPrefixOf l.parts

/-- Follows one component: empty ones and single dots stay, double dots go up. -/
def step (l : Location) (component : List CodeUnit) : Location :=
  if component = [] ∨ component = [dot] then l
  else if component = [dot, dot] then l.parent
  else ⟨l.parts ++ [⟨component⟩]⟩

/-- Follows the components of a path. -/
def walk (l : Location) (path : List CodeUnit) : Location := (path.splitOn slash).foldl step l

/-- Follows a path, from the root if it begins with a slash. -/
def follow (l : Location) (path : Text) : Location :=
  if path.units.head? = some slash then root.walk path.units else l.walk path.units

theorem within_iff {l dir : Location} : l.within dir = true ↔ dir.parts <+: l.parts := List.isPrefixOf_iff_prefix

theorem within_self (l : Location) : l.within l = true := within_iff.2 (List.prefix_refl l.parts)

end Location

/-!
## Start paths

An absolute path as someone wrote it, with empty components, dots and slashes at the end.  Going up from it
(`parent`) cuts the text and leaves dots alone; resolving a path against it gives a location.  Going up ends at
the bare root (`parent_length_lt`), so the chain of directories above a path is finite.
-/

/-- An absolute path as written: what stands after its first slash. -/
structure StartPath where
  tail : List CodeUnit
deriving DecidableEq, Repr

namespace StartPath

open Location

def ofText? (s : Text) : Option StartPath :=
  match s.units with
  | [] => none
  | u :: tail => if u = slash then some ⟨tail⟩ else none

def ofLocation (l : Location) : StartPath := ⟨(Text.intercalate "/" l.parts).units⟩

def location (d : StartPath) : Location := root.walk d.tail

/-- The location of a path as seen from a directory. -/
def resolve (d : StartPath) (path : Text) : Location := d.location.follow path

/-- What stands before the last component of a path, with the slash between them, read backwards. -/
def beforeLast (path : List CodeUnit) : List CodeUnit :=
  (path.reverse.dropWhile (· == slash)).dropWhile (· != slash)

/-- Cuts off slashes at the end, the last component and the slash before it.  A path that is cut down to its
first two slashes keeps both. -/
def parent (d : StartPath) : StartPath :=
  match beforeLast d.tail with
  | [] => ⟨[]⟩
  | [_] => ⟨[slash]⟩
  | _ :: rest => ⟨rest.reverse⟩

/-- Before the last component there is nothing, or less than the path. -/
theorem beforeLast_length (path : List CodeUnit) :
    beforeLast path = [] ∨ (beforeLast path).length < path.length := by
  have hle := (List.dropWhile_sublist (l := path.reverse) (· == slash)).length_le
  rw [List.length_reverse] at hle
  have hhead := List.head?_dropWhile_not (· == slash) path.reverse
  unfold beforeLast
  cases hr : path.reverse.dropWhile (· == slash) with
  | nil => exact Or.inl rfl
  | cons u s =>
    rw [hr] at hle hhead
    have hu : (u != slash) = true := by simpa using hhead
    have hs := (List.dropWhile_sublist (l := s) (· != slash)).length_le
    right
    rw [List.dropWhile_cons, if_pos hu]
    rw [List.length_cons] at hle
    omega

theorem parent_length_lt (d : StartPath) (h : d.tail ≠ []) :
    d.parent.tail.length < d.tail.length := by
  have hpos : 0 < d.tail.length := List.length_pos_iff.2 h
  have hlen := beforeLast_length d.tail
  unfold parent
  split
  · exact hpos
  · rename_i hb
    rw [hb] at hlen
    simpa using hlen
  · rename_i hb
    rw [hb] at hlen
    simp only [reduceCtorEq, false_or, List.length_cons] at hlen
    rw [List.length_reverse]
    omega

/-- A path and those above it in turn, as long as they are not the bare root. -/
def chain (d : StartPath) : List StartPath :=
  if _ : d.tail = [] then [] else d :: chain d.parent
termination_by d.tail.length
decreasing_by exact parent_length_lt d (by assumption)

end StartPath

/-!
## Configurations

A configuration is a JSON object; a field that is not there has its default, and one that is there must be of its
type.
-/

/-- A configuration whose paths are of a given type. -/
structure Configuration (π : Type) where
  input : π
  output : π
  maximumExponent : Nat
  verbose : Bool
deriving DecidableEq, Repr

namespace Configuration

/-- The file that holds the configuration of the directory it is in. -/
def fileName : Text := "circuitc.json"

/-- What is read under a key, or a default if the key is not there. -/
def fieldOr? {α : Type} (read? : Json → Option α) (key : Text) (default : α)
    (members : List (Text × Json)) : Option α :=
  match members.lookup key with
  | none => some default
  | some j => read? j

/-- An integer of safe size that is not negative. -/
def limit? : Json → Option Nat
  | .number x =>
    (Binary64.ofFloat x).safeInteger?.bind fun
      | .ofNat n => some n
      | .negSucc _ => none
  | _ => none

def ofJson? (j : Json) : Option (Configuration Text) := do
  let members ← j.object?
  let input ← fieldOr? Json.string? "input" "build/typed.json" members
  let output ← fieldOr? Json.string? "output" "build/propagated.json" members
  let maximumExponent ← fieldOr? limit? "maximumExponent" defaultMaximumExponent.toNat members
  let verbose ← fieldOr? Json.bool? "verbose" false members
  return { input, output, maximumExponent, verbose }

def ofText? (source : Text) : Option (Configuration Text) := (Json.parse? source).bind ofJson?

/-- The configuration with its paths as seen from a directory. -/
def resolve (c : Configuration Text) (dir : StartPath) : Configuration Location :=
  { c with input := dir.resolve c.input, output := dir.resolve c.output }

/-! ## The search -/

/-- Why there is no configuration. -/
inductive Problem where
  | missing
  | unreadable
  | unparsable
deriving DecidableEq, Repr

namespace Problem

def name : Problem → Text
  | .missing => "NO_CONFIGURATION"
  | .unreadable => "UNREADABLE_CONFIGURATION_FILE"
  | .unparsable => "UNPARSABLE_CONFIGURATION_FILE"

def reason : Problem → Text
  | .missing => "No " ++ fileName ++ " in this directory or any of its parents."
  | .unreadable => fileName ++ " exists but cannot be read."
  | .unparsable => fileName ++ " is not a valid configuration."

def message (p : Problem) : Text := p.name ++ ": " ++ p.reason

end Problem

/-- The configuration in the text of a file, if the file could be read, as seen from its directory. -/
def ofFile (dir : StartPath) (text? : Option Text) : Except Problem (Configuration Location) :=
  match text? with
  | none => .error .unreadable
  | some text =>
    match ofText? text with
    | none => .error .unparsable
    | some c => .ok (c.resolve dir)

variable {m : Type → Type} [Monad m]

/-- Takes the first of the directories that has a configuration file. -/
def firstOf (pathExists : Location → m Bool) (readText? : Location → m (Option Text)) :
    List StartPath → m (Except Problem (Configuration Location))
  | [] => pure (.error .missing)
  | dir :: dirs => do
    let file := dir.resolve fileName
    if ← pathExists file then
      let text? ← readText? file
      return ofFile dir text?
    else firstOf pathExists readText? dirs

/-- The configuration of a directory. -/
def search (pathExists : Location → m Bool) (readText? : Location → m (Option Text))
    (start : StartPath) : m (Except Problem (Configuration Location)) :=
  firstOf pathExists readText? start.chain

end Configuration

end ConstFold
