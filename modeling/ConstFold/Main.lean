import ConstFold.Command

/-!
# The program

The command on the files and streams of the machine.
-/

namespace ConstFold

/-- The file errors that a run reports by itself; all others are left to the caller. -/
def FileError.ofSystem? : IO.Error → Option FileError
  | .noFileOrDirectory .. => some .notFound
  | .inappropriateType .. => some .isDirectory
  | .alreadyExists .. => some .alreadyExists
  | .permissionDenied .. => some .permissionDenied
  | _ => none

/-- Tries an operation on files. -/
def attempt {α : Type} (act : IO α) : IO (Except FileError α) := do
  try
    let a ← act
    return .ok a
  catch e =>
    match FileError.ofSystem? e with
    | some known => return .error known
    | none => throw e

/-- A path exists if it can be opened, or if something other than its absence prevents that. -/
def systemPathExists (l : Location) : IO Bool := do
  try
    let _ ← IO.FS.Handle.mk l.text.unicode .read
    return true
  catch
    | .noFileOrDirectory .. => return false
    | .inappropriateType .. => return false
    | _ => return true

def systemReadText (l : Location) : IO Text := do
  let text ← IO.FS.readFile l.text.unicode
  return text

def systemHost : Host IO where
  pathExists := systemPathExists
  readText l := attempt (systemReadText l)
  writeText l text := attempt <| IO.FS.writeFile l.text.unicode text.unicode
  makeDirectory l := attempt <| IO.FS.createDirAll l.text.unicode
  say text := IO.println text.unicode
  complain text := IO.eprintln text.unicode

end ConstFold

open ConstFold in
def main (args : List String) : IO UInt32 := do
  try
    let current ← IO.currentDir
    match StartPath.ofText? current.toString with
    | none => throw <| IO.userError "The working directory has no absolute path."
    | some dir =>
      let ending ← Command.run systemHost dir.location args
      if let .failed e := ending then IO.eprintln e.code.unicode
      return UInt32.ofNat ending.status
  catch e =>
    IO.eprintln (toString e)
    return UInt32.ofNat ExitCode.unexpectedFailure.number
