import ConstFold.Interchange
import ConstFold.Project

/-!
# The command

The compiler has two jobs on the text of a document: to propagate constants through the program in it, and to
print that program.  The command does them for the project of a working directory.  What it needs from the machine
it runs on is a `Host`; it is written against that interface once.  Only a propagation that succeeds writes a file.
-/

namespace ConstFold

/-! ## Documents -/

/-- One line on what propagation did to a function. -/
def Func.summary (before after : Func) : Text :=
  before.name ++ ": " ++ toString before.statements.length ++ " -> " ++
    toString after.statements.length ++ " statements"

inductive Outcome where
  /-- The document of the new program, and a line on each function. -/
  | done (output : Text) (summaries : List Text)
  /-- The document holds no program. -/
  | malformed
  | rejected (errors : List Diagnostic)
  | stopped (breach : Breach)

namespace Document

def propagate (maximumExponent : Int) (source : Text) : Outcome :=
  match Program.deserialize? source with
  | none => .malformed
  | some program =>
    match program.propagate maximumExponent with
    | .error breach => .stopped breach
    | .ok (.rejected errors) => .rejected errors
    | .ok (.accepted new) =>
      .done new.serialize (List.zipWith Func.summary program.functions new.functions)

def print? (source : Text) : Option Text := (Program.deserialize? source).map Program.text

end Document

/-!
## Arguments

The first argument names what to do.  Without one, constants are propagated; with one that is not known, help is
given.  The commands that work on a project explain themselves if a later argument asks.
-/

inductive Action where
  | propagate (help : Bool)
  | print (help : Bool)
  | version
  | help
deriving DecidableEq, Repr

namespace Action

def asksForHelp (args : List String) : Bool := args.contains "--help" || args.contains "-h"

def ofArguments : List String → Action
  | [] => .propagate false
  | "propagate" :: rest => .propagate (asksForHelp rest)
  | "print" :: rest => .print (asksForHelp rest)
  | "version" :: _ => .version
  | _ => .help

end Action

/-! ## Hosts -/

/-- Why an operation on files fails. -/
inductive FileError where
  | notFound
  | isDirectory
  | notDirectory
  | alreadyExists
  | permissionDenied
deriving DecidableEq, Repr

def FileError.code : FileError → Text
  | .notFound => "ENOENT"
  | .isDirectory => "EISDIR"
  | .notDirectory => "ENOTDIR"
  | .alreadyExists => "EEXIST"
  | .permissionDenied => "EACCES"

/-- Files and two streams of text. -/
structure Host (m : Type → Type) where
  pathExists : Location → m Bool
  readText : Location → m (Except FileError Text)
  writeText : Location → Text → m (Except FileError Unit)
  /-- Makes a directory and those that it lies in. -/
  makeDirectory : Location → m (Except FileError Unit)
  /-- Puts a text and a line end on the output stream. -/
  say : Text → m Unit
  /-- Puts a text and a line end on the error stream. -/
  complain : Text → m Unit

/-! ## Endings -/

inductive ExitCode where
  | compileErrors
  | invalidInput
  | internalError
  | unexpectedFailure
deriving DecidableEq, Repr

def ExitCode.number : ExitCode → Nat
  | .compileErrors => 1
  | .invalidInput => 2
  | .internalError => 3
  | .unexpectedFailure => 4

/-- How a run of the command ends. -/
inductive Ending where
  | finished
  | exited (code : ExitCode)
  /-- A file could not be read or written. -/
  | failed (error : FileError)
deriving DecidableEq, Repr

/-- The code that a run ends the process with. -/
def Ending.status : Ending → Nat
  | .finished => 0
  | .exited code => code.number
  | .failed _ => ExitCode.unexpectedFailure.number

namespace Command

/-! ## Texts -/

def version : Text := "0.1.0"

def propagateHelp : Text := "Propagate constants through the program named in circuitc.json."

def printHelp : Text := "Print the input program named in circuitc.json."

def versionText : Text := "circuitc " ++ version

def usage : Text :=
  joinLines
    ["Usage:",
      "circuitc [command]",
      "",
      "Commands:",
      "[no command]: defaults to propagate command specified below.",
      "propagate: " ++ propagateHelp,
      "print: " ++ printHelp,
      "version: Show the version.",
      "help: Show this message."]

def notAProgram (input : Location) : Text := input.text ++ " is not a valid typed program."

def errorCount (n : Nat) : Text := "Found " ++ toString n ++ " error(s)."

/-! ## Actions -/

section

variable {m : Type → Type} [Monad m] (host : Host m)

def complainAll : List Text → m Unit
  | [] => pure ()
  | text :: texts => do
    host.complain text
    complainAll texts

def sayAll : List Text → m Unit
  | [] => pure ()
  | text :: texts => do
    host.say text
    sayAll texts

/-- Explains and ends with an exit code. -/
def giveUp (code : ExitCode) (texts : List Text) : m Ending := do
  complainAll host texts
  return .exited code

/-- Writes a file into a directory that is made if need be. -/
def store (l : Location) (text : Text) : m Ending := do
  match ← host.makeDirectory l.parent with
  | .error e => return .failed e
  | .ok () =>
    match ← host.writeText l text with
    | .error e => return .failed e
    | .ok () => return .finished

def propagate (c : Configuration Location) : m Ending := do
  match ← host.readText c.input with
  | .error e => return .failed e
  | .ok source =>
    match Document.propagate c.maximumExponent source with
    | .malformed => giveUp host .invalidInput [notAProgram c.input]
    | .rejected errors =>
      giveUp host .compileErrors (errorCount errors.length :: errors.map Diagnostic.text)
    | .stopped breach =>
      match breach.toInternalError with
      | .ok e => giveUp host .internalError [e.message]
      | .error fault => giveUp host .unexpectedFailure [fault.message]
    | .done output summaries => do
      sayAll host (if c.verbose then summaries else [])
      store host c.output output

def print (c : Configuration Location) : m Ending := do
  match ← host.readText c.input with
  | .error e => return .failed e
  | .ok source =>
    match Document.print? source with
    | none => giveUp host .invalidInput [notAProgram c.input]
    | some text => do
      host.say text
      return .finished

/-- Goes on with a configuration, or explains why there is none. -/
def orExplain (next : Configuration Location → m Ending) :
    Except Configuration.Problem (Configuration Location) → m Ending
  | .ok c => next c
  | .error problem => giveUp host .invalidInput [problem.message]

/-- Reads a file and forgets why it cannot be read. -/
def readText? (l : Location) : m (Option Text) := do
  let text ← host.readText l
  return text.toOption

/-- Goes on with the configuration of the working directory. -/
def configured (dir : Location) (next : Configuration Location → m Ending) : m Ending := do
  let found ← Configuration.search host.pathExists (readText? host) (.ofLocation dir)
  orExplain host next found

/-- Ends after a text. -/
def tell (text : Text) : m Ending := do
  host.say text
  return .finished

/-- Runs the command in a working directory. -/
def run (dir : Location) (args : List String) : m Ending :=
  match Action.ofArguments args with
  | .propagate true => tell host ("circuitc propagate: " ++ propagateHelp)
  | .propagate false => configured host dir (propagate host)
  | .print true => tell host ("circuitc print: " ++ printHelp)
  | .print false => configured host dir (print host)
  | .version => tell host versionText
  | .help => tell host usage

end

end Command

end ConstFold
