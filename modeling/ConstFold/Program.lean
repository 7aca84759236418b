import ConstFold.Expr
import ConstFold.Json.Basic

/-!
# Programs

Statements, functions and programs.  Functions and programs may carry extra fields, which mean nothing
here and travel along; the layout of an object remembers them and the order in which its fields stand.
-/

namespace ConstFold

inductive Stmt where
  /-- Announces a variable and does nothing. -/
  | declare (target : Variable)
  | define (target : Variable) (value : Expr)
  /-- Binds the results of one call. -/
  | defineMany (targets : List Variable) (call : CallList)
  | ret (values : List Expr)
  /-- Demands that two values are equal. -/
  | require (left right : Expr)
  | loop (index : Variable) (first last : Scalar) (body : List Stmt)

/-! ## Layouts -/

/-- A place in an object: one of its own fields, or an extra one with its value. -/
inductive Slot (φ : Type) where
  | own (field : φ)
  | extra (key : Text) (value : Json)

/-- The layout of an object with the given members, told by which of the keys are its own. -/
def Slot.layout {φ : Type} (own? : Text → Option φ) (members : List (Text × Json)) : List (Slot φ) :=
  members.map fun (key, value) =>
    match own? key with
    | some field => .own field
    | none => .extra key value

/-- The fields of a function. -/
inductive FuncField where
  | name
  | parameters
  | returnKinds
  | statements
deriving DecidableEq, Repr

namespace FuncField

def key : FuncField → Text
  | .name => "name"
  | .parameters => "parameters"
  | .returnKinds => "returnKinds"
  | .statements => "statements"

/-- The fields in the order in which a function lists them by itself. -/
def all : List FuncField := [.name, .parameters, .returnKinds, .statements]

def ofKey? (s : Text) : Option FuncField := all.find? (·.key == s)

end FuncField

/-- The fields of a program. -/
inductive ProgramField where
  | functions
deriving DecidableEq, Repr

namespace ProgramField

def key : ProgramField → Text
  | .functions => "functions"

def all : List ProgramField := [.functions]

def ofKey? (s : Text) : Option ProgramField := all.find? (·.key == s)

end ProgramField

structure Func where
  name : Text
  parameters : List Variable
  returnKinds : List Kind
  statements : List Stmt
  layout : List (Slot FuncField) := FuncField.all.map .own

structure Program where
  functions : List Func
  layout : List (Slot ProgramField) := ProgramField.all.map .own

/-!
## Texts

A statement is one line, a loop a line, its body two columns further in, and a closing line.  The texts of
functions end with a newline and stand one line apart.
-/

mutual

/-- The lines of a statement. -/
def Stmt.lines (level : Nat) : Stmt → List Text
  | .declare v => [indentation level ++ v.text ++ ";"]
  | .define v e => [indentation level ++ v.name ++ " = " ++ e.text ++ ";"]
  | .defineMany vs c =>
    [indentation level ++ commaList (vs.map Variable.name) ++ " = " ++ c.text ++ ";"]
  | .ret es => [indentation level ++ "return " ++ commaList (Expr.texts es) ++ ";"]
  | .require a b => [indentation level ++ "assert " ++ a.text ++ " == " ++ b.text ++ ";"]
  | .loop v first last body =>
    (indentation level ++ "for " ++ v.text ++ " in " ++ first.text ++ ".." ++ last.text ++ " do") ::
      Stmt.linesAll (level + 1) body ++ [indentation level ++ "endfor"]

def Stmt.linesAll (level : Nat) : List Stmt → List Text
  | [] => []
  | s :: rest => s.lines level ++ Stmt.linesAll level rest

end

def Stmt.text (level : Nat) (s : Stmt) : Text := joinLines (s.lines level)

def Func.text (f : Func) : Text :=
  let body := Text.intercalate "" ((Stmt.linesAll 1 f.statements).map (· ++ "\n"))
  "def " ++ f.name ++ "(" ++ commaList (f.parameters.map Variable.text) ++ ") -> (" ++
    commaList (f.returnKinds.map Kind.text) ++ ") \x7b\n" ++ body ++ "\x7d\n"

def Program.text (p : Program) : Text := joinLines (p.functions.map Func.text)

end ConstFold
