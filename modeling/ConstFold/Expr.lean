import ConstFold.Scalar
import ConstFold.Table

/-!
# Expressions

Expressions come in two kinds.  A field expression denotes a scalar, a boolean expression a truth value;
only the arguments of a call may be of either kind.  A variable is a name with a kind: `field x` and `bool x`
are two variables.
-/

namespace ConstFold

/-! ## Variables -/

/-- The kinds of values that expressions have. -/
inductive Kind where
  | field
  | bool
deriving DecidableEq, Repr

def Kind.text : Kind → Text
  | .field => "field"
  | .bool => "bool"

/-- The kind that a word names. -/
def Kind.ofText? (s : Text) : Option Kind := [Kind.field, .bool].find? (·.text == s)

structure Variable where
  name : Text
  kind : Kind
deriving DecidableEq, Repr

namespace Variable

def text (v : Variable) : Text := v.kind.text ++ " " ++ v.name

/-- What a variable is filed under.  No kind's text holds a colon, so the name may hold any. -/
def label (v : Variable) : Text := v.kind.text ++ ":" ++ v.name

def key (v : Variable) : Key := .text v.label

end Variable

/-- The table of values given to variables, of which later ones count. -/
def Table.ofVariables {α : Type} (bindings : List (Variable × α)) : Table α :=
  .ofList (bindings.map fun (v, a) => (v.key, a))

/-! ## Operators -/

inductive ArithOp where
  | add
  | sub
  | mul
  | div
  | pow
deriving DecidableEq, Repr

def ArithOp.symbol : ArithOp → Text
  | .add => "+"
  | .sub => "-"
  | .mul => "*"
  | .div => "/"
  | .pow => "**"

def ArithOp.ofSymbol? (s : Text) : Option ArithOp :=
  [ArithOp.add, .sub, .mul, .div, .pow].find? (·.symbol == s)

/-- What an operation comes to.  A division by zero has no result; a power takes the representative of its
right operand as exponent. -/
def ArithOp.perform : ArithOp → Scalar → Scalar → Except Fault (Option Scalar)
  | .add, a, b => .ok (some (a + b))
  | .sub, a, b => .ok (some (a - b))
  | .mul, a, b => .ok (some (a * b))
  | .div, a, b => a.divide b
  | .pow, a, b => (a.power b.val).map some

/-- The result of an operation, if it has one. -/
def ArithOp.result? (op : ArithOp) (a b : Scalar) : Option Scalar := (op.perform a b).toOption.join

/-- No exponent of an operation is negative. -/
theorem ArithOp.perform_eq (op : ArithOp) (a b : Scalar) : op.perform a b = .ok (op.result? a b) := by
  cases op with
  | div => rw [result?, perform, Scalar.divide_eq, Except.toOption, Option.join_some]
  | _ => rfl

inductive CompareOp where
  | eq
  | lt
  | le
  | gt
  | ge
deriving DecidableEq, Repr

def CompareOp.symbol : CompareOp → Text
  | .eq => "=="
  | .lt => "<"
  | .le => "<="
  | .gt => ">"
  | .ge => ">="

def CompareOp.ofSymbol? (s : Text) : Option CompareOp :=
  [CompareOp.eq, .lt, .le, .gt, .ge].find? (·.symbol == s)

/-- Comparisons compare representatives. -/
def CompareOp.holds : CompareOp → Scalar → Scalar → Bool
  | .eq, a, b => a == b
  | .lt, a, b => decide (a < b)
  | .le, a, b => decide (a ≤ b)
  | .gt, a, b => decide (b < a)
  | .ge, a, b => decide (b ≤ a)

/-! ## Trees -/

mutual

inductive FieldExpr where
  | number (value : Scalar)
  | ident (name : Text)
  | binary (op : ArithOp) (left right : FieldExpr)
  | ifElse (condition : BoolExpr) (consequence alternative : FieldExpr)
  | call (callee : Text) (args : List Expr)

inductive BoolExpr where
  | value (value : Bool)
  | ident (name : Text)
  | comparison (op : CompareOp) (left right : FieldExpr)

/-- An expression of either kind. -/
inductive Expr where
  | field (e : FieldExpr)
  | bool (e : BoolExpr)

end

def Expr.kind : Expr → Kind
  | .field _ => .field
  | .bool _ => .bool

/-- A call whose results are bound to several variables at once. -/
structure CallList where
  callee : Text
  args : List Expr
  returnKinds : List Kind

/-! ## Literals -/

/-- The expressions that denote a value by themselves. -/
inductive Literal where
  | field (value : Scalar)
  | bool (value : Bool)
deriving DecidableEq, Repr

namespace Literal

def kind : Literal → Kind
  | .field _ => .field
  | .bool _ => .bool

def toExpr : Literal → Expr
  | .field v => .field (.number v)
  | .bool b => .bool (.value b)

theorem toExpr_injective {l l' : Literal} (h : l.toExpr = l'.toExpr) : l = l' := by
  cases l <;> cases l' <;> cases h <;> rfl

end Literal

/-- The literal that an expression is. -/
def Expr.literal? : Expr → Option Literal
  | .field (.number v) => some (.field v)
  | .bool (.value b) => some (.bool b)
  | _ => none

/-!
## Texts

Every compound expression stands in brackets of its own, so the text shows the tree.
-/

mutual

def FieldExpr.text : FieldExpr → Text
  | .number v => v.text
  | .ident x => x
  | .binary op a b => "(" ++ a.text ++ " " ++ op.symbol ++ " " ++ b.text ++ ")"
  | .ifElse c a b => "(if " ++ c.text ++ " then " ++ a.text ++ " else " ++ b.text ++ " fi)"
  | .call f args => f ++ "(" ++ commaList (Expr.texts args) ++ ")"

def BoolExpr.text : BoolExpr → Text
  | .value b => if b then "true" else "false"
  | .ident x => x
  | .comparison op a b => "(" ++ a.text ++ " " ++ op.symbol ++ " " ++ b.text ++ ")"

def Expr.text : Expr → Text
  | .field e => e.text
  | .bool e => e.text

def Expr.texts : List Expr → List Text
  | [] => []
  | e :: es => e.text :: Expr.texts es

end

def CallList.text (c : CallList) : Text := c.callee ++ "(" ++ commaList (Expr.texts c.args) ++ ")"

def Literal.text (l : Literal) : Text := l.toExpr.text

end ConstFold
