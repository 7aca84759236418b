import ConstFold.Program

/-!
# Run-time meaning of programs

A function starts from the values of its parameters and runs its statements from top to bottom until one
returns.  Operators take the values of all their operands, a choice only that of the branch chosen, and a
call runs a function declared before.  Whatever has no value fails all that needs it: a division by zero, a
variable that holds nothing, a demand that is not met, a call of an unknown function or one that fails.

Loops are unrolled before programs run, so a loop has no meaning here.
-/

namespace ConstFold

/-! ## Stores -/

/-- What variables hold.  Variables of different kinds do not meet, even under one name. -/
structure Store where
  field : Text → Option Scalar
  bool : Text → Option Bool

namespace Store

def empty : Store := ⟨fun _ => none, fun _ => none⟩

def get? (σ : Store) (v : Variable) : Option Literal :=
  match v.kind with
  | .field => (σ.field v.name).map .field
  | .bool => (σ.bool v.name).map .bool

/-- Binds a variable to a value, which must be of its kind. -/
def bind? (σ : Store) (v : Variable) (l : Literal) : Option Store :=
  match v.kind, l with
  | .field, .field a => some { σ with field := fun x => if x = v.name then some a else σ.field x }
  | .bool, .bool b => some { σ with bool := fun x => if x = v.name then some b else σ.bool x }
  | _, _ => none

/-- Binds as many variables as there are values, in order. -/
def bindAll? (σ : Store) : List Variable → List Literal → Option Store
  | [], [] => some σ
  | v :: vs, l :: ls => (σ.bind? v l).bind fun σ => bindAll? σ vs ls
  | _, _ => none

end Store

/-! ## Expressions -/

/-- What calls give: the results of a function on arguments. -/
abbrev Calls := Text → List Literal → Option (List Literal)

/-- The result of a call that stands for one scalar. -/
def Calls.scalar? (calls : Calls) (callee : Text) (args : List Literal) : Option Scalar :=
  match calls callee args with
  | some [.field a] => some a
  | _ => none

mutual

def FieldExpr.eval (calls : Calls) (σ : Store) : FieldExpr → Option Scalar
  | .number v => some v
  | .ident x => σ.field x
  | .binary op a b =>
    (a.eval calls σ).bind fun a => (b.eval calls σ).bind fun b => op.result? a b
  | .ifElse c a b =>
    (c.eval calls σ).bind fun c => if c then a.eval calls σ else b.eval calls σ
  | .call f args => (Expr.evalAll calls σ args).bind fun args => calls.scalar? f args

def BoolExpr.eval (calls : Calls) (σ : Store) : BoolExpr → Option Bool
  | .value b => some b
  | .ident x => σ.bool x
  | .comparison op a b =>
    (a.eval calls σ).bind fun a => (b.eval calls σ).bind fun b => some (op.holds a b)

def Expr.eval (calls : Calls) (σ : Store) : Expr → Option Literal
  | .field e => (e.eval calls σ).map .field
  | .bool e => (e.eval calls σ).map .bool

def Expr.evalAll (calls : Calls) (σ : Store) : List Expr → Option (List Literal)
  | [] => some []
  | e :: es => (e.eval calls σ).bind fun l => (Expr.evalAll calls σ es).map (l :: ·)

end

/-- The results of a call, which must be of the kinds announced. -/
def CallList.eval (calls : Calls) (σ : Store) (c : CallList) : Option (List Literal) :=
  (Expr.evalAll calls σ c.args).bind fun args =>
    (calls c.callee args).filter fun results => results.map Literal.kind = c.returnKinds

/-! ## Statements, functions and programs -/

/-- Where a run is after a statement: going on, or done with results. -/
inductive Flow where
  | next (σ : Store)
  | done (results : List Literal)

def Stmt.run (calls : Calls) (σ : Store) : Stmt → Option Flow
  | .declare _ => some (.next σ)
  | .define v e => ((e.eval calls σ).bind fun l => σ.bind? v l).map .next
  | .defineMany vs c => ((c.eval calls σ).bind fun ls => σ.bindAll? vs ls).map .next
  | .ret es => (Expr.evalAll calls σ es).map .done
  | .require a b =>
    (a.eval calls σ).bind fun x => (b.eval calls σ).bind fun y => if x = y then some (.next σ) else none
  | .loop .. => none

/-- The results of a body, which fails if no statement returns. -/
def Stmt.runAll (calls : Calls) : Store → List Stmt → Option (List Literal)
  | _, [] => none
  | σ, s :: rest =>
    (s.run calls σ).bind fun
      | .next σ => Stmt.runAll calls σ rest
      | .done results => some results

def Func.run (calls : Calls) (f : Func) (args : List Literal) : Option (List Literal) :=
  (Store.empty.bindAll? f.parameters args).bind fun σ => Stmt.runAll calls σ f.statements

/-- Calls of the functions of a list that has the latest one first.  Each may call those declared before it;
of two with one name the later one is called. -/
def Calls.ofReversed : List Func → Calls
  | [] => fun _ _ => none
  | f :: earlier => fun callee args =>
    if callee = f.name then f.run (Calls.ofReversed earlier) args else Calls.ofReversed earlier callee args

/-- The results of the function at a place in a program. -/
def Program.run (p : Program) (index : Nat) (args : List Literal) : Option (List Literal) :=
  p.functions[index]?.bind fun f => f.run (Calls.ofReversed (p.functions.take index).reverse) args

end ConstFold
