import ConstFold.Diagnostic
import ConstFold.Program

/-!
# Propagation

Variables with a known constant are replaced by it, operations on literals are carried out, and a choice
whose condition is known becomes the branch chosen.  A refused operation stays in the tree and is listed.
Of a choice, the branch not chosen lists nothing.

A function is read from top to bottom.  A definition whose value has become a literal of its variable's
kind is dropped and its variable known from there on; every other statement stays, with constants
propagated into its expressions.  A loop stops the compiler.  Functions know nothing of each other.
-/

namespace ConstFold

/-!
## Reports

A computation that lists diagnostics as it goes and may be stopped by a breach.  When it is stopped, the
diagnostics listed before stand.  `withheld` sets the diagnostics of a part aside: they are listed only if
someone lists them later, and lost if the part is stopped.
-/

structure Report (α : Type) where
  outcome : Except Breach α
  diagnostics : List Diagnostic

namespace Report

variable {α β : Type}

protected def pure (a : α) : Report α := ⟨.ok a, []⟩

protected def bind (r : Report α) (f : α → Report β) : Report β :=
  match r.outcome with
  | .ok a =>
    let next := f a
    ⟨next.outcome, r.diagnostics ++ next.diagnostics⟩
  | .error breach => ⟨.error breach, r.diagnostics⟩

instance : Monad Report where
  pure := Report.pure
  bind := Report.bind

/-- Stops. -/
def stop (breach : Breach) : Report α := ⟨.error breach, []⟩

/-- Lists diagnostics. -/
def list (diagnostics : List Diagnostic) : Report Unit := ⟨.ok (), diagnostics⟩

/-- A result with its diagnostics, which are not listed. -/
def withheld (r : Report α) : Report (α × List Diagnostic) :=
  ⟨r.outcome.map fun a => (a, r.diagnostics), []⟩

theorem pure_eq (a : α) : (pure a : Report α) = ⟨.ok a, []⟩ := rfl

theorem ok_bind (a : α) (l : List Diagnostic) (f : α → Report β) :
    (⟨.ok a, l⟩ : Report α) >>= f = ⟨(f a).outcome, l ++ (f a).diagnostics⟩ := rfl

theorem error_bind (b : Breach) (l : List Diagnostic) (f : α → Report β) :
    (⟨.error b, l⟩ : Report α) >>= f = ⟨.error b, l⟩ := rfl

theorem outcome_bind (r : Report α) (f : α → Report β) :
    (r >>= f).outcome = r.outcome.bind fun a => (f a).outcome := by
  obtain ⟨outcome, listed⟩ := r
  cases outcome <;> rfl

theorem withheld_ok (a : α) (l : List Diagnostic) :
    (⟨.ok a, l⟩ : Report α).withheld = ⟨.ok (a, l), []⟩ := rfl

theorem withheld_error (b : Breach) (l : List Diagnostic) :
    (⟨.error b, l⟩ : Report α).withheld = ⟨.error b, []⟩ := rfl

end Report

/-! ## Expressions -/

/-- The constants that variables are known to hold. -/
abbrev Constants := Table Literal

namespace Constants

def find? (constants : Constants) (v : Variable) : Option Literal := constants.get? v.key

def bind (constants : Constants) (v : Variable) (l : Literal) : Constants := constants.set v.key l

end Constants

/-- What propagation in an expression depends on. -/
structure Context where
  constants : Constants
  /-- The function that diagnostics name. -/
  function : Text
  /-- The largest exponent that a power of literals is computed with. -/
  maximumExponent : Int

namespace ArithOp

/-- The operation is a power beyond the limit. -/
def exceeds (op : ArithOp) (maximumExponent : Int) (b : Scalar) : Bool :=
  op == .pow && decide (maximumExponent < b.val)

/-- The result of an operation on two literals, unless it is refused. -/
def fold (op : ArithOp) (maximumExponent : Int) (a b : Scalar) : Except Fault (Except Refusal Scalar) :=
  if op.exceeds maximumExponent b then .ok (.error (.exponentOutOfBounds maximumExponent))
  else
    (op.perform a b).map fun
      | some v => .ok v
      | none => .error .divisionByZero

end ArithOp

namespace Context

def fieldIdent (c : Context) (name : Text) : Report FieldExpr :=
  match c.constants.find? ⟨name, .field⟩ with
  | none => pure (.ident name)
  | some (.field v) => pure (.number v)
  | some constant => .stop (.kindMismatch ⟨name, .field⟩ constant)

def boolIdent (c : Context) (name : Text) : Report BoolExpr :=
  match c.constants.find? ⟨name, .bool⟩ with
  | none => pure (.ident name)
  | some (.bool b) => pure (.value b)
  | some constant => .stop (.kindMismatch ⟨name, .bool⟩ constant)

/-- The operation on two operands, carried out if both are literals. -/
def binary (c : Context) (op : ArithOp) : FieldExpr → FieldExpr → Report FieldExpr
  | .number a, .number b =>
    match op.fold c.maximumExponent a b with
    | .ok (.ok v) => pure (.number v)
    | .ok (.error refusal) =>
      let node := FieldExpr.binary op (.number a) (.number b)
      do
        Report.list [⟨c.function, node, refusal⟩]
        return node
    | .error fault => .stop (.fault fault)
  | a, b => pure (.binary op a b)

end Context

/-- The comparison of two operands, carried out if both are literals. -/
def CompareOp.fold (op : CompareOp) : FieldExpr → FieldExpr → BoolExpr
  | .number a, .number b => .value (op.holds a b)
  | a, b => .comparison op a b

/-- The choice between two branches, each with its diagnostics.  A known condition keeps one branch and lists
that one's diagnostics only. -/
def BoolExpr.choose : BoolExpr → FieldExpr × List Diagnostic → FieldExpr × List Diagnostic → Report FieldExpr
  | .value true, a, _ => ⟨.ok a.1, a.2⟩
  | .value false, _, b => ⟨.ok b.1, b.2⟩
  | c, a, b => ⟨.ok (.ifElse c a.1 b.1), a.2 ++ b.2⟩

mutual

def FieldExpr.propagate (c : Context) : FieldExpr → Report FieldExpr
  | .number v => pure (.number v)
  | .ident x => c.fieldIdent x
  | .binary op a b => do
    let a ← a.propagate c
    let b ← b.propagate c
    c.binary op a b
  | .ifElse condition a b => do
    let condition ← condition.propagate c
    let a ← (a.propagate c).withheld
    let b ← (b.propagate c).withheld
    condition.choose a b
  | .call f args => do
    let args ← Expr.propagateAll c args
    return .call f args

def BoolExpr.propagate (c : Context) : BoolExpr → Report BoolExpr
  | .value b => pure (.value b)
  | .ident x => c.boolIdent x
  | .comparison op a b => do
    let a ← a.propagate c
    let b ← b.propagate c
    return op.fold a b

def Expr.propagate (c : Context) : Expr → Report Expr
  | .field e => do
    let e ← e.propagate c
    return .field e
  | .bool e => do
    let e ← e.propagate c
    return .bool e

def Expr.propagateAll (c : Context) : List Expr → Report (List Expr)
  | [] => pure []
  | e :: es => do
    let e ← e.propagate c
    let es ← Expr.propagateAll c es
    return e :: es

end

def CallList.propagate (c : Context) (l : CallList) : Report CallList := do
  let args ← Expr.propagateAll c l.args
  return { l with args }

/-! ## Statements, functions and programs -/

/-- The largest exponent computed with if nothing else is said. -/
def defaultMaximumExponent : Int := 4294967295

/-- What stays the same throughout a function. -/
structure FunctionScope where
  /-- The function's own name. -/
  name : Text
  /-- The name that diagnostics give the function. -/
  reportedAs : Text
  maximumExponent : Int

def FunctionScope.context (scope : FunctionScope) (constants : Constants) : Context :=
  ⟨constants, scope.reportedAs, scope.maximumExponent⟩

/-- The literal that a definition of the variable makes known. -/
def Variable.known? (v : Variable) (e : Expr) : Option Literal :=
  e.literal?.filter fun l => l.kind = v.kind

/-- What becomes of a statement, and the constants known after it. -/
def Stmt.propagate (scope : FunctionScope) (constants : Constants) :
    Stmt → Report (Option Stmt × Constants)
  | .declare v => pure (some (.declare v), constants)
  | .define v e => do
    let e ← e.propagate (scope.context constants)
    match v.known? e with
    | some l => return (none, constants.bind v l)
    | none => return (some (.define v e), constants)
  | .defineMany vs l => do
    let l ← l.propagate (scope.context constants)
    return (some (.defineMany vs l), constants)
  | .ret es => do
    let es ← Expr.propagateAll (scope.context constants) es
    return (some (.ret es), constants)
  | .require a b => do
    let a ← a.propagate (scope.context constants)
    let b ← b.propagate (scope.context constants)
    return (some (.require a b), constants)
  | .loop index _ _ _ => .stop (.loop index scope.name)

def Stmt.propagateAll (scope : FunctionScope) : Constants → List Stmt → Report (List Stmt)
  | _, [] => pure []
  | constants, s :: rest => do
    let (s?, constants) ← s.propagate scope constants
    let rest ← Stmt.propagateAll scope constants rest
    return s?.toList ++ rest

/-- Propagation in a function whose diagnostics name it `reportedAs`. -/
def Func.propagate (reportedAs : Text) (maximumExponent : Int) (f : Func) : Report Func := do
  let statements ← Stmt.propagateAll ⟨f.name, reportedAs, maximumExponent⟩ .empty f.statements
  return { f with statements }

def Func.propagateAll (maximumExponent : Int) : List Func → Report (List Func)
  | [] => pure []
  | f :: fs => do
    let f ← f.propagate f.name maximumExponent
    let fs ← Func.propagateAll maximumExponent fs
    return f :: fs

/-- What becomes of a program without breaches. -/
inductive Verdict where
  | accepted (program : Program)
  | rejected (errors : List Diagnostic)

/-- A program is rejected for a single error. -/
def Verdict.of (p : Program) (errors : List Diagnostic) : Verdict :=
  if errors.isEmpty then .accepted p else .rejected errors

def Program.propagate (maximumExponent : Int) (p : Program) : Except Breach Verdict :=
  let report := Func.propagateAll maximumExponent p.functions
  report.outcome.map fun functions => .of { p with functions } report.diagnostics

end ConstFold
