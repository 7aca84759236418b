import ConstFold.Expr

/-!
# Diagnostics

What the compiler tells about a program.  An operation on two literals is refused if it divides by zero or raises
to a power beyond the limit; the refusal, the node that stays in the program because of it and the function
around it make a diagnostic.  A program that breaks a promise of the stages before this one stops the compiler,
and so would an operation called outside its domain.
-/

namespace ConstFold

/-! ## Compile errors -/

/-- Why an operation on two literals is not carried out. -/
inductive Refusal where
  | divisionByZero
  | exponentOutOfBounds (maximum : Int)
deriving DecidableEq, Repr

/-- The name of the class of errors that a refusal belongs to. -/
def Refusal.name : Refusal → Text
  | .divisionByZero => "DivisionByZero"
  | .exponentOutOfBounds _ => "ExponentOutOfBounds"

structure Diagnostic where
  function : Text
  node : FieldExpr
  refusal : Refusal

namespace Diagnostic

def reason (d : Diagnostic) : Text :=
  match d.refusal with
  | .divisionByZero => "Divisor of `" ++ d.node.text ++ "` is zero."
  | .exponentOutOfBounds maximum =>
    "Exponent of `" ++ d.node.text ++ "` exceeds the maximum exponent " ++ toString maximum ++ "."

def text (d : Diagnostic) : Text :=
  d.function ++ ": [" ++ d.refusal.name ++ "]: " ++ d.reason

end Diagnostic

/-! ## Internal errors -/

/-- What the stages before this one promise. -/
inductive Invariant where
  /-- No loop is left. -/
  | noLoopAfterUnrolling
  /-- A variable is bound to constants of its own kind only. -/
  | constantKindConsistency
deriving DecidableEq, Repr

def Invariant.name : Invariant → Text
  | .noLoopAfterUnrolling => "NoLoopAfterUnrolling"
  | .constantKindConsistency => "ConstantKindConsistency"

def Invariant.ofName? (s : Text) : Option Invariant :=
  [Invariant.noLoopAfterUnrolling, .constantKindConsistency].find? (·.name == s)

structure InternalError where
  invariant : Invariant
  detail : Text
deriving DecidableEq, Repr

def InternalError.message (e : InternalError) : Text :=
  "Internal compiler error [" ++ e.invariant.name ++ "]: " ++ e.detail

/-- What stops the compiler. -/
inductive Breach where
  /-- A loop is left in a function. -/
  | loop (index : Variable) (function : Text)
  /-- A variable is bound to a constant of the other kind. -/
  | kindMismatch (target : Variable) (constant : Literal)
  /-- An operation is called outside its domain. -/
  | fault (cause : Fault)
deriving DecidableEq, Repr

/-- How a broken promise is told; a fault is told by itself. -/
def Breach.toInternalError : Breach → Except Fault InternalError
  | .loop index function =>
    .ok ⟨.noLoopAfterUnrolling,
      "Loop over `" ++ index.text ++ "` in function `" ++ function ++ "` was not unrolled."⟩
  | .kindMismatch target constant =>
    .ok ⟨.constantKindConsistency,
      "`" ++ target.text ++ "` is bound to the " ++ constant.kind.text ++ " constant `" ++ constant.text ++ "`."⟩
  | .fault cause => .error cause

/-!
## Collectors

Errors of all functions end in one global list.  A function's collector passes them on at once; a pending
collector below another one keeps them until it is committed, and then hands them to that one, in order.
Collectors are numbered in the order of their creation.
-/

structure Collector where
  function : Text
  /-- The collector below which this one is pending. -/
  parent? : Option Nat
  /-- What waits for the next commit. -/
  waiting : List Diagnostic

structure Collectors where
  reported : List Diagnostic
  collectors : List Collector

namespace Collectors

def empty : Collectors := ⟨[], []⟩

/-- A new collector that passes its errors on at once. -/
def addFunction (s : Collectors) (function : Text) : Collectors :=
  { s with collectors := s.collectors ++ [⟨function, none, []⟩] }

/-- A new pending collector below another one, for the same function. -/
def addPending (s : Collectors) (parent : Nat) : Collectors :=
  match s.collectors[parent]? with
  | some p => { s with collectors := s.collectors ++ [⟨p.function, some parent, []⟩] }
  | none => s

/-- Gives errors to a collector, in order. -/
def deliver (s : Collectors) (target : Nat) (errors : List Diagnostic) : Collectors :=
  match s.collectors[target]? with
  | some c =>
    match c.parent? with
    | some _ =>
      { s with collectors := s.collectors.set target { c with waiting := c.waiting ++ errors } }
    | none => { s with reported := s.reported ++ errors }
  | none => s

def report (s : Collectors) (target : Nat) (error : Diagnostic) : Collectors :=
  s.deliver target [error]

/-- Reports an error of the collector's own function. -/
def refuse (s : Collectors) (target : Nat) (node : FieldExpr) (refusal : Refusal) : Collectors :=
  match s.collectors[target]? with
  | some c => s.report target ⟨c.function, node, refusal⟩
  | none => s

/-- Hands what waits at a pending collector to the one it is below. -/
def commit (s : Collectors) (target : Nat) : Collectors :=
  match s.collectors[target]? with
  | some ⟨function, some parent, waiting⟩ =>
    { s with collectors := s.collectors.set target ⟨function, some parent, []⟩ }.deliver parent waiting
  | _ => s

end Collectors

end ConstFold
