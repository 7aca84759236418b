import ConstFold.Proofs.Constants
import ConstFold.Propagation

/-!
# Propagation as a fold

With constants that are all of their variables' kinds, propagation in an expression is never stopped.  Its
result is then a plain function of the tree and of the store of what is known (`FieldExpr.fold`), and what it
lists can be read off the result: the diagnostics of the nodes that are refused there, in post-order
(`FieldExpr.propagate_eq`).  The constants that a function collects are of that sort, so without loops the
same is true of statements, functions and programs (`Stmt.propagate_eq`, `Func.propagate_eq`,
`Program.propagate_eq`).
-/

namespace ConstFold

/-! ## Refused nodes -/

/-- Why a node is refused: it divides a literal by zero or raises one beyond the limit. -/
def FieldExpr.refusal? (m : Int) : FieldExpr → Option Refusal
  | .binary .div (.number _) (.number b) => if b.val = 0 then some .divisionByZero else none
  | .binary .pow (.number _) (.number b) => if m < b.val then some (.exponentOutOfBounds m) else none
  | _ => none

mutual

/-- The diagnostics of the refused nodes of an expression, from left to right in post-order. -/
def FieldExpr.diagnose (function : Text) (m : Int) : FieldExpr → List Diagnostic
  | .number _ => []
  | .ident _ => []
  | .binary op a b =>
    a.diagnose function m ++ b.diagnose function m ++
      ((FieldExpr.binary op a b).refusal? m).toList.map fun r => ⟨function, .binary op a b, r⟩
  | .ifElse c a b => c.diagnose function m ++ a.diagnose function m ++ b.diagnose function m
  | .call _ args => Expr.diagnoseAll function m args

def BoolExpr.diagnose (function : Text) (m : Int) : BoolExpr → List Diagnostic
  | .value _ => []
  | .ident _ => []
  | .comparison _ a b => a.diagnose function m ++ b.diagnose function m

def Expr.diagnose (function : Text) (m : Int) : Expr → List Diagnostic
  | .field e => e.diagnose function m
  | .bool e => e.diagnose function m

def Expr.diagnoseAll (function : Text) (m : Int) : List Expr → List Diagnostic
  | [] => []
  | e :: es => e.diagnose function m ++ Expr.diagnoseAll function m es

end

mutual

def Stmt.diagnose (function : Text) (m : Int) : Stmt → List Diagnostic
  | .declare _ => []
  | .define _ e => e.diagnose function m
  | .defineMany _ l => Expr.diagnoseAll function m l.args
  | .ret es => Expr.diagnoseAll function m es
  | .require a b => a.diagnose function m ++ b.diagnose function m
  | .loop _ _ _ body => Stmt.diagnoseAll function m body

def Stmt.diagnoseAll (function : Text) (m : Int) : List Stmt → List Diagnostic
  | [] => []
  | s :: rest => s.diagnose function m ++ Stmt.diagnoseAll function m rest

end

/-- The diagnostics of a function, under a name that need not be its own. -/
def Func.diagnose (function : Text) (m : Int) (f : Func) : List Diagnostic :=
  Stmt.diagnoseAll function m f.statements

/-! ## Folds -/

/-- The operation on two operands, carried out on literals unless it is refused. -/
def ArithOp.rebuild (m : Int) (op : ArithOp) : FieldExpr → FieldExpr → FieldExpr
  | .number a, .number b =>
    match op.fold m a b with
    | .ok (.ok v) => .number v
    | _ => .binary op (.number a) (.number b)
  | a, b => .binary op a b

/-- The choice between two branches, made if the condition is known. -/
def BoolExpr.select : BoolExpr → FieldExpr → FieldExpr → FieldExpr
  | .value true, a, _ => a
  | .value false, _, b => b
  | c, a, b => .ifElse c a b

mutual

/-- What propagation makes of an expression where `κ` is known. -/
def FieldExpr.fold (m : Int) (κ : Store) : FieldExpr → FieldExpr
  | .number v => .number v
  | .ident x => ((κ.field x).map .number).getD (.ident x)
  | .binary op a b => op.rebuild m (a.fold m κ) (b.fold m κ)
  | .ifElse c a b => (c.fold m κ).select (a.fold m κ) (b.fold m κ)
  | .call f args => .call f (Expr.foldAll m κ args)

def BoolExpr.fold (m : Int) (κ : Store) : BoolExpr → BoolExpr
  | .value b => .value b
  | .ident x => ((κ.bool x).map .value).getD (.ident x)
  | .comparison op a b => op.fold (a.fold m κ) (b.fold m κ)

def Expr.fold (m : Int) (κ : Store) : Expr → Expr
  | .field e => .field (e.fold m κ)
  | .bool e => .bool (e.fold m κ)

def Expr.foldAll (m : Int) (κ : Store) : List Expr → List Expr
  | [] => []
  | e :: es => e.fold m κ :: Expr.foldAll m κ es

end

def CallList.fold (m : Int) (κ : Store) (l : CallList) : CallList :=
  { l with args := Expr.foldAll m κ l.args }

/-- What becomes of a statement, if it stays.  A loop is not folded at all. -/
def Stmt.fold (m : Int) (k : Constants) : Stmt → Option Stmt
  | .declare v => some (.declare v)
  | .define v e =>
    match v.known? (e.fold m k.known) with
    | some _ => none
    | none => some (.define v (e.fold m k.known))
  | .defineMany vs l => some (.defineMany vs (l.fold m k.known))
  | .ret es => some (.ret (Expr.foldAll m k.known es))
  | .require a b => some (.require (a.fold m k.known) (b.fold m k.known))
  | .loop index first last body => some (.loop index first last body)

/-- The constants known after a statement. -/
def Stmt.learn (m : Int) (k : Constants) : Stmt → Constants
  | .define v e =>
    match v.known? (e.fold m k.known) with
    | some l => k.bind v l
    | none => k
  | _ => k

def Stmt.foldAll (m : Int) : Constants → List Stmt → List Stmt
  | _, [] => []
  | k, s :: rest => (s.fold m k).toList ++ Stmt.foldAll m (s.learn m k) rest

def Func.fold (m : Int) (f : Func) : Func := { f with statements := Stmt.foldAll m .empty f.statements }

def Program.fold (m : Int) (p : Program) : Program := { p with functions := p.functions.map (Func.fold m) }

/-! ## Loops -/

def Stmt.isLoop : Stmt → Bool
  | .loop .. => true
  | _ => false

def Func.LoopFree (f : Func) : Prop := ∀ s ∈ f.statements, s.isLoop = false

def Program.LoopFree (p : Program) : Prop := ∀ f ∈ p.functions, f.LoopFree

instance (f : Func) : Decidable f.LoopFree :=
  inferInstanceAs (Decidable (∀ s ∈ f.statements, s.isLoop = false))

instance (p : Program) : Decidable p.LoopFree :=
  inferInstanceAs (Decidable (∀ f ∈ p.functions, f.LoopFree))

/-! ## Nodes -/

theorem ArithOp.result?_div (a b : Scalar) :
    ArithOp.div.result? a b = if b.isZero then none else some (a * b ^ (modulus - 2)) := by
  rw [result?, perform, Scalar.divide_eq, Except.toOption, Option.join_some]

/-- An operation on literals is refused exactly if its node is, and never ends in a fault. -/
theorem ArithOp.fold_eq (m : Int) (op : ArithOp) (a b : Scalar) :
    (∃ v, op.fold m a b = .ok (.ok v) ∧ op.result? a b = some v ∧
      (FieldExpr.binary op (.number a) (.number b)).refusal? m = none) ∨
    ∃ r, op.fold m a b = .ok (.error r) ∧
      (FieldExpr.binary op (.number a) (.number b)).refusal? m = some r := by
  rw [fold, perform_eq]
  cases op with
  | add => exact .inl ⟨_, rfl, rfl, rfl⟩
  | sub => exact .inl ⟨_, rfl, rfl, rfl⟩
  | mul => exact .inl ⟨_, rfl, rfl, rfl⟩
  | div =>
    rw [result?_div]
    by_cases hb : b.val = 0
    · exact .inr ⟨.divisionByZero, by simp [exceeds, Scalar.isZero, hb, Except.map], by simp [FieldExpr.refusal?, hb]⟩
    · exact .inl ⟨a * b ^ (modulus - 2), by simp [exceeds, Scalar.isZero, hb, Except.map],
        by simp [Scalar.isZero, hb], by simp [FieldExpr.refusal?, hb]⟩
  | pow =>
    by_cases h : m < b.val
    · exact .inr ⟨.exponentOutOfBounds m, by simp [exceeds, h], by simp [FieldExpr.refusal?, h]⟩
    · have hresult : ArithOp.pow.result? a b = some (a ^ b.val) := rfl
      exact .inl ⟨a ^ b.val, by simp [exceeds, h, Except.map, hresult], hresult, by simp [FieldExpr.refusal?, h]⟩

/-- Two operands are both literals, or they are not. -/
theorem FieldExpr.numbers_or_not (a b : FieldExpr) :
    (∃ x y, a = .number x ∧ b = .number y) ∨ ∀ x y, ¬ (a = .number x ∧ b = .number y) := by
  by_cases h : ∃ x y, a = .number x ∧ b = .number y
  · exact .inl h
  · exact .inr fun x y hxy => h ⟨x, y, hxy⟩

/-- Two operands of which one at least is no literal stay under their operator. -/
theorem ArithOp.rebuild_of_not_number (m : Int) (op : ArithOp) {a b : FieldExpr}
    (h : ∀ x y, ¬ (a = .number x ∧ b = .number y)) :
    op.rebuild m a b = .binary op a b ∧ (FieldExpr.binary op a b).refusal? m = none := by
  constructor
  · unfold rebuild
    split
    · rename_i x y
      exact absurd ⟨rfl, rfl⟩ (h x y)
    · rfl
  · unfold FieldExpr.refusal?
    split
    · rename_i x y he
      cases he
      exact absurd ⟨rfl, rfl⟩ (h x y)
    · rename_i x y he
      cases he
      exact absurd ⟨rfl, rfl⟩ (h x y)
    · rfl

/-- And they are not compared. -/
theorem CompareOp.fold_of_not_number (op : CompareOp) {a b : FieldExpr}
    (h : ∀ x y, ¬ (a = .number x ∧ b = .number y)) : op.fold a b = .comparison op a b := by
  unfold fold
  split
  · rename_i x y
    exact absurd ⟨rfl, rfl⟩ (h x y)
  · rfl

namespace Context

variable {c : Context}

theorem binary_of_not_number (op : ArithOp) {a b : FieldExpr} (h : ∀ x y, ¬ (a = .number x ∧ b = .number y)) :
    c.binary op a b = pure (.binary op a b) := by
  unfold binary
  split
  · rename_i x y
    exact absurd ⟨rfl, rfl⟩ (h x y)
  · rfl

theorem binary_eq (op : ArithOp) (a b : FieldExpr) :
    ∃ l, c.binary op a b = ⟨.ok (op.rebuild c.maximumExponent a b), l⟩ ∧
      (op.rebuild c.maximumExponent a b).diagnose c.function c.maximumExponent =
        a.diagnose c.function c.maximumExponent ++ b.diagnose c.function c.maximumExponent ++ l := by
  rcases FieldExpr.numbers_or_not a b with ⟨x, y, rfl, rfl⟩ | hn
  · rcases op.fold_eq c.maximumExponent x y with ⟨v, hf, -, hr⟩ | ⟨r, hf, hr⟩
    · refine ⟨[], ?_, ?_⟩
      · simp [binary, hf, ArithOp.rebuild, Report.pure_eq]
      · simp [hf, ArithOp.rebuild, FieldExpr.diagnose]
    · refine ⟨[⟨c.function, .binary op (.number x) (.number y), r⟩], ?_, ?_⟩
      · simp [binary, hf, ArithOp.rebuild, Report.list, Report.ok_bind, Report.pure_eq]
      · simp [hf, ArithOp.rebuild, FieldExpr.diagnose, hr]
  · obtain ⟨he, hr⟩ := op.rebuild_of_not_number c.maximumExponent hn
    refine ⟨[], ?_, ?_⟩
    · rw [he, binary_of_not_number op hn]
      rfl
    · simp [he, FieldExpr.diagnose, hr]

end Context

theorem BoolExpr.choose_eq (function : Text) (m : Int) (c : BoolExpr) (a b : FieldExpr) :
    ∃ l, c.choose (a, a.diagnose function m) (b, b.diagnose function m) = ⟨.ok (c.select a b), l⟩ ∧
      (c.select a b).diagnose function m = c.diagnose function m ++ l := by
  cases c with
  | value known => cases known <;> exact ⟨_, rfl, by simp [select, diagnose]⟩
  | ident x => exact ⟨_, rfl, by simp [select, FieldExpr.diagnose]⟩
  | comparison op x y => exact ⟨_, rfl, by simp [select, FieldExpr.diagnose]⟩

theorem CompareOp.diagnose_fold (function : Text) (m : Int) (op : CompareOp) (a b : FieldExpr) :
    (op.fold a b).diagnose function m = a.diagnose function m ++ b.diagnose function m := by
  unfold fold
  split
  · simp [BoolExpr.diagnose, FieldExpr.diagnose]
  · simp [BoolExpr.diagnose]

/-! ## Expressions -/

theorem Context.fieldIdent_eq {c : Context} (hc : c.constants.WellKinded) (x : Text) :
    c.fieldIdent x = ⟨.ok ((c.constants.known.field x).map .number |>.getD (.ident x)), []⟩ := by
  cases h : c.constants.find? ⟨x, .field⟩ with
  | none => simp [fieldIdent, Constants.known, h, Report.pure_eq]
  | some l =>
    have hl := hc _ _ h
    cases l with
    | field v => simp [fieldIdent, Constants.known, h, Report.pure_eq]
    | bool b => cases hl

theorem Context.boolIdent_eq {c : Context} (hc : c.constants.WellKinded) (x : Text) :
    c.boolIdent x = ⟨.ok ((c.constants.known.bool x).map .value |>.getD (.ident x)), []⟩ := by
  cases h : c.constants.find? ⟨x, .bool⟩ with
  | none => simp [boolIdent, Constants.known, h, Report.pure_eq]
  | some l =>
    have hl := hc _ _ h
    cases l with
    | field v => cases hl
    | bool b => simp [boolIdent, Constants.known, h, Report.pure_eq]

mutual

/-- Propagation gives the fold, and lists what is refused in it. -/
theorem FieldExpr.propagate_eq {c : Context} (hc : c.constants.WellKinded) : ∀ e : FieldExpr,
    e.propagate c = ⟨.ok (e.fold c.maximumExponent c.constants.known),
      (e.fold c.maximumExponent c.constants.known).diagnose c.function c.maximumExponent⟩
  | .number v => rfl
  | .ident x => by
    rw [FieldExpr.propagate, Context.fieldIdent_eq hc, FieldExpr.fold]
    cases c.constants.known.field x <;> rfl
  | .binary op a b => by
    rw [FieldExpr.propagate, FieldExpr.propagate_eq hc a, FieldExpr.propagate_eq hc b, FieldExpr.fold]
    obtain ⟨l, hl, hd⟩ := Context.binary_eq (c := c) op (a.fold c.maximumExponent c.constants.known)
      (b.fold c.maximumExponent c.constants.known)
    simp only [Report.ok_bind, hl, hd, List.append_assoc]
  | .ifElse condition a b => by
    rw [FieldExpr.propagate, BoolExpr.propagate_eq hc condition, FieldExpr.propagate_eq hc a,
      FieldExpr.propagate_eq hc b, FieldExpr.fold]
    obtain ⟨l, hl, hd⟩ := BoolExpr.choose_eq c.function c.maximumExponent
      (condition.fold c.maximumExponent c.constants.known) (a.fold c.maximumExponent c.constants.known)
      (b.fold c.maximumExponent c.constants.known)
    simp only [Report.ok_bind, Report.withheld_ok, hl, hd, List.nil_append]
  | .call f args => by
    rw [FieldExpr.propagate, Expr.propagateAll_eq hc args, FieldExpr.fold]
    simp [Report.ok_bind, Report.pure_eq, FieldExpr.diagnose]

theorem BoolExpr.propagate_eq {c : Context} (hc : c.constants.WellKinded) : ∀ e : BoolExpr,
    e.propagate c = ⟨.ok (e.fold c.maximumExponent c.constants.known),
      (e.fold c.maximumExponent c.constants.known).diagnose c.function c.maximumExponent⟩
  | .value b => rfl
  | .ident x => by
    rw [BoolExpr.propagate, Context.boolIdent_eq hc, BoolExpr.fold]
    cases c.constants.known.bool x <;> rfl
  | .comparison op a b => by
    rw [BoolExpr.propagate, FieldExpr.propagate_eq hc a, FieldExpr.propagate_eq hc b, BoolExpr.fold,
      CompareOp.diagnose_fold]
    simp [Report.ok_bind, Report.pure_eq]

theorem Expr.propagate_eq {c : Context} (hc : c.constants.WellKinded) : ∀ e : Expr,
    e.propagate c = ⟨.ok (e.fold c.maximumExponent c.constants.known),
      (e.fold c.maximumExponent c.constants.known).diagnose c.function c.maximumExponent⟩
  | .field e => by
    rw [Expr.propagate, FieldExpr.propagate_eq hc e, Expr.fold]
    simp [Report.ok_bind, Report.pure_eq, Expr.diagnose]
  | .bool e => by
    rw [Expr.propagate, BoolExpr.propagate_eq hc e, Expr.fold]
    simp [Report.ok_bind, Report.pure_eq, Expr.diagnose]

theorem Expr.propagateAll_eq {c : Context} (hc : c.constants.WellKinded) : ∀ es : List Expr,
    Expr.propagateAll c es = ⟨.ok (Expr.foldAll c.maximumExponent c.constants.known es),
      Expr.diagnoseAll c.function c.maximumExponent (Expr.foldAll c.maximumExponent c.constants.known es)⟩
  | [] => rfl
  | e :: es => by
    rw [Expr.propagateAll, Expr.propagate_eq hc e, Expr.propagateAll_eq hc es, Expr.foldAll]
    simp [Report.ok_bind, Report.pure_eq, Expr.diagnoseAll]

end

/-! ## Statements, functions and programs -/

theorem Variable.kind_of_known? {v : Variable} {e : Expr} {l : Literal} (h : v.known? e = some l) :
    l.kind = v.kind := by
  unfold known? at h
  simpa using (Option.filter_eq_some_iff.1 h).2

theorem Expr.diagnose_of_known? {v : Variable} {e : Expr} {l : Literal} (h : v.known? e = some l)
    (function : Text) (m : Int) : e.diagnose function m = [] := by
  have hl := (Option.filter_eq_some_iff.1 h).1
  unfold Expr.literal? at hl
  split at hl
  · rfl
  · rfl
  · cases hl

theorem Stmt.wellKinded_learn (m : Int) {k : Constants} (hk : k.WellKinded) (s : Stmt) :
    (s.learn m k).WellKinded := by
  unfold learn
  split
  · split
    · rename_i h
      exact hk.bind (Variable.kind_of_known? h)
    · exact hk
  · exact hk

/-- What becomes of a statement other than a loop. -/
theorem Stmt.propagate_eq (scope : FunctionScope) {k : Constants} (hk : k.WellKinded) {s : Stmt}
    (hs : s.isLoop = false) :
    s.propagate scope k = ⟨.ok (s.fold scope.maximumExponent k, s.learn scope.maximumExponent k),
      Stmt.diagnoseAll scope.reportedAs scope.maximumExponent (s.fold scope.maximumExponent k).toList⟩ := by
  have hc : (scope.context k).constants.WellKinded := hk
  cases s with
  | declare v => rfl
  | define v e =>
    rw [propagate, Expr.propagate_eq hc]
    simp only [Report.ok_bind, FunctionScope.context, fold, learn]
    cases h : v.known? (e.fold scope.maximumExponent k.known) with
    | none => simp [Report.pure_eq, diagnoseAll, diagnose]
    | some l => simp [Report.pure_eq, diagnoseAll, Expr.diagnose_of_known? h]
  | defineMany vs l =>
    rw [propagate, CallList.propagate, Expr.propagateAll_eq hc]
    simp [Report.ok_bind, Report.pure_eq, fold, learn, diagnoseAll, diagnose, CallList.fold,
      FunctionScope.context]
  | ret es =>
    rw [propagate, Expr.propagateAll_eq hc]
    simp [Report.ok_bind, Report.pure_eq, fold, learn, diagnoseAll, diagnose, FunctionScope.context]
  | require a b =>
    rw [propagate, Expr.propagate_eq hc, Expr.propagate_eq hc]
    simp [Report.ok_bind, Report.pure_eq, fold, learn, diagnoseAll, diagnose, FunctionScope.context]
  | loop index first last body => cases hs

theorem Stmt.diagnoseAll_append (function : Text) (m : Int) (xs ys : List Stmt) :
    Stmt.diagnoseAll function m (xs ++ ys) = Stmt.diagnoseAll function m xs ++ Stmt.diagnoseAll function m ys := by
  induction xs with
  | nil => rfl
  | cons s xs ih => simp [diagnoseAll, ih]

theorem Stmt.propagateAll_eq (scope : FunctionScope) {k : Constants} (hk : k.WellKinded) {body : List Stmt}
    (hb : ∀ s ∈ body, s.isLoop = false) :
    Stmt.propagateAll scope k body = ⟨.ok (Stmt.foldAll scope.maximumExponent k body),
      Stmt.diagnoseAll scope.reportedAs scope.maximumExponent (Stmt.foldAll scope.maximumExponent k body)⟩ := by
  induction body generalizing k with
  | nil => rfl
  | cons s rest ih =>
    have hs := hb s List.mem_cons_self
    have hrest := ih (Stmt.wellKinded_learn scope.maximumExponent hk s)
      (fun t ht => hb t (List.mem_cons_of_mem _ ht))
    rw [propagateAll, Stmt.propagate_eq scope hk hs]
    simp only [Report.ok_bind, hrest, Report.pure_eq, foldAll, Stmt.diagnoseAll_append, List.append_nil]

theorem Func.propagate_eq (name : Text) (m : Int) {f : Func} (hf : f.LoopFree) :
    f.propagate name m = ⟨.ok (f.fold m), (f.fold m).diagnose name m⟩ := by
  rw [propagate, Stmt.propagateAll_eq _ Constants.wellKinded_empty hf]
  simp [Report.ok_bind, Report.pure_eq, fold, diagnose]

theorem Func.propagateAll_eq (m : Int) {fs : List Func} (hfs : ∀ f ∈ fs, f.LoopFree) :
    Func.propagateAll m fs = ⟨.ok (fs.map (Func.fold m)),
      (fs.map (Func.fold m)).flatMap fun f => f.diagnose f.name m⟩ := by
  induction fs with
  | nil => rfl
  | cons f fs ih =>
    have hrest := ih (fun g hg => hfs g (List.mem_cons_of_mem _ hg))
    rw [propagateAll, Func.propagate_eq f.name m (hfs f List.mem_cons_self), hrest]
    simp [Report.ok_bind, Report.pure_eq, Func.fold]

/-- A program without loops is folded, and rejected if something is refused in the result. -/
theorem Program.propagate_eq (m : Int) {p : Program} (hp : p.LoopFree) :
    p.propagate m = .ok
      (if (p.fold m).functions.flatMap (fun f => f.diagnose f.name m) = [] then .accepted (p.fold m)
      else .rejected ((p.fold m).functions.flatMap fun f => f.diagnose f.name m)) := by
  unfold propagate
  rw [Func.propagateAll_eq m hp]
  simp [Except.map, fold, Verdict.of]

end ConstFold
