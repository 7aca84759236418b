import ConstFold.Proofs.Diagnostics
import ConstFold.Proofs.Staging
import ConstFold.Proofs.Trace

/-!
# What propagation leaves

The nodes of a statement are the expressions in it at any depth (`Stmt.nodes`).  At a node that propagation
leaves there is nothing more to do: a known variable has been replaced, an operation on literals is there only
because it is refused, and no choice has a known condition (`Expr.inert_fold`).

A variable that has once become known stays known to the end of the function (`Stmt.known_of_mem_trace`).  So
no statement that is kept reads a variable of which a definition was dropped before, wherever in the statement
it may stand (`Stmt.pairwise_unread`).
-/

namespace ConstFold

/-! ## Nodes -/

mutual

/-- The nodes of an expression, itself among them, from left to right in post-order. -/
def FieldExpr.nodes : FieldExpr → List Expr
  | .number v => [.field (.number v)]
  | .ident x => [.field (.ident x)]
  | .binary op a b => a.nodes ++ b.nodes ++ [.field (.binary op a b)]
  | .ifElse c a b => c.nodes ++ a.nodes ++ b.nodes ++ [.field (.ifElse c a b)]
  | .call f args => Expr.nodesAll args ++ [.field (.call f args)]

def BoolExpr.nodes : BoolExpr → List Expr
  | .value b => [.bool (.value b)]
  | .ident x => [.bool (.ident x)]
  | .comparison op a b => a.nodes ++ b.nodes ++ [.bool (.comparison op a b)]

def Expr.nodes : Expr → List Expr
  | .field e => e.nodes
  | .bool e => e.nodes

def Expr.nodesAll : List Expr → List Expr
  | [] => []
  | e :: es => e.nodes ++ Expr.nodesAll es

end

mutual

def Stmt.nodes : Stmt → List Expr
  | .declare _ => []
  | .define _ e => e.nodes
  | .defineMany _ l => Expr.nodesAll l.args
  | .ret es => Expr.nodesAll es
  | .require a b => a.nodes ++ b.nodes
  | .loop _ _ _ body => Stmt.nodesAll body

def Stmt.nodesAll : List Stmt → List Expr
  | [] => []
  | s :: rest => s.nodes ++ Stmt.nodesAll rest

end

/-- The expression that reads a variable. -/
def Variable.toExpr (v : Variable) : Expr :=
  match v.kind with
  | .field => .field (.ident v.name)
  | .bool => .bool (.ident v.name)

/-- A statement at none of whose nodes anything is left to do. -/
structure Stmt.Normal (m : Int) (s : Stmt) : Prop where
  comparison : ∀ op a b, .bool (.comparison op (.number a) (.number b)) ∉ s.nodes
  /-- An operation on two literals is a division by zero or a power beyond the limit. -/
  operation : ∀ op a b, .field (.binary op (.number a) (.number b)) ∈ s.nodes →
    op = .div ∧ b = 0 ∨ op = .pow ∧ m < b.val
  choice : ∀ known a b, .field (.ifElse (.value known) a b) ∉ s.nodes
  definition : ∀ v l, s = .define v (Literal.toExpr l) → l.kind ≠ v.kind

/-- What is kept of the second statement reads nothing that the first one bound before it was dropped. -/
def Passage.Unread (p q : Passage) : Prop :=
  p.kept = none → ∀ v ∈ p.source.targets, ∀ s, q.kept = some s → v.toExpr ∉ s.nodes

/-- How propagation passes through a function whose diagnostics name it `reportedAs`. -/
def Func.passages (reportedAs : Text) (m : Int) (f : Func) : List Passage :=
  Stmt.trace ⟨f.name, reportedAs, m⟩ .empty f.statements

/-! ## Expressions -/

/-- Nothing can be done at the node itself where `κ` is known. -/
def Expr.Inert (m : Int) (κ : Store) : Expr → Prop
  | .field (.ident x) => κ.field x = none
  | .field (.binary op (.number a) (.number b)) =>
    ((FieldExpr.binary op (.number a) (.number b)).refusal? m).isSome
  | .field (.ifElse (.value _) _ _) => False
  | .bool (.ident x) => κ.bool x = none
  | .bool (.comparison _ (.number _) (.number _)) => False
  | _ => True

section

variable {m : Int} {κ : Store}

theorem Variable.inert_toExpr_iff (v : Variable) : v.toExpr.Inert m κ ↔ κ.get? v = none := by
  obtain ⟨x, kind⟩ := v
  cases kind <;> simp [toExpr, Expr.Inert, Store.get?]

/-- Operations and comparisons are inert if one of their operands is no literal. -/
theorem Expr.inert_of_not_number {a b : FieldExpr} (h : ∀ x y, ¬ (a = .number x ∧ b = .number y)) :
    (∀ op, (Expr.field (.binary op a b)).Inert m κ) ∧ ∀ op, (Expr.bool (.comparison op a b)).Inert m κ := by
  cases a with
  | number x =>
    cases b with
    | number y => exact absurd ⟨rfl, rfl⟩ (h x y)
    | _ => exact ⟨fun _ => trivial, fun _ => trivial⟩
  | _ => exact ⟨fun _ => trivial, fun _ => trivial⟩

theorem ArithOp.inert_rebuild (op : ArithOp) {a b : FieldExpr} (ha : ∀ n ∈ a.nodes, n.Inert m κ)
    (hb : ∀ n ∈ b.nodes, n.Inert m κ) : ∀ n ∈ (op.rebuild m a b).nodes, n.Inert m κ := by
  rcases FieldExpr.numbers_or_not a b with ⟨x, y, rfl, rfl⟩ | hn
  · rcases op.fold_eq m x y with ⟨v, hv, -, -⟩ | ⟨r, hr, hrefused⟩
    · simp [rebuild, hv, FieldExpr.nodes, Expr.Inert]
    · simp [rebuild, hr, FieldExpr.nodes, Expr.Inert, hrefused]
  · rw [(op.rebuild_of_not_number m hn).1, FieldExpr.nodes, List.forall_mem_append, List.forall_mem_append,
      List.forall_mem_singleton]
    exact ⟨⟨ha, hb⟩, (Expr.inert_of_not_number hn).1 op⟩

theorem CompareOp.inert_fold (op : CompareOp) {a b : FieldExpr} (ha : ∀ n ∈ a.nodes, n.Inert m κ)
    (hb : ∀ n ∈ b.nodes, n.Inert m κ) : ∀ n ∈ (op.fold a b).nodes, n.Inert m κ := by
  rcases FieldExpr.numbers_or_not a b with ⟨x, y, rfl, rfl⟩ | hn
  · simp [fold, BoolExpr.nodes, Expr.Inert]
  · rw [op.fold_of_not_number hn, BoolExpr.nodes, List.forall_mem_append, List.forall_mem_append,
      List.forall_mem_singleton]
    exact ⟨⟨ha, hb⟩, (Expr.inert_of_not_number hn).2 op⟩

theorem BoolExpr.inert_select {c : BoolExpr} {a b : FieldExpr} (hc : ∀ n ∈ c.nodes, n.Inert m κ)
    (ha : ∀ n ∈ a.nodes, n.Inert m κ) (hb : ∀ n ∈ b.nodes, n.Inert m κ) :
    ∀ n ∈ (c.select a b).nodes, n.Inert m κ := by
  have hkept : (Expr.field (.ifElse c a b)).Inert m κ → ∀ n ∈ (FieldExpr.ifElse c a b).nodes, n.Inert m κ := by
    intro hnode
    rw [FieldExpr.nodes, List.forall_mem_append, List.forall_mem_append, List.forall_mem_append,
      List.forall_mem_singleton]
    exact ⟨⟨⟨hc, ha⟩, hb⟩, hnode⟩
  cases c with
  | value known =>
    cases known
    · exact hb
    · exact ha
  | ident x => exact hkept trivial
  | comparison op x y => exact hkept trivial

end

mutual

/-- At no node of a folded expression there is anything left to do. -/
theorem FieldExpr.inert_fold (m : Int) (κ : Store) : ∀ e : FieldExpr, ∀ n ∈ (e.fold m κ).nodes, n.Inert m κ
  | .number v => by simp [FieldExpr.fold, FieldExpr.nodes, Expr.Inert]
  | .ident x => by
    rw [FieldExpr.fold]
    cases h : κ.field x with
    | none => simpa [FieldExpr.nodes, Expr.Inert] using h
    | some v => simp [FieldExpr.nodes, Expr.Inert]
  | .binary op a b => by
    rw [FieldExpr.fold]
    exact op.inert_rebuild (FieldExpr.inert_fold m κ a) (FieldExpr.inert_fold m κ b)
  | .ifElse c a b => by
    rw [FieldExpr.fold]
    exact BoolExpr.inert_select (BoolExpr.inert_fold m κ c) (FieldExpr.inert_fold m κ a)
      (FieldExpr.inert_fold m κ b)
  | .call f args => by
    rw [FieldExpr.fold, FieldExpr.nodes, List.forall_mem_append, List.forall_mem_singleton]
    exact ⟨Expr.inert_foldAll m κ args, trivial⟩

theorem BoolExpr.inert_fold (m : Int) (κ : Store) : ∀ e : BoolExpr, ∀ n ∈ (e.fold m κ).nodes, n.Inert m κ
  | .value b => by simp [BoolExpr.fold, BoolExpr.nodes, Expr.Inert]
  | .ident x => by
    rw [BoolExpr.fold]
    cases h : κ.bool x with
    | none => simpa [BoolExpr.nodes, Expr.Inert] using h
    | some b => simp [BoolExpr.nodes, Expr.Inert]
  | .comparison op a b => by
    rw [BoolExpr.fold]
    exact op.inert_fold (FieldExpr.inert_fold m κ a) (FieldExpr.inert_fold m κ b)

theorem Expr.inert_fold (m : Int) (κ : Store) : ∀ e : Expr, ∀ n ∈ (e.fold m κ).nodes, n.Inert m κ
  | .field e => by
    rw [Expr.fold, Expr.nodes]
    exact FieldExpr.inert_fold m κ e
  | .bool e => by
    rw [Expr.fold, Expr.nodes]
    exact BoolExpr.inert_fold m κ e

theorem Expr.inert_foldAll (m : Int) (κ : Store) :
    ∀ es : List Expr, ∀ n ∈ Expr.nodesAll (Expr.foldAll m κ es), n.Inert m κ
  | [] => by simp [Expr.foldAll, Expr.nodesAll]
  | e :: es => by
    rw [Expr.foldAll, Expr.nodesAll, List.forall_mem_append]
    exact ⟨Expr.inert_fold m κ e, Expr.inert_foldAll m κ es⟩

end

/-! ## Statements -/

section

variable {m : Int} {k : Constants} {s s' : Stmt}

theorem Stmt.inert_fold (hs : s.isLoop = false) (h : s.fold m k = some s') :
    ∀ n ∈ s'.nodes, n.Inert m k.known := by
  cases s with
  | declare v =>
    cases h
    simp [nodes]
  | define v e =>
    obtain ⟨-, rfl⟩ := Stmt.of_fold_define h
    rw [nodes]
    exact Expr.inert_fold m k.known e
  | defineMany vs l =>
    cases h
    rw [nodes]
    exact Expr.inert_foldAll m k.known l.args
  | ret es =>
    cases h
    rw [nodes]
    exact Expr.inert_foldAll m k.known es
  | require a b =>
    cases h
    rw [nodes, List.forall_mem_append]
    exact ⟨Expr.inert_fold m k.known a, Expr.inert_fold m k.known b⟩
  | loop index first last body => cases hs

/-- A definition that is kept gives its variable no literal of the variable's kind. -/
theorem Stmt.kind_ne_of_kept (h : s.fold m k = some s') (v : Variable) (l : Literal)
    (hs' : s' = .define v l.toExpr) : l.kind ≠ v.kind := by
  intro hkind
  subst hs'
  cases s with
  | define w e =>
    obtain ⟨hunknown, hdefine⟩ := Stmt.of_fold_define h
    obtain ⟨rfl, hvalue⟩ := Stmt.define.inj hdefine
    rw [Variable.known?_eq_some_iff.2 ⟨hvalue.symm, hkind⟩] at hunknown
    cases hunknown
  | _ => cases h

theorem Stmt.normal_fold (hs : s.isLoop = false) (h : s.fold m k = some s') : s'.Normal m where
  comparison op a b hmem := Stmt.inert_fold hs h _ hmem
  operation op a b hmem := by
    have hrefused : ((FieldExpr.binary op (.number a) (.number b)).refusal? m).isSome :=
      Stmt.inert_fold hs h _ hmem
    cases op with
    | div =>
      simp only [FieldExpr.refusal?] at hrefused
      split at hrefused
      · rename_i hb
        exact .inl ⟨rfl, Scalar.eq_zero_of_val hb⟩
      · cases hrefused
    | pow =>
      simp only [FieldExpr.refusal?] at hrefused
      split at hrefused
      · rename_i hb
        exact .inr ⟨rfl, hb⟩
      · cases hrefused
    | _ => cases hrefused
  choice known a b hmem := Stmt.inert_fold hs h _ hmem
  definition := Stmt.kind_ne_of_kept h

end

/-! ## Functions -/

/-- What is known of a variable may change, but it is never forgotten. -/
theorem Stmt.isSome_find?_learn {m : Int} {k : Constants} {v : Variable} (h : (k.find? v).isSome) (s : Stmt) :
    ((s.learn m k).find? v).isSome := by
  unfold learn
  split
  · split
    · rw [Constants.find?_bind]
      split
      · rfl
      · exact h
    · exact h
  · exact h

section

variable {scope : FunctionScope} {k : Constants} {body : List Stmt}

/-- A variable that is known at the start of a body is known at all its statements. -/
theorem Stmt.known_of_mem_trace {v : Variable} (hk : k.WellKinded) (hb : ∀ s ∈ body, s.isLoop = false)
    (h : (k.find? v).isSome) : ∀ p ∈ Stmt.trace scope k body, (p.before.find? v).isSome := by
  induction body generalizing k with
  | nil =>
    intro p hp
    cases hp
  | cons s rest ih =>
    intro p hp
    rw [Stmt.trace_cons scope hk (hb s List.mem_cons_self), List.mem_cons] at hp
    rcases hp with rfl | hp
    · exact h
    · exact ih (Stmt.wellKinded_learn scope.maximumExponent hk s) (fun t ht => hb t (List.mem_cons_of_mem _ ht))
        (Stmt.isSome_find?_learn h s) p hp

theorem Stmt.trace_eq (scope : FunctionScope) (hk : k.WellKinded) (hb : ∀ s ∈ body, s.isLoop = false) :
    (Stmt.trace scope k body).map Passage.source = body ∧
      (Stmt.trace scope k body).filterMap Passage.kept = Stmt.foldAll scope.maximumExponent k body :=
  Stmt.trace_of_ok scope (by rw [Stmt.propagateAll_eq scope hk hb])

/-- What is kept at a passage is what folding leaves of a statement other than a loop. -/
theorem Stmt.fold_of_mem_trace (hk : k.WellKinded) (hb : ∀ s ∈ body, s.isLoop = false) {p : Passage}
    (hp : p ∈ Stmt.trace scope k body) {s : Stmt} (hs : p.kept = some s) :
    p.source.isLoop = false ∧ p.source.fold scope.maximumExponent p.before = some s := by
  have hsource := List.mem_map_of_mem (f := Passage.source) hp
  rw [(Stmt.trace_eq scope hk hb).1] at hsource
  rw [(Stmt.kept_of_mem_trace hk hb hp).2] at hs
  exact ⟨hb p.source hsource, hs⟩

/-- No statement reads what a definition bound that was dropped before it. -/
theorem Stmt.pairwise_unread (hk : k.WellKinded) (hb : ∀ s ∈ body, s.isLoop = false) :
    (Stmt.trace scope k body).Pairwise Passage.Unread := by
  induction body generalizing k with
  | nil => exact .nil
  | cons s rest ih =>
    have hk' := Stmt.wellKinded_learn scope.maximumExponent hk s
    have hrest : ∀ t ∈ rest, t.isLoop = false := fun t ht => hb t (List.mem_cons_of_mem _ ht)
    rw [Stmt.trace_cons scope hk (hb s List.mem_cons_self), List.pairwise_cons]
    refine ⟨?_, ih hk' hrest⟩
    intro q hq hdropped v hv s' hs' hread
    have hdrops : Passage.drops v ⟨s, k, s.fold scope.maximumExponent k⟩ = true := by
      simpa [Passage.drops, Passage.binds, hv] using hdropped
    obtain ⟨l, -, -, hlearn⟩ := Stmt.learn_of_drops hk hdrops
    have hknown : (q.before.find? v).isSome :=
      Stmt.known_of_mem_trace hk' hrest (by rw [hlearn, Constants.find?_bind, if_pos rfl]; rfl) q hq
    obtain ⟨hloop, hfold⟩ := Stmt.fold_of_mem_trace hk' hrest hq hs'
    have hunknown := (Variable.inert_toExpr_iff v).1 (Stmt.inert_fold hloop hfold _ hread)
    rw [(Stmt.kept_of_mem_trace hk' hrest hq).1.get?_known] at hunknown
    rw [hunknown] at hknown
    cases hknown

end

/-! ## Top theorem -/

/-- **What propagation leaves is in normal form.**  Of a function without loops it leaves statements at no node
of which anything is left to do, and none that reads a variable of which a definition before it was dropped. -/
theorem Func.propagate_normal (name : Text) (m : Int) {f : Func} (hf : f.LoopFree) :
    ∃ f' errors, f.propagate name m = ⟨.ok f', errors⟩ ∧ (∀ s ∈ f'.statements, s.Normal m) ∧
      (f.passages name m).map Passage.source = f.statements ∧
      (f.passages name m).filterMap Passage.kept = f'.statements ∧
      (f.passages name m).Pairwise Passage.Unread := by
  have hk := Constants.wellKinded_empty
  obtain ⟨hsource, hkept⟩ := Stmt.trace_eq ⟨f.name, name, m⟩ hk hf
  refine ⟨f.fold m, _, Func.propagate_eq name m hf, ?_, hsource, hkept, Stmt.pairwise_unread hk hf⟩
  intro s hs
  have hmem : s ∈ (f.passages name m).filterMap Passage.kept := by
    rw [Func.passages, hkept]
    exact hs
  obtain ⟨p, hp, hps⟩ := List.mem_filterMap.1 hmem
  obtain ⟨hloop, hfold⟩ := Stmt.fold_of_mem_trace hk hf hp hps
  exact Stmt.normal_fold hloop hfold

/-- `x = 2 ** 3; b = x < 9; p, q = g(if b then x else 1 / 0, b); assert p == h(x + c); field x = b;`
`return if u then x ** 70 else x / (x - 8), q`: two definitions are dropped, and what they define is read in
arguments, in an assertion, in both branches of a choice and in a definition of the wrong kind. -/
def threaded : Func where
  name := "main"
  parameters := [⟨"c", .field⟩, ⟨"u", .bool⟩]
  returnKinds := [.field, .field]
  statements :=
    [.define ⟨"x", .field⟩ (.field (.binary .pow (.number (.ofNat 2)) (.number (.ofNat 3)))),
      .define ⟨"b", .bool⟩ (.bool (.comparison .lt (.ident "x") (.number (.ofNat 9)))),
      .defineMany [⟨"p", .field⟩, ⟨"q", .field⟩]
        ⟨"g", [.field (.ifElse (.ident "b") (.ident "x") (.binary .div (.number (.ofNat 1)) (.number (.ofNat 0)))),
          .bool (.ident "b")], [.field, .field]⟩,
      .require (.field (.ident "p")) (.field (.call "h" [.field (.binary .add (.ident "x") (.ident "c"))])),
      .define ⟨"x", .field⟩ (.bool (.ident "b")),
      .ret [.field (.ifElse (.ident "u") (.binary .pow (.ident "x") (.number (.ofNat 70)))
          (.binary .div (.ident "x") (.binary .sub (.ident "x") (.number (.ofNat 8))))),
        .field (.ident "q")]]

theorem threaded_normal :
    threaded.LoopFree ∧ (threaded.propagate "main" 64).diagnostics.map Diagnostic.reason =
      (["Exponent of `(8 ** 70)` exceeds the maximum exponent 64.", "Divisor of `(8 / 0)` is zero."] : List Text) ∧
      ∃ f' errors, threaded.propagate "main" 64 = ⟨.ok f', errors⟩ ∧ (∀ s ∈ f'.statements, s.Normal 64) ∧
        (threaded.passages "main" 64).map Passage.source = threaded.statements ∧
        (threaded.passages "main" 64).filterMap Passage.kept = f'.statements ∧
        (threaded.passages "main" 64).Pairwise Passage.Unread :=
  ⟨by decide, by decide +kernel, Func.propagate_normal "main" 64 (by decide)⟩

end ConstFold
