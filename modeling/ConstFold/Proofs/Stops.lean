import ConstFold.Proofs.Fold

/-!
# What stops the compiler

Of the three breaches only one is ever met.  The constants that a body collects are all of their variables'
kinds, with or without loops in it (`Stmt.wellKinded_of_mem_reached`), so none of them stops the propagation
of an expression.  No exponent of an operation on scalars is negative, so that fault is not met either, whatever
the limit (`ArithOp.fold_eq`).  What is left is the first loop, in the order of declarations and then of statements
(`Func.propagateAll_outcome`).
-/

namespace ConstFold

/-! ## Loops -/

/-- What a loop counts with. -/
def Stmt.loopIndex? : Stmt → Option Variable
  | .loop index _ _ _ => some index
  | _ => none

/-- The index of the first loop of a function, and the function's name. -/
def Func.firstLoop? (f : Func) : Option (Variable × Text) :=
  (f.statements.findSome? Stmt.loopIndex?).map fun index => (index, f.name)

/-- The index of the first loop of a program, and the name of the function it is in. -/
def Program.firstLoop? (p : Program) : Option (Variable × Text) := p.functions.findSome? Func.firstLoop?

theorem Stmt.loopIndex?_eq_none_iff {s : Stmt} : s.loopIndex? = none ↔ s.isLoop = false := by
  cases s <;> simp [loopIndex?, isLoop]

theorem Func.firstLoop?_eq_none_iff {f : Func} : f.firstLoop? = none ↔ f.LoopFree := by
  unfold firstLoop? LoopFree
  rw [Option.map_eq_none_iff, List.findSome?_eq_none_iff]
  exact forall₂_congr fun s _ => Stmt.loopIndex?_eq_none_iff

theorem Program.firstLoop?_eq_none_iff {p : Program} : p.firstLoop? = none ↔ p.LoopFree := by
  unfold firstLoop? LoopFree
  rw [List.findSome?_eq_none_iff]
  exact forall₂_congr fun f _ => Func.firstLoop?_eq_none_iff

/-! ## Constants on the way -/

/-- The constants known before each statement of a body and after the last, as far as the compiler comes. -/
def Stmt.reached (scope : FunctionScope) : Constants → List Stmt → List Constants
  | k, [] => [k]
  | k, s :: rest =>
    k :: match (s.propagate scope k).outcome with
      | .ok (_, after) => Stmt.reached scope after rest
      | .error _ => []

/-- No constant of the wrong kind is ever known. -/
theorem Stmt.wellKinded_of_mem_reached {scope : FunctionScope} {k : Constants} (hk : k.WellKinded)
    {body : List Stmt} {k' : Constants} (h : k' ∈ Stmt.reached scope k body) : k'.WellKinded := by
  induction body generalizing k with
  | nil =>
    rw [List.mem_singleton.1 h]
    exact hk
  | cons s rest ih =>
    rw [reached, List.mem_cons] at h
    rcases h with rfl | h
    · exact hk
    · cases hs : s.isLoop with
      | false =>
        rw [Stmt.propagate_eq scope hk hs] at h
        exact ih (Stmt.wellKinded_learn scope.maximumExponent hk s) h
      | true =>
        cases s with
        | loop index first last inner => cases h
        | _ => cases hs

/-! ## Outcomes -/

/-- A body is stopped by its first loop and by nothing else. -/
theorem Stmt.propagateAll_outcome (scope : FunctionScope) {k : Constants} (hk : k.WellKinded)
    (body : List Stmt) :
    (Stmt.propagateAll scope k body).outcome =
      match body.findSome? Stmt.loopIndex? with
      | some index => .error (.loop index scope.name)
      | none => .ok (Stmt.foldAll scope.maximumExponent k body) := by
  induction body generalizing k with
  | nil => rfl
  | cons s rest ih =>
    rw [propagateAll, Report.outcome_bind, List.findSome?_cons]
    cases hs : s.isLoop with
    | false =>
      have hrest := ih (Stmt.wellKinded_learn scope.maximumExponent hk s)
      rw [Stmt.loopIndex?_eq_none_iff.2 hs, Stmt.propagate_eq scope hk hs]
      simp only [Except.bind, Report.outcome_bind, hrest]
      cases rest.findSome? Stmt.loopIndex? <;> rfl
    | true =>
      cases s with
      | loop index first last inner => rfl
      | _ => cases hs

theorem Func.propagate_outcome (name : Text) (m : Int) (f : Func) :
    (f.propagate name m).outcome =
      match f.firstLoop? with
      | some (index, function) => .error (.loop index function)
      | none => .ok (f.fold m) := by
  rw [propagate, Report.outcome_bind, Stmt.propagateAll_outcome _ Constants.wellKinded_empty, firstLoop?]
  cases f.statements.findSome? Stmt.loopIndex? <;> rfl

/-- A row of functions is stopped by its first loop and by nothing else. -/
theorem Func.propagateAll_outcome (m : Int) (fs : List Func) :
    (Func.propagateAll m fs).outcome =
      match fs.findSome? Func.firstLoop? with
      | some (index, function) => .error (.loop index function)
      | none => .ok (fs.map (Func.fold m)) := by
  induction fs with
  | nil => rfl
  | cons f fs ih =>
    rw [propagateAll, Report.outcome_bind, Func.propagate_outcome, List.findSome?_cons]
    cases f.firstLoop? with
    | some found => rfl
    | none =>
      simp only [Except.bind, Report.outcome_bind, ih]
      cases fs.findSome? Func.firstLoop? <;> rfl

theorem Program.propagate_eq_error_iff (m : Int) (p : Program) (breach : Breach) :
    p.propagate m = .error breach ↔
      ∃ index function, p.firstLoop? = some (index, function) ∧ breach = .loop index function := by
  have houtcome := Func.propagateAll_outcome m p.functions
  cases hloop : p.functions.findSome? Func.firstLoop? with
  | none =>
    rw [hloop] at houtcome
    simp [propagate, firstLoop?, houtcome, hloop, Except.map]
  | some found =>
    obtain ⟨index, function⟩ := found
    rw [hloop] at houtcome
    constructor
    · intro h
      simp only [propagate, houtcome, Except.map] at h
      cases h
      exact ⟨index, function, hloop, rfl⟩
    · rintro ⟨index', function', hfirst, rfl⟩
      rw [firstLoop?, hloop] at hfirst
      cases hfirst
      simp only [propagate, houtcome, Except.map]

theorem Program.loopFree_of_ok {m : Int} {p : Program} {verdict : Verdict} (h : p.propagate m = .ok verdict) :
    p.LoopFree := by
  rw [← Program.firstLoop?_eq_none_iff]
  cases hloop : p.firstLoop? with
  | none => rfl
  | some found =>
    rw [(Program.propagate_eq_error_iff m p (.loop found.1 found.2)).2 ⟨_, _, hloop, rfl⟩] at h
    cases h

/-! ## Top theorem -/

/-- **Only loops stop the compiler.**  It is stopped exactly if some function has a loop, and then by the first
one, whose index and function the message names, whatever was listed before.  All constants on the way are of
their variables' kinds, and no operation meets a negative exponent. -/
theorem Program.stopped_exactly_by_first_loop (m : Int) (p : Program) :
    ((∃ breach, p.propagate m = .error breach) ↔ ∃ f ∈ p.functions, ∃ s ∈ f.statements, s.isLoop = true) ∧
      (∀ breach, p.propagate m = .error breach ↔
        ∃ index function, p.firstLoop? = some (index, function) ∧ breach = .loop index function) ∧
      (∀ breach, p.propagate m = .error breach →
        ∃ index function, p.firstLoop? = some (index, function) ∧ breach.toInternalError =
          .ok ⟨.noLoopAfterUnrolling,
            "Loop over `" ++ index.text ++ "` in function `" ++ function ++ "` was not unrolled."⟩) ∧
      (∀ f ∈ p.functions, ∀ k ∈ Stmt.reached ⟨f.name, f.name, m⟩ .empty f.statements, k.WellKinded) ∧
      ∀ (op : ArithOp) (a b : Scalar), ∃ r, op.fold m a b = .ok r := by
  have herror := Program.propagate_eq_error_iff m p
  refine ⟨?_, herror, ?_, ?_, ?_⟩
  · calc (∃ breach, p.propagate m = .error breach)
        ↔ p.firstLoop? ≠ none := by
          constructor
          · rintro ⟨breach, h⟩
            obtain ⟨index, function, hloop, -⟩ := (herror breach).1 h
            simp [hloop]
          · intro h
            obtain ⟨⟨index, function⟩, hloop⟩ := Option.ne_none_iff_exists'.1 h
            exact ⟨.loop index function, (herror _).2 ⟨index, function, hloop, rfl⟩⟩
      _ ↔ ¬ p.LoopFree := not_congr Program.firstLoop?_eq_none_iff
      _ ↔ ∃ f ∈ p.functions, ∃ s ∈ f.statements, s.isLoop = true := by
          simp [LoopFree, Func.LoopFree]
  · intro breach h
    obtain ⟨index, function, hloop, rfl⟩ := (herror breach).1 h
    exact ⟨index, function, hloop, rfl⟩
  · intro f _ k hk
    exact Stmt.wellKinded_of_mem_reached Constants.wellKinded_empty hk
  · intro op a b
    rcases op.fold_eq m a b with ⟨v, hf, -, -⟩ | ⟨r, hf, -⟩
    · exact ⟨.ok v, hf⟩
    · exact ⟨.error r, hf⟩

end ConstFold
