import ConstFold.Proofs.Fold

/-!
# Propagation in stages

To fold an expression where `κ` is known and the result where `κ'` is known is to fold it once where both
are, with `κ` asked first (`FieldExpr.fold_fold`).  So propagation may be done in stages: the last stage lists
what one run with all the constants would have listed (`Expr.propagate_staged`).

A second run through a function knows nothing to begin with.
So it finds every expression that the first one left as it was left, drops no statement and learns nothing
(`Stmt.foldAll_foldAll`): a propagated function is its own result, with the diagnostics it already had
(`Func.propagate_idempotent`).
-/

namespace ConstFold

/-! ## Expressions -/

/-- What the first store holds, and where it holds nothing what the second one does. -/
def Store.or (κ κ' : Store) : Store :=
  ⟨fun x => (κ.field x).or (κ'.field x), fun x => (κ.bool x).or (κ'.bool x)⟩

theorem Store.or_known_empty (κ : Store) : κ.or (Constants.known .empty) = κ := by
  have hfield : ∀ x, (Constants.known .empty).field x = none := fun _ => rfl
  have hbool : ∀ x, (Constants.known .empty).bool x = none := fun _ => rfl
  simp [Store.or, hfield, hbool]

section

variable (m : Int) (κ : Store)

/-- Folding goes through an operation, whether it was carried out or not. -/
theorem ArithOp.fold_rebuild (op : ArithOp) (a b : FieldExpr) :
    (op.rebuild m a b).fold m κ = op.rebuild m (a.fold m κ) (b.fold m κ) := by
  rcases FieldExpr.numbers_or_not a b with ⟨x, y, rfl, rfl⟩ | hn
  · rcases op.fold_eq m x y with ⟨v, hv, -, -⟩ | ⟨r, hr, -⟩
    · simp only [rebuild, hv, FieldExpr.fold]
    · simp only [rebuild, hr, FieldExpr.fold]
  · rw [(op.rebuild_of_not_number m hn).1, FieldExpr.fold]

theorem CompareOp.fold_fold (op : CompareOp) (a b : FieldExpr) :
    (op.fold a b).fold m κ = op.fold (a.fold m κ) (b.fold m κ) := by
  rcases FieldExpr.numbers_or_not a b with ⟨x, y, rfl, rfl⟩ | hn
  · rfl
  · rw [op.fold_of_not_number hn, BoolExpr.fold]

/-- Folding goes through a choice, whether it was made or not. -/
theorem BoolExpr.fold_select (c : BoolExpr) (a b : FieldExpr) :
    (c.select a b).fold m κ = (c.fold m κ).select (a.fold m κ) (b.fold m κ) := by
  cases c with
  | value known => cases known <;> rfl
  | ident x => rfl
  | comparison op x y => rfl

end

mutual

/-- Two folds are one, where the first store is asked first. -/
theorem FieldExpr.fold_fold (m : Int) (κ κ' : Store) : ∀ e : FieldExpr,
    (e.fold m κ).fold m κ' = e.fold m (κ.or κ')
  | .number v => rfl
  | .ident x => by
    simp only [FieldExpr.fold, Store.or]
    cases κ.field x <;> rfl
  | .binary op a b => by
    rw [FieldExpr.fold, ArithOp.fold_rebuild, FieldExpr.fold_fold m κ κ' a, FieldExpr.fold_fold m κ κ' b,
      FieldExpr.fold]
  | .ifElse c a b => by
    rw [FieldExpr.fold, BoolExpr.fold_select, BoolExpr.fold_fold m κ κ' c, FieldExpr.fold_fold m κ κ' a,
      FieldExpr.fold_fold m κ κ' b, FieldExpr.fold]
  | .call f args => by
    rw [FieldExpr.fold, FieldExpr.fold, Expr.foldAll_foldAll m κ κ' args, FieldExpr.fold]

theorem BoolExpr.fold_fold (m : Int) (κ κ' : Store) : ∀ e : BoolExpr,
    (e.fold m κ).fold m κ' = e.fold m (κ.or κ')
  | .value b => rfl
  | .ident x => by
    simp only [BoolExpr.fold, Store.or]
    cases κ.bool x <;> rfl
  | .comparison op a b => by
    rw [BoolExpr.fold, CompareOp.fold_fold, FieldExpr.fold_fold m κ κ' a, FieldExpr.fold_fold m κ κ' b,
      BoolExpr.fold]

theorem Expr.fold_fold (m : Int) (κ κ' : Store) : ∀ e : Expr, (e.fold m κ).fold m κ' = e.fold m (κ.or κ')
  | .field e => by rw [Expr.fold, Expr.fold, FieldExpr.fold_fold m κ κ' e, Expr.fold]
  | .bool e => by rw [Expr.fold, Expr.fold, BoolExpr.fold_fold m κ κ' e, Expr.fold]

theorem Expr.foldAll_foldAll (m : Int) (κ κ' : Store) : ∀ es : List Expr,
    Expr.foldAll m κ' (Expr.foldAll m κ es) = Expr.foldAll m (κ.or κ') es
  | [] => rfl
  | e :: es => by
    rw [Expr.foldAll, Expr.foldAll, Expr.fold_fold m κ κ' e, Expr.foldAll_foldAll m κ κ' es, Expr.foldAll]

end

/-! ## Stages -/

namespace Constants

/-- The constants of both, those of the first where both have one. -/
def orElse (k k' : Constants) : Constants := k.entries.foldr (fun entry both => both.set entry.1 entry.2) k'

theorem find?_orElse (k k' : Constants) (v : Variable) : (k.orElse k').find? v = (k.find? v).or (k'.find? v) := by
  obtain ⟨entries⟩ := k
  unfold orElse find?
  induction entries with
  | nil => rfl
  | cons entry entries ih =>
    obtain ⟨key, l⟩ := entry
    rw [List.foldr_cons, Table.get?_set, ih]
    simp only [Table.get?, Keyed.lookup_cons_eq_ite]
    split <;> rfl

variable {k k' both : Constants}

theorem WellKinded.of_or (hk : k.WellKinded) (hk' : k'.WellKinded)
    (hboth : ∀ v, both.find? v = (k.find? v).or (k'.find? v)) : both.WellKinded := by
  intro v l h
  rw [hboth, Option.or_eq_some_iff] at h
  rcases h with h | ⟨-, h⟩
  · exact hk v l h
  · exact hk' v l h

/-- What is known of two is what the one and then the other know. -/
theorem known_of_or (hk : k.WellKinded) (hboth : ∀ v, both.find? v = (k.find? v).or (k'.find? v)) :
    both.known = k.known.or k'.known := by
  have hfield : ∀ x, both.known.field x = (k.known.field x).or (k'.known.field x) := by
    intro x
    simp only [known, hboth]
    cases h : k.find? ⟨x, .field⟩ with
    | none => simp
    | some l =>
      cases l with
      | field a => simp
      | bool b => cases hk _ _ h
  have hbool : ∀ x, both.known.bool x = (k.known.bool x).or (k'.known.bool x) := by
    intro x
    simp only [known, hboth]
    cases h : k.find? ⟨x, .bool⟩ with
    | none => simp
    | some l =>
      cases l with
      | field a => cases hk _ _ h
      | bool b => simp
  simp only [Store.or, ← hfield, ← hbool]

end Constants

/-- **Propagation in stages.**  To propagate some constants and then others into what that gave is to propagate
all of them at once, where the first ones count: the last stage gives the same expression and lists the same
diagnostics, whatever the stage before it listed, and under whatever name. -/
theorem Expr.propagate_staged (first name : Text) (m : Int) {k k' both : Constants} (hk : k.WellKinded)
    (hk' : k'.WellKinded) (hboth : ∀ v, both.find? v = (k.find? v).or (k'.find? v)) (e : Expr) :
    ∃ e₁ e₂ listed errors, e.propagate ⟨k, first, m⟩ = ⟨.ok e₁, listed⟩ ∧
      e₁.propagate ⟨k', name, m⟩ = ⟨.ok e₂, errors⟩ ∧ e.propagate ⟨both, name, m⟩ = ⟨.ok e₂, errors⟩ := by
  have hfirst := Expr.propagate_eq (c := ⟨k, first, m⟩) hk e
  have hsecond := Expr.propagate_eq (c := ⟨k', name, m⟩) hk' (e.fold m k.known)
  have hdirect := Expr.propagate_eq (c := ⟨both, name, m⟩) (hk.of_or hk' hboth) e
  have hfold : (e.fold m k.known).fold m k'.known = e.fold m both.known := by
    rw [Constants.known_of_or hk hboth, Expr.fold_fold]
  simp only [hfold] at hsecond
  exact ⟨_, _, _, _, hfirst, hsecond, hdirect⟩

/-- `b` is false. -/
def knownFalse : Constants := Constants.bind .empty ⟨"b", .bool⟩ (.bool false)

/-- `b` is true and `x` is 70. -/
def knownTrueAndSeventy : Constants :=
  (Constants.bind .empty ⟨"b", .bool⟩ (.bool true)).bind ⟨"x", .field⟩ (.field (.ofNat 70))

/-- `if 8 < x then (if b then 1 / 0 else 2 ** x) else 0 / 0` -/
def twoStage : Expr :=
  .field (.ifElse (.comparison .lt (.number (.ofNat 8)) (.ident "x"))
    (.ifElse (.ident "b") (.binary .div (.number (.ofNat 1)) (.number (.ofNat 0)))
      (.binary .pow (.number (.ofNat 2)) (.ident "x")))
    (.binary .div (.number (.ofNat 0)) (.number (.ofNat 0))))

theorem twoStage_staged :
    (∃ e₁ e₂ listed errors, twoStage.propagate ⟨knownFalse, "main", 64⟩ = ⟨.ok e₁, listed⟩ ∧
      e₁.propagate ⟨knownTrueAndSeventy, "main", 64⟩ = ⟨.ok e₂, errors⟩ ∧
      twoStage.propagate ⟨knownFalse.orElse knownTrueAndSeventy, "main", 64⟩ = ⟨.ok e₂, errors⟩) ∧
      (twoStage.propagate ⟨knownFalse, "main", 64⟩).diagnostics.map Diagnostic.reason =
        (["Divisor of `(0 / 0)` is zero."] : List Text) ∧
      (twoStage.propagate ⟨knownFalse.orElse knownTrueAndSeventy, "main", 64⟩).diagnostics.map Diagnostic.reason =
        (["Exponent of `(2 ** 70)` exceeds the maximum exponent 64."] : List Text) :=
  ⟨Expr.propagate_staged "main" "main" 64 (Constants.wellKinded_empty.bind rfl)
    ((Constants.wellKinded_empty.bind rfl).bind rfl) (Constants.find?_orElse _ _) twoStage,
    by decide +kernel, by decide +kernel⟩

/-! ## Expressions that are done -/

/-- What was folded stays as it is where nothing is known. -/
theorem Expr.fold_known_empty (m : Int) (κ : Store) (e : Expr) :
    (e.fold m κ).fold m (Constants.known .empty) = e.fold m κ := by
  rw [Expr.fold_fold, Store.or_known_empty]

theorem Expr.foldAll_known_empty (m : Int) (κ : Store) (es : List Expr) :
    Expr.foldAll m (Constants.known .empty) (Expr.foldAll m κ es) = Expr.foldAll m κ es := by
  rw [Expr.foldAll_foldAll, Store.or_known_empty]

/-! ## Statements -/

/-- A definition stays only if its value has not become a literal of its variable's kind. -/
theorem Stmt.of_fold_define {m : Int} {k : Constants} {v : Variable} {e : Expr} {s' : Stmt}
    (h : (Stmt.define v e).fold m k = some s') :
    v.known? (e.fold m k.known) = none ∧ s' = .define v (e.fold m k.known) := by
  simp only [fold] at h
  split at h
  · cases h
  · rename_i hv
    exact ⟨hv, (Option.some.inj h).symm⟩

theorem Stmt.isLoop_fold {m : Int} {k : Constants} {s s' : Stmt} (h : s.fold m k = some s') :
    s'.isLoop = s.isLoop := by
  cases s with
  | define v e =>
    obtain ⟨-, rfl⟩ := Stmt.of_fold_define h
    rfl
  | _ =>
    cases h
    rfl

/-- What is left of a statement is left by a second run too, and teaches it nothing. -/
theorem Stmt.fold_kept {m : Int} {k : Constants} {s s' : Stmt} (hs : s.isLoop = false)
    (h : s.fold m k = some s') : s'.fold m .empty = some s' ∧ s'.learn m .empty = .empty := by
  cases s with
  | declare v =>
    cases h
    exact ⟨rfl, rfl⟩
  | define v e =>
    obtain ⟨hv, rfl⟩ := Stmt.of_fold_define h
    simp only [fold, learn, Expr.fold_known_empty, hv]
    exact ⟨trivial, trivial⟩
  | defineMany vs l =>
    cases h
    exact ⟨by simp only [fold, CallList.fold, Expr.foldAll_known_empty], rfl⟩
  | ret es =>
    cases h
    exact ⟨by simp only [fold, Expr.foldAll_known_empty], rfl⟩
  | require a b =>
    cases h
    exact ⟨by simp only [fold, Expr.fold_known_empty], rfl⟩
  | loop index first last body => cases hs

theorem Stmt.isLoop_of_mem_foldAll {m : Int} {k : Constants} {body : List Stmt}
    (hb : ∀ s ∈ body, s.isLoop = false) : ∀ s ∈ Stmt.foldAll m k body, s.isLoop = false := by
  induction body generalizing k with
  | nil =>
    intro s hs
    cases hs
  | cons t rest ih =>
    intro s hs
    rw [foldAll, List.mem_append] at hs
    rcases hs with hs | hs
    · rw [Stmt.isLoop_fold (Option.mem_toList.1 hs)]
      exact hb t List.mem_cons_self
    · exact ih (fun u hu => hb u (List.mem_cons_of_mem _ hu)) s hs

/-- A second run through a body finds nothing to do, whatever the first one knew. -/
theorem Stmt.foldAll_foldAll {m : Int} {k : Constants} {body : List Stmt}
    (hb : ∀ s ∈ body, s.isLoop = false) :
    Stmt.foldAll m .empty (Stmt.foldAll m k body) = Stmt.foldAll m k body := by
  induction body generalizing k with
  | nil => rfl
  | cons s rest ih =>
    have hrest := ih (k := s.learn m k) fun t ht => hb t (List.mem_cons_of_mem _ ht)
    cases hs : s.fold m k with
    | none =>
      simp only [foldAll, hs, Option.toList_none, List.nil_append]
      exact hrest
    | some s' =>
      obtain ⟨hfold, hlearn⟩ := Stmt.fold_kept (hb s List.mem_cons_self) hs
      simp only [foldAll, hs, Option.toList_some, List.singleton_append, hfold, hlearn, hrest]

/-! ## Functions -/

theorem Func.loopFree_fold (m : Int) {f : Func} (hf : f.LoopFree) : (f.fold m).LoopFree :=
  Stmt.isLoop_of_mem_foldAll hf

theorem Func.fold_fold (m : Int) {f : Func} (hf : f.LoopFree) : (f.fold m).fold m = f.fold m := by
  simp only [fold, Stmt.foldAll_foldAll hf]

/-- **Propagation is idempotent.**  In a function without loops it gives a function, with some diagnostics, on
which it gives that same function and the same diagnostics again. -/
theorem Func.propagate_idempotent (name : Text) (m : Int) {f : Func} (hf : f.LoopFree) :
    ∃ f' errors, f.propagate name m = ⟨.ok f', errors⟩ ∧ f'.propagate name m = ⟨.ok f', errors⟩ := by
  refine ⟨f.fold m, (f.fold m).diagnose name m, Func.propagate_eq name m hf, ?_⟩
  rw [Func.propagate_eq name m (Func.loopFree_fold m hf), Func.fold_fold m hf]

/-- `x = 3; field y = true; x = a; return (1 / 0) + x, if x < 4 then (2 ** 65) else 0 / 0`: a constant that is
bound again, a definition of the wrong kind, and refused nodes inside and outside of a choice that is made. -/
def restless : Func where
  name := "main"
  parameters := [⟨"a", .field⟩]
  returnKinds := [.field, .field]
  statements :=
    [.define ⟨"x", .field⟩ (.field (.number (.ofNat 3))),
      .define ⟨"y", .field⟩ (.bool (.value true)),
      .define ⟨"x", .field⟩ (.field (.ident "a")),
      .ret [.field (.binary .add (.binary .div (.number (.ofNat 1)) (.number (.ofNat 0))) (.ident "x")),
        .field (.ifElse (.comparison .lt (.ident "x") (.number (.ofNat 4)))
          (.binary .pow (.number (.ofNat 2)) (.number (.ofNat 65)))
          (.binary .div (.number (.ofNat 0)) (.number (.ofNat 0))))]]

theorem restless_idempotent :
    restless.LoopFree ∧ ((restless.propagate "main" 64).diagnostics.map Diagnostic.reason =
      (["Divisor of `(1 / 0)` is zero.", "Exponent of `(2 ** 65)` exceeds the maximum exponent 64."] : List Text)) ∧
      ∃ f' errors, restless.propagate "main" 64 = ⟨.ok f', errors⟩ ∧
        f'.propagate "main" 64 = ⟨.ok f', errors⟩ :=
  ⟨by decide, by decide +kernel, Func.propagate_idempotent "main" 64 (by decide)⟩

end ConstFold
