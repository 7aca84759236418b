import ConstFold.Proofs.Collecting
import ConstFold.Proofs.Staging

/-!
# Branches not chosen

Two expressions are alike if they differ only in branches that are not chosen: at any depth, in any number of
places, and also inside the conditions that decide which these are (`FieldExpr.Alike`).  Nothing tells them
apart afterwards.  Propagation gives the same expression and lists the same diagnostics, and by way of
collectors the same errors reach the global list, whatever waits for ever at the pending collectors of the
branches that were given up (`Expr.propagate_alike`).
-/

namespace ConstFold

mutual

/-- Two expressions that differ only in branches of choices whose condition is known to select the other one. -/
inductive FieldExpr.Alike (c : Context) : FieldExpr → FieldExpr → Prop
  | number (v : Scalar) : FieldExpr.Alike c (.number v) (.number v)
  | ident (x : Text) : FieldExpr.Alike c (.ident x) (.ident x)
  | binary (op : ArithOp) {a a' b b' : FieldExpr} : FieldExpr.Alike c a a' → FieldExpr.Alike c b b' →
      FieldExpr.Alike c (.binary op a b) (.binary op a' b')
  | ifElse {q q' : BoolExpr} {a a' b b' : FieldExpr} : BoolExpr.Alike c q q' → FieldExpr.Alike c a a' →
      FieldExpr.Alike c b b' → FieldExpr.Alike c (.ifElse q a b) (.ifElse q' a' b')
  /-- The second branches may be anything. -/
  | chosenFirst {q q' : BoolExpr} {a a' : FieldExpr} (b b' : FieldExpr) : BoolExpr.Alike c q q' →
      (q.propagate c).outcome = .ok (.value true) → FieldExpr.Alike c a a' →
      FieldExpr.Alike c (.ifElse q a b) (.ifElse q' a' b')
  /-- The first branches may be anything. -/
  | chosenSecond {q q' : BoolExpr} {b b' : FieldExpr} (a a' : FieldExpr) : BoolExpr.Alike c q q' →
      (q.propagate c).outcome = .ok (.value false) → FieldExpr.Alike c b b' →
      FieldExpr.Alike c (.ifElse q a b) (.ifElse q' a' b')
  | call (callee : Text) {args args' : List Expr} : Expr.AlikeAll c args args' →
      FieldExpr.Alike c (.call callee args) (.call callee args')

inductive BoolExpr.Alike (c : Context) : BoolExpr → BoolExpr → Prop
  | value (known : Bool) : BoolExpr.Alike c (.value known) (.value known)
  | ident (x : Text) : BoolExpr.Alike c (.ident x) (.ident x)
  | comparison (op : CompareOp) {a a' b b' : FieldExpr} : FieldExpr.Alike c a a' → FieldExpr.Alike c b b' →
      BoolExpr.Alike c (.comparison op a b) (.comparison op a' b')

inductive Expr.Alike (c : Context) : Expr → Expr → Prop
  | field {e e' : FieldExpr} : FieldExpr.Alike c e e' → Expr.Alike c (.field e) (.field e')
  | bool {e e' : BoolExpr} : BoolExpr.Alike c e e' → Expr.Alike c (.bool e) (.bool e')

inductive Expr.AlikeAll (c : Context) : List Expr → List Expr → Prop
  | nil : Expr.AlikeAll c [] []
  | cons {e e' : Expr} {es es' : List Expr} : Expr.Alike c e e' → Expr.AlikeAll c es es' →
      Expr.AlikeAll c (e :: es) (e' :: es')

end

/-! ## Folds -/

theorem BoolExpr.fold_of_outcome {c : Context} (hc : c.constants.WellKinded) {q : BoolExpr} {known : Bool}
    (h : (q.propagate c).outcome = .ok (.value known)) :
    q.fold c.maximumExponent c.constants.known = .value known := by
  rw [BoolExpr.propagate_eq hc] at h
  exact Except.ok.inj h

mutual

/-- Expressions that are alike have the same fold. -/
theorem FieldExpr.Alike.fold_eq {c : Context} (hc : c.constants.WellKinded) : ∀ {e e' : FieldExpr}, e.Alike c e' →
    e.fold c.maximumExponent c.constants.known = e'.fold c.maximumExponent c.constants.known
  | _, _, .number v => rfl
  | _, _, .ident x => rfl
  | _, _, .binary op ha hb => by
    rw [FieldExpr.fold, FieldExpr.fold, FieldExpr.Alike.fold_eq hc ha, FieldExpr.Alike.fold_eq hc hb]
  | _, _, .ifElse hq ha hb => by
    rw [FieldExpr.fold, FieldExpr.fold, BoolExpr.Alike.fold_eq hc hq, FieldExpr.Alike.fold_eq hc ha,
      FieldExpr.Alike.fold_eq hc hb]
  | _, _, .chosenFirst b b' hq htrue ha => by
    have hvalue := BoolExpr.fold_of_outcome hc htrue
    rw [FieldExpr.fold, FieldExpr.fold, ← BoolExpr.Alike.fold_eq hc hq, hvalue]
    exact FieldExpr.Alike.fold_eq hc ha
  | _, _, .chosenSecond a a' hq hfalse hb => by
    have hvalue := BoolExpr.fold_of_outcome hc hfalse
    rw [FieldExpr.fold, FieldExpr.fold, ← BoolExpr.Alike.fold_eq hc hq, hvalue]
    exact FieldExpr.Alike.fold_eq hc hb
  | _, _, .call callee hargs => by rw [FieldExpr.fold, FieldExpr.fold, Expr.AlikeAll.foldAll_eq hc hargs]

theorem BoolExpr.Alike.fold_eq {c : Context} (hc : c.constants.WellKinded) : ∀ {e e' : BoolExpr}, e.Alike c e' →
    e.fold c.maximumExponent c.constants.known = e'.fold c.maximumExponent c.constants.known
  | _, _, .value known => rfl
  | _, _, .ident x => rfl
  | _, _, .comparison op ha hb => by
    rw [BoolExpr.fold, BoolExpr.fold, FieldExpr.Alike.fold_eq hc ha, FieldExpr.Alike.fold_eq hc hb]

theorem Expr.Alike.fold_eq {c : Context} (hc : c.constants.WellKinded) : ∀ {e e' : Expr}, e.Alike c e' →
    e.fold c.maximumExponent c.constants.known = e'.fold c.maximumExponent c.constants.known
  | _, _, .field he => by rw [Expr.fold, Expr.fold, FieldExpr.Alike.fold_eq hc he]
  | _, _, .bool he => by rw [Expr.fold, Expr.fold, BoolExpr.Alike.fold_eq hc he]

theorem Expr.AlikeAll.foldAll_eq {c : Context} (hc : c.constants.WellKinded) :
    ∀ {es es' : List Expr}, Expr.AlikeAll c es es' →
      Expr.foldAll c.maximumExponent c.constants.known es = Expr.foldAll c.maximumExponent c.constants.known es'
  | _, _, .nil => rfl
  | _, _, .cons he hes => by
    rw [Expr.foldAll, Expr.foldAll, Expr.Alike.fold_eq hc he, Expr.AlikeAll.foldAll_eq hc hes]

end

/-! ## Top theorem -/

/-- **Branches not chosen leave no trace.**  Of expressions that differ in such branches only, propagation makes
the same expression and lists the same diagnostics.  By way of collectors the same errors reach the global list,
and if the collector at hand is not pending, these are the diagnostics listed. -/
theorem Expr.propagate_alike {c : Context} (hc : c.constants.WellKinded) {e e' : Expr} (h : e.Alike c e') :
    ∃ r errors, e.propagate c = ⟨.ok r, errors⟩ ∧ e'.propagate c = ⟨.ok r, errors⟩ ∧
      ∀ (s : Collectors) (t : Nat), s.function? t = some c.function →
        ∃ s₁ s₂, e.collect c t s = .ok r s₁ ∧ e'.collect c t s = .ok r s₂ ∧ s₁.reported = s₂.reported ∧
          (s.parent? t = none → s₁.reported = s.reported ++ errors) := by
  have he := Expr.propagate_eq hc e
  have he' := Expr.propagate_eq hc e'
  rw [← h.fold_eq hc] at he'
  refine ⟨_, _, he, he', fun s t hs => ?_⟩
  obtain ⟨s₁, hrun₁, hdelivered₁⟩ := e.collect_follows c t s hs
  obtain ⟨s₂, hrun₂, hdelivered₂⟩ := e'.collect_follows c t s hs
  rw [he] at hrun₁ hdelivered₁
  rw [he'] at hrun₂ hdelivered₂
  refine ⟨s₁, s₂, hrun₁, hrun₂, ?_, fun hroot => ?_⟩
  · rw [hdelivered₁.reported_eq, hdelivered₂.reported_eq]
  · rw [hdelivered₁.reported_eq, if_pos (Collectors.outlet_of_root hroot)]

/-- `if b then (if x < 9 then given else u + 1 / 0) else other` -/
def nestedChoice (given other : FieldExpr) : Expr :=
  .field (.ifElse (.ident "b")
    (.ifElse (.comparison .lt (.ident "x") (.number (.ofNat 9))) given
      (.binary .add (.ident "u") (.binary .div (.number (.ofNat 1)) (.number (.ofNat 0))))) other)

/-- `b` is true and `x` is 70, so that neither of the branches to fill in is chosen. -/
def nestedContext : Context := ⟨knownTrueAndSeventy, "main", 64⟩

theorem nestedChoice_alike (given given' other other' : FieldExpr) :
    (nestedChoice given other).Alike nestedContext (nestedChoice given' other') :=
  .field (.chosenFirst _ _ (.ident "b") rfl
    (.chosenSecond _ _ (.comparison .lt (.ident "x") (.number _)) rfl
      (.binary .add (.ident "u") (.binary .div (.number _) (.number _)))))

/-- `2 ** 70` -/
def beyondLimit : FieldExpr := .binary .pow (.number (.ofNat 2)) (.number (.ofNat 70))

/-- `f(0 / 0)` -/
def callOnNothing : FieldExpr := .call "f" [.field (.binary .div (.number (.ofNat 0)) (.number (.ofNat 0)))]

theorem nestedChoice_propagate :
    ∃ r errors s₁ s₂,
      (nestedChoice beyondLimit callOnNothing).propagate nestedContext = ⟨.ok r, errors⟩ ∧
      (nestedChoice callOnNothing (.ident "v")).propagate nestedContext = ⟨.ok r, errors⟩ ∧
      (nestedChoice beyondLimit callOnNothing).collect nestedContext 0 (Collectors.empty.addFunction "main") =
        .ok r s₁ ∧
      (nestedChoice callOnNothing (.ident "v")).collect nestedContext 0 (Collectors.empty.addFunction "main") =
        .ok r s₂ ∧
      s₁.reported = errors ∧ s₂.reported = errors ∧
      errors.map Diagnostic.reason = (["Divisor of `(1 / 0)` is zero."] : List Text) := by
  obtain ⟨r, errors, he, he', hcollect⟩ := Expr.propagate_alike (c := nestedContext)
    ((Constants.wellKinded_empty.bind rfl).bind rfl)
    (nestedChoice_alike beyondLimit callOnNothing callOnNothing (.ident "v"))
  obtain ⟨s₁, s₂, hrun₁, hrun₂, hsame, hroot⟩ := hcollect (Collectors.empty.addFunction "main") 0 rfl
  have hreasons : ((nestedChoice beyondLimit callOnNothing).propagate nestedContext).diagnostics.map
      Diagnostic.reason = (["Divisor of `(1 / 0)` is zero."] : List Text) := by
    decide +kernel
  rw [he] at hreasons
  exact ⟨r, errors, s₁, s₂, he, he', hrun₁, hrun₂, hroot rfl, hsame ▸ hroot rfl, hreasons⟩

end ConstFold
