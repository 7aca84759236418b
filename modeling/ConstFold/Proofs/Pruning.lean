import ConstFold.Proofs.Documents
import ConstFold.Proofs.Meaning
import ConstFold.Proofs.NormalForm
import Mathlib.Data.List.Forall2

/-!
# What disappears from a body

Which statements a body loses is said here by rules that know nothing of the run (`Stmt.Pruned`): a definition is
deleted if, under the literals of those deleted before it, its right-hand side becomes a literal of the variable's
kind; every other statement is kept in its place, and only its expressions change (`Stmt.Kept`).

Propagation looks at constants only by finding them (`Expr.propagate_congr`), so the rules leave no choice: they
admit one result for each body (`Stmt.Pruned.unique`).  Propagation follows them (`Stmt.pruned_foldAll`), and of a
program that is accepted it changes nothing else (`Program.accepted_pruned`).
-/

namespace ConstFold

/-! ## Rules -/

/-- What an expression becomes under the literals of deleted definitions, given the latest first; of several for
one variable the latest counts.  It does not depend on the function's name. -/
def Expr.Becomes (m : Int) (deleted : List (Variable × Literal)) (e e' : Expr) : Prop :=
  ∃ k : Constants, (∀ v, k.find? v = deleted.lookup v) ∧ ∀ name, (e.propagate ⟨k, name, m⟩).outcome = .ok e'

/-- How a statement is kept: all of it but its expressions stays as it was, and these become what they do one by
one.  A definition is kept only if its right-hand side does not become a literal of the variable's kind. -/
inductive Stmt.Kept (m : Int) (deleted : List (Variable × Literal)) : Stmt → Stmt → Prop
  | declare (v : Variable) : Kept m deleted (.declare v) (.declare v)
  | define (v : Variable) {e e' : Expr} : e.Becomes m deleted e' → (∀ l : Literal, e' = l.toExpr → l.kind ≠ v.kind) →
      Kept m deleted (.define v e) (.define v e')
  | defineMany (vs : List Variable) (callee : Text) (returnKinds : List Kind) {args args' : List Expr} :
      List.Forall₂ (Expr.Becomes m deleted) args args' →
      Kept m deleted (.defineMany vs ⟨callee, args, returnKinds⟩) (.defineMany vs ⟨callee, args', returnKinds⟩)
  | ret {es es' : List Expr} : List.Forall₂ (Expr.Becomes m deleted) es es' → Kept m deleted (.ret es) (.ret es')
  | require {a a' b b' : Expr} : a.Becomes m deleted a' → b.Becomes m deleted b' →
      Kept m deleted (.require a b) (.require a' b')

/-- What a body becomes after the deletion of some definitions, given the latest first. -/
inductive Stmt.Pruned (m : Int) : List (Variable × Literal) → List Stmt → List Stmt → Prop
  | nil {deleted : List (Variable × Literal)} : Pruned m deleted [] []
  | delete {deleted : List (Variable × Literal)} {v : Variable} {e : Expr} {l : Literal} {rest out : List Stmt} :
      e.Becomes m deleted l.toExpr → l.kind = v.kind → Pruned m ((v, l) :: deleted) rest out →
      Pruned m deleted (.define v e :: rest) out
  | keep {deleted : List (Variable × Literal)} {s s' : Stmt} {rest out : List Stmt} :
      Stmt.Kept m deleted s s' → Pruned m deleted rest out → Pruned m deleted (s :: rest) (s' :: out)

/-- A function differs from another one in its body only, which has become what the rules say. -/
structure Func.Pruned (m : Int) (f f' : Func) : Prop where
  name : f'.name = f.name
  parameters : f'.parameters = f.parameters
  returnKinds : f'.returnKinds = f.returnKinds
  layout : f'.layout = f.layout
  statements : ∀ out, Stmt.Pruned m [] f.statements out ↔ out = f'.statements

/-! ## Constants that are found alike -/

section

variable {k k' : Constants} (name : Text) (m : Int)

mutual

theorem FieldExpr.propagate_congr (h : ∀ v, k.find? v = k'.find? v) : ∀ e : FieldExpr,
    e.propagate ⟨k, name, m⟩ = e.propagate ⟨k', name, m⟩
  | .number v => rfl
  | .ident x => by
    rw [FieldExpr.propagate, FieldExpr.propagate, Context.fieldIdent, Context.fieldIdent, h]
  | .binary op a b => by
    rw [FieldExpr.propagate, FieldExpr.propagate, FieldExpr.propagate_congr h a, FieldExpr.propagate_congr h b]
    rfl
  | .ifElse c a b => by
    rw [FieldExpr.propagate, FieldExpr.propagate, BoolExpr.propagate_congr h c, FieldExpr.propagate_congr h a,
      FieldExpr.propagate_congr h b]
  | .call f args => by
    rw [FieldExpr.propagate, FieldExpr.propagate, Expr.propagateAll_congr h args]

theorem BoolExpr.propagate_congr (h : ∀ v, k.find? v = k'.find? v) : ∀ e : BoolExpr,
    e.propagate ⟨k, name, m⟩ = e.propagate ⟨k', name, m⟩
  | .value b => rfl
  | .ident x => by
    rw [BoolExpr.propagate, BoolExpr.propagate, Context.boolIdent, Context.boolIdent, h]
  | .comparison op a b => by
    rw [BoolExpr.propagate, BoolExpr.propagate, FieldExpr.propagate_congr h a, FieldExpr.propagate_congr h b]

/-- Propagation depends on what is found for each variable and on nothing else of the constants. -/
theorem Expr.propagate_congr (h : ∀ v, k.find? v = k'.find? v) : ∀ e : Expr,
    e.propagate ⟨k, name, m⟩ = e.propagate ⟨k', name, m⟩
  | .field e => by
    rw [Expr.propagate, Expr.propagate, FieldExpr.propagate_congr h e]
  | .bool e => by
    rw [Expr.propagate, Expr.propagate, BoolExpr.propagate_congr h e]

theorem Expr.propagateAll_congr (h : ∀ v, k.find? v = k'.find? v) : ∀ es : List Expr,
    Expr.propagateAll ⟨k, name, m⟩ es = Expr.propagateAll ⟨k', name, m⟩ es
  | [] => rfl
  | e :: es => by
    rw [Expr.propagateAll, Expr.propagateAll, Expr.propagate_congr h e, Expr.propagateAll_congr h es]

end

end

/-! ## The rules leave no choice -/

section

variable {m : Int} {deleted : List (Variable × Literal)}

theorem Expr.Becomes.unique {e e₁ e₂ : Expr} (h₁ : e.Becomes m deleted e₁) (h₂ : e.Becomes m deleted e₂) :
    e₁ = e₂ := by
  obtain ⟨k₁, hk₁, he₁⟩ := h₁
  obtain ⟨k₂, hk₂, he₂⟩ := h₂
  have hsame := Expr.propagate_congr "" m (fun v => (hk₁ v).trans (hk₂ v).symm) e
  have hout := he₁ ""
  rw [hsame, he₂ ""] at hout
  exact (Except.ok.inj hout).symm

theorem Expr.Becomes.forall₂_unique {es es₁ es₂ : List Expr} (h₁ : List.Forall₂ (Expr.Becomes m deleted) es es₁)
    (h₂ : List.Forall₂ (Expr.Becomes m deleted) es es₂) : es₁ = es₂ := by
  induction h₁ generalizing es₂ with
  | nil =>
    cases h₂
    rfl
  | cons he _ ih =>
    cases h₂ with
    | cons he' hrest => rw [he.unique he', ih hrest]

theorem Stmt.Kept.unique {s s₁ s₂ : Stmt} (h₁ : s.Kept m deleted s₁) (h₂ : s.Kept m deleted s₂) : s₁ = s₂ := by
  cases h₁ with
  | declare v =>
    cases h₂
    rfl
  | define v he _ =>
    cases h₂ with
    | define _ he' _ => rw [he.unique he']
  | defineMany vs callee returnKinds hargs =>
    cases h₂ with
    | defineMany _ _ _ hargs' => rw [Expr.Becomes.forall₂_unique hargs hargs']
  | ret hes =>
    cases h₂ with
    | ret hes' => rw [Expr.Becomes.forall₂_unique hes hes']
  | require ha hb =>
    cases h₂ with
    | require ha' hb' => rw [ha.unique ha', hb.unique hb']

/-- A definition that is deleted cannot be kept. -/
theorem Stmt.Kept.not_literal {v : Variable} {e : Expr} {l : Literal} {s : Stmt} (he : e.Becomes m deleted l.toExpr)
    (hl : l.kind = v.kind) (h : (Stmt.define v e).Kept m deleted s) : False := by
  cases h with
  | define _ he' hother => exact hother l (he'.unique he) hl

theorem Stmt.Pruned.unique {body out₁ out₂ : List Stmt} (h₁ : Stmt.Pruned m deleted body out₁)
    (h₂ : Stmt.Pruned m deleted body out₂) : out₁ = out₂ := by
  induction h₁ generalizing out₂ with
  | nil =>
    cases h₂
    rfl
  | delete he hl _ ih =>
    cases h₂ with
    | delete he' _ hrest =>
      rw [Literal.toExpr_injective (he'.unique he)] at hrest
      exact ih hrest
    | keep hkept _ => exact (hkept.not_literal he hl).elim
  | keep hkept _ ih =>
    cases h₂ with
    | delete he hl _ => exact (hkept.not_literal he hl).elim
    | keep hkept' hrest => rw [hkept.unique hkept', ih hrest]

end

/-! ## Propagation follows the rules -/

section

variable {m : Int} {deleted : List (Variable × Literal)} {k : Constants} (hk : k.WellKinded)
  (hfind : ∀ v, k.find? v = deleted.lookup v)

include hk hfind

theorem Expr.becomes_fold (e : Expr) : e.Becomes m deleted (e.fold m k.known) :=
  ⟨k, hfind, fun name => by rw [Expr.propagate_eq (c := ⟨k, name, m⟩) hk]⟩

theorem Expr.becomes_foldAll (es : List Expr) :
    List.Forall₂ (Expr.Becomes m deleted) es (Expr.foldAll m k.known es) := by
  induction es with
  | nil => exact .nil
  | cons e es ih => exact .cons (e.becomes_fold hk hfind) ih

theorem Stmt.kept_fold {s s' : Stmt} (hs : s.isLoop = false) (h : s.fold m k = some s') : s.Kept m deleted s' := by
  cases s with
  | declare v =>
    cases h
    exact .declare v
  | define v e =>
    have hother := Stmt.kind_ne_of_kept h v
    obtain ⟨-, rfl⟩ := Stmt.of_fold_define h
    exact .define v (e.becomes_fold hk hfind) (fun l hl => hother l (by rw [hl]))
  | defineMany vs l =>
    cases h
    exact .defineMany vs l.callee l.returnKinds (Expr.becomes_foldAll hk hfind l.args)
  | ret es =>
    cases h
    exact .ret (Expr.becomes_foldAll hk hfind es)
  | require a b =>
    cases h
    exact .require (a.becomes_fold hk hfind) (b.becomes_fold hk hfind)
  | loop index first last body => cases hs

/-- A statement that goes is a definition of what has become a literal, which is known from there on. -/
theorem Stmt.deleted_of_fold {s : Stmt} (h : s.fold m k = none) :
    ∃ v e l, s = .define v e ∧ e.Becomes m deleted l.toExpr ∧ l.kind = v.kind ∧ s.learn m k = k.bind v l := by
  cases s with
  | define v e =>
    cases hl : v.known? (e.fold m k.known) with
    | none => simp [fold, hl] at h
    | some l =>
      obtain ⟨he, hkind⟩ := Variable.known?_eq_some_iff.1 hl
      exact ⟨v, e, l, rfl, he ▸ e.becomes_fold hk hfind, hkind, by simp [learn, hl]⟩
  | _ => cases h

end

/-- The constants on the way are those of the definitions deleted so far. -/
theorem Stmt.pruned_foldAll {m : Int} {deleted : List (Variable × Literal)} {k : Constants} (hk : k.WellKinded)
    (hfind : ∀ v, k.find? v = deleted.lookup v) {body : List Stmt} (hb : ∀ s ∈ body, s.isLoop = false) :
    Stmt.Pruned m deleted body (Stmt.foldAll m k body) := by
  induction body generalizing k deleted with
  | nil => exact .nil
  | cons s rest ih =>
    have hrest : ∀ t ∈ rest, t.isLoop = false := fun t ht => hb t (List.mem_cons_of_mem s ht)
    rw [foldAll]
    cases hs : s.fold m k with
    | none =>
      obtain ⟨v, e, l, rfl, he, hl, hlearn⟩ := Stmt.deleted_of_fold hk hfind hs
      have hnext : ∀ w, (k.bind v l).find? w = ((v, l) :: deleted).lookup w := by
        intro w
        rw [Constants.find?_bind, Keyed.lookup_cons_eq_ite, hfind]
      rw [hlearn]
      exact .delete he hl (ih (hk.bind hl) hnext hrest)
    | some s' =>
      rw [Stmt.learn_of_kept hs]
      exact .keep (Stmt.kept_fold hk hfind (hb s List.mem_cons_self) hs) (ih hk hfind hrest)

theorem Func.pruned_fold (m : Int) {f : Func} (hf : f.LoopFree) : f.Pruned m (f.fold m) where
  name := rfl
  parameters := rfl
  returnKinds := rfl
  layout := rfl
  statements out := by
    have hpruned : Stmt.Pruned m [] f.statements (f.fold m).statements :=
      Stmt.pruned_foldAll Constants.wellKinded_empty (fun _ => rfl) hf
    constructor
    · intro h
      exact h.unique hpruned
    · rintro rfl
      exact hpruned

/-! ## Top theorem -/

/-- **Only constant definitions disappear.**  A program that is accepted keeps its functions in their order and all
that stands around them; in each body exactly those definitions are deleted that have become literals of their
variable's kind, and every other statement stays, with its expressions propagated. -/
theorem Program.accepted_pruned {m : Int} {p new : Program} (h : p.propagate m = .ok (.accepted new)) :
    new.layout = p.layout ∧ List.Forall₂ (Func.Pruned m) p.functions new.functions := by
  have hp := Program.loopFree_of_ok h
  obtain ⟨rfl, -⟩ := Program.eq_fold_of_accepted h
  refine ⟨rfl, List.forall₂_map_right_iff.2 (List.forall₂_same.2 fun f hf => ?_)⟩
  exact Func.pruned_fold m (hp f hf)

/-- `x = 2 + 1; x = a; y = x ** 2; x = y; assert x == a; p, q = g(x, y < 10); field z = true; return x, y`, with a
remark beside the function: three definitions go, the last of them another one of `x`, and one of the wrong kind
stays. -/
def remarked : Program where
  functions :=
    [{ name := "main", parameters := [⟨"a", .field⟩], returnKinds := [.field, .field]
       statements :=
        [.define ⟨"x", .field⟩ (.field (.binary .add (.number (.ofNat 2)) (.number (.ofNat 1)))),
          .define ⟨"x", .field⟩ (.field (.ident "a")),
          .define ⟨"y", .field⟩ (.field (.binary .pow (.ident "x") (.number (.ofNat 2)))),
          .define ⟨"x", .field⟩ (.field (.ident "y")),
          .require (.field (.ident "x")) (.field (.ident "a")),
          .defineMany [⟨"p", .field⟩, ⟨"q", .bool⟩]
            ⟨"g", [.field (.ident "x"), .bool (.comparison .lt (.ident "y") (.number (.ofNat 10)))], [.field, .bool]⟩,
          .define ⟨"z", .field⟩ (.bool (.value true)),
          .ret [.field (.ident "x"), .field (.ident "y")]]
       layout := FuncField.all.map .own ++ [.extra "remark" (.string "checked")] }]

def remarkedPropagated : Program where
  functions :=
    [{ name := "main", parameters := [⟨"a", .field⟩], returnKinds := [.field, .field]
       statements :=
        [.define ⟨"x", .field⟩ (.field (.ident "a")),
          .require (.field (.number (.ofNat 9))) (.field (.ident "a")),
          .defineMany [⟨"p", .field⟩, ⟨"q", .bool⟩]
            ⟨"g", [.field (.number (.ofNat 9)), .bool (.value true)], [.field, .bool]⟩,
          .define ⟨"z", .field⟩ (.bool (.value true)),
          .ret [.field (.number (.ofNat 9)), .field (.number (.ofNat 9))]]
       layout := FuncField.all.map .own ++ [.extra "remark" (.string "checked")] }]

theorem remarked_pruned :
    remarked.propagate 64 = .ok (.accepted remarkedPropagated) ∧ remarkedPropagated.layout = remarked.layout ∧
      List.Forall₂ (Func.Pruned 64) remarked.functions remarkedPropagated.functions :=
  ⟨rfl, Program.accepted_pruned rfl⟩

end ConstFold
