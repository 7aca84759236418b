import ConstFold.Proofs.NormalForm
import ConstFold.Proofs.Stops

/-!
# Raising the limit of exponents

With a higher limit more powers are computed.  That can change what becomes of a branch which is not chosen, but
an expression in which nothing is refused is folded as before (`FieldExpr.fold_of_le`): every operation that is
left in it was carried out already or has an operand that is no literal.  Constants are then learnt as before
and the same statements kept (`Stmt.foldAll_of_le`), so an accepted program is accepted with the same result
(`Program.accepted_of_le`).
-/

namespace ConstFold

/-! ## Diagnostics by nodes -/

/-- The diagnostic of a node, if it is refused. -/
def Expr.diagnostic? (function : Text) (m : Int) : Expr → Option Diagnostic
  | .field e => (e.refusal? m).map fun r => ⟨function, e, r⟩
  | .bool _ => none

mutual

/-- The diagnostics of an expression are those of its nodes. -/
theorem FieldExpr.diagnose_eq_nodes (function : Text) (m : Int) : ∀ e : FieldExpr,
    e.diagnose function m = e.nodes.filterMap (Expr.diagnostic? function m)
  | .number v => rfl
  | .ident x => rfl
  | .binary op a b => by
    rw [FieldExpr.diagnose, FieldExpr.nodes, List.filterMap_append, List.filterMap_append,
      FieldExpr.diagnose_eq_nodes function m a, FieldExpr.diagnose_eq_nodes function m b]
    cases h : (FieldExpr.binary op a b).refusal? m <;> simp [Expr.diagnostic?, h]
  | .ifElse c a b => by
    rw [FieldExpr.diagnose, FieldExpr.nodes, List.filterMap_append, List.filterMap_append, List.filterMap_append,
      BoolExpr.diagnose_eq_nodes function m c, FieldExpr.diagnose_eq_nodes function m a,
      FieldExpr.diagnose_eq_nodes function m b]
    simp [Expr.diagnostic?, FieldExpr.refusal?]
  | .call f args => by
    rw [FieldExpr.diagnose, FieldExpr.nodes, List.filterMap_append, Expr.diagnoseAll_eq_nodes function m args]
    simp [Expr.diagnostic?, FieldExpr.refusal?]

theorem BoolExpr.diagnose_eq_nodes (function : Text) (m : Int) : ∀ e : BoolExpr,
    e.diagnose function m = e.nodes.filterMap (Expr.diagnostic? function m)
  | .value b => rfl
  | .ident x => rfl
  | .comparison op a b => by
    rw [BoolExpr.diagnose, BoolExpr.nodes, List.filterMap_append, List.filterMap_append,
      FieldExpr.diagnose_eq_nodes function m a, FieldExpr.diagnose_eq_nodes function m b]
    simp [Expr.diagnostic?]

theorem Expr.diagnose_eq_nodes (function : Text) (m : Int) : ∀ e : Expr,
    e.diagnose function m = e.nodes.filterMap (Expr.diagnostic? function m)
  | .field e => by rw [Expr.diagnose, Expr.nodes, FieldExpr.diagnose_eq_nodes function m e]
  | .bool e => by rw [Expr.diagnose, Expr.nodes, BoolExpr.diagnose_eq_nodes function m e]

theorem Expr.diagnoseAll_eq_nodes (function : Text) (m : Int) : ∀ es : List Expr,
    Expr.diagnoseAll function m es = (Expr.nodesAll es).filterMap (Expr.diagnostic? function m)
  | [] => rfl
  | e :: es => by
    rw [Expr.diagnoseAll, Expr.nodesAll, List.filterMap_append, Expr.diagnose_eq_nodes function m e,
      Expr.diagnoseAll_eq_nodes function m es]

end

mutual

theorem Stmt.diagnose_eq_nodes (function : Text) (m : Int) : ∀ s : Stmt,
    s.diagnose function m = s.nodes.filterMap (Expr.diagnostic? function m)
  | .declare v => rfl
  | .define v e => by rw [Stmt.diagnose, Stmt.nodes, Expr.diagnose_eq_nodes]
  | .defineMany vs l => by rw [Stmt.diagnose, Stmt.nodes, Expr.diagnoseAll_eq_nodes]
  | .ret es => by rw [Stmt.diagnose, Stmt.nodes, Expr.diagnoseAll_eq_nodes]
  | .require a b => by
    rw [Stmt.diagnose, Stmt.nodes, List.filterMap_append, Expr.diagnose_eq_nodes, Expr.diagnose_eq_nodes]
  | .loop index first last body => by rw [Stmt.diagnose, Stmt.nodes, Stmt.diagnoseAll_eq_nodes function m body]

theorem Stmt.diagnoseAll_eq_nodes (function : Text) (m : Int) : ∀ body : List Stmt,
    Stmt.diagnoseAll function m body = (Stmt.nodesAll body).filterMap (Expr.diagnostic? function m)
  | [] => rfl
  | s :: rest => by
    rw [Stmt.diagnoseAll, Stmt.nodesAll, List.filterMap_append, Stmt.diagnose_eq_nodes function m s,
      Stmt.diagnoseAll_eq_nodes function m rest]

end

section

variable {function : Text} {m m' : Int}

/-! ## Operations -/

theorem FieldExpr.refusal?_of_le (hm : m ≤ m') {e : FieldExpr} (h : e.refusal? m = none) :
    e.refusal? m' = none := by
  unfold refusal? at h ⊢
  split
  · exact h
  · simp only at h
    split at h
    · cases h
    · rw [if_neg (by omega)]
  · rfl

/-- Nothing that is left is refused under a higher limit if nothing was before. -/
theorem Stmt.diagnoseAll_of_le (hm : m ≤ m') {body : List Stmt} (h : Stmt.diagnoseAll function m body = []) :
    Stmt.diagnoseAll function m' body = [] := by
  rw [Stmt.diagnoseAll_eq_nodes, List.filterMap_eq_nil_iff] at h ⊢
  intro n hn
  have hnode := h n hn
  cases n with
  | field e =>
    rw [Expr.diagnostic?, Option.map_eq_none_iff] at hnode ⊢
    exact FieldExpr.refusal?_of_le hm hnode
  | bool e => rfl

/-- An operation that is not refused has the same result under a higher limit. -/
theorem ArithOp.rebuild_of_le (hm : m ≤ m') (op : ArithOp) {a b : FieldExpr}
    (h : (op.rebuild m a b).diagnose function m = []) : op.rebuild m' a b = op.rebuild m a b := by
  rcases FieldExpr.numbers_or_not a b with ⟨x, y, rfl, rfl⟩ | hn
  · rcases op.fold_eq m x y with ⟨v, hv, hresult, hnone⟩ | ⟨r, hr, hrefused⟩
    · rcases op.fold_eq m' x y with ⟨v', hv', hresult', -⟩ | ⟨r, -, hrefused⟩
      · rw [hresult] at hresult'
        cases hresult'
        simp only [rebuild, hv, hv']
      · rw [FieldExpr.refusal?_of_le hm hnone] at hrefused
        cases hrefused
    · simp [rebuild, hr, FieldExpr.diagnose, hrefused] at h
  · rw [(op.rebuild_of_not_number m hn).1, (op.rebuild_of_not_number m' hn).1]

theorem ArithOp.operands_of_rebuild (op : ArithOp) {a b : FieldExpr}
    (h : (op.rebuild m a b).diagnose function m = []) :
    a.diagnose function m = [] ∧ b.diagnose function m = [] := by
  obtain ⟨l, -, hd⟩ := Context.binary_eq (c := ⟨.empty, function, m⟩) op a b
  simp only [hd, List.append_eq_nil_iff] at h
  exact h.1

theorem BoolExpr.condition_of_select {c : BoolExpr} {a b : FieldExpr}
    (h : (c.select a b).diagnose function m = []) : c.diagnose function m = [] := by
  obtain ⟨l, -, hd⟩ := c.choose_eq function m a b
  rw [hd, List.append_eq_nil_iff] at h
  exact h.1

/-- Only the branches that are left of a choice matter. -/
theorem BoolExpr.select_congr {c : BoolExpr} {a a' b b' : FieldExpr}
    (h : (c.select a b).diagnose function m = []) (ha : a.diagnose function m = [] → a' = a)
    (hb : b.diagnose function m = [] → b' = b) : c.select a' b' = c.select a b := by
  have hkept : (FieldExpr.ifElse c a b).diagnose function m = [] →
      FieldExpr.ifElse c a' b' = .ifElse c a b := by
    intro hnone
    simp only [FieldExpr.diagnose, List.append_eq_nil_iff] at hnone
    rw [ha hnone.1.2, hb hnone.2]
  cases c with
  | value known =>
    cases known
    · exact hb h
    · exact ha h
  | ident x => exact hkept h
  | comparison op x y => exact hkept h

end

/-! ## Expressions -/

mutual

/-- An expression in which nothing is refused is folded in the same way under a higher limit. -/
theorem FieldExpr.fold_of_le {m m' : Int} (hm : m ≤ m') (function : Text) (κ : Store) : ∀ e : FieldExpr,
    (e.fold m κ).diagnose function m = [] → e.fold m' κ = e.fold m κ
  | .number v, _ => rfl
  | .ident x, _ => rfl
  | .binary op a b, h => by
    rw [FieldExpr.fold] at h ⊢
    obtain ⟨ha, hb⟩ := op.operands_of_rebuild h
    rw [FieldExpr.fold_of_le hm function κ a ha, FieldExpr.fold_of_le hm function κ b hb, FieldExpr.fold]
    exact op.rebuild_of_le hm h
  | .ifElse c a b, h => by
    rw [FieldExpr.fold] at h ⊢
    rw [BoolExpr.fold_of_le hm function κ c (BoolExpr.condition_of_select h), FieldExpr.fold]
    exact BoolExpr.select_congr h (FieldExpr.fold_of_le hm function κ a) (FieldExpr.fold_of_le hm function κ b)
  | .call f args, h => by
    rw [FieldExpr.fold, FieldExpr.diagnose] at h
    rw [FieldExpr.fold, Expr.foldAll_of_le hm function κ args h, FieldExpr.fold]

theorem BoolExpr.fold_of_le {m m' : Int} (hm : m ≤ m') (function : Text) (κ : Store) : ∀ e : BoolExpr,
    (e.fold m κ).diagnose function m = [] → e.fold m' κ = e.fold m κ
  | .value b, _ => rfl
  | .ident x, _ => rfl
  | .comparison op a b, h => by
    rw [BoolExpr.fold, op.diagnose_fold, List.append_eq_nil_iff] at h
    rw [BoolExpr.fold, FieldExpr.fold_of_le hm function κ a h.1, FieldExpr.fold_of_le hm function κ b h.2,
      BoolExpr.fold]

theorem Expr.fold_of_le {m m' : Int} (hm : m ≤ m') (function : Text) (κ : Store) : ∀ e : Expr,
    (e.fold m κ).diagnose function m = [] → e.fold m' κ = e.fold m κ
  | .field e, h => by
    rw [Expr.fold, Expr.diagnose] at h
    rw [Expr.fold, FieldExpr.fold_of_le hm function κ e h, Expr.fold]
  | .bool e, h => by
    rw [Expr.fold, Expr.diagnose] at h
    rw [Expr.fold, BoolExpr.fold_of_le hm function κ e h, Expr.fold]

theorem Expr.foldAll_of_le {m m' : Int} (hm : m ≤ m') (function : Text) (κ : Store) : ∀ es : List Expr,
    Expr.diagnoseAll function m (Expr.foldAll m κ es) = [] → Expr.foldAll m' κ es = Expr.foldAll m κ es
  | [], _ => rfl
  | e :: es, h => by
    rw [Expr.foldAll, Expr.diagnoseAll, List.append_eq_nil_iff] at h
    rw [Expr.foldAll, Expr.fold_of_le hm function κ e h.1, Expr.foldAll_of_le hm function κ es h.2, Expr.foldAll]

end

/-! ## Statements -/

section

variable {function : Text} {m m' : Int}

/-- If nothing is refused in what is kept of a statement, a higher limit changes neither that nor what is learnt. -/
theorem Stmt.fold_of_le (hm : m ≤ m') {k : Constants} {s : Stmt}
    (h : Stmt.diagnoseAll function m (s.fold m k).toList = []) :
    s.fold m' k = s.fold m k ∧ s.learn m' k = s.learn m k := by
  cases s with
  | declare v => exact ⟨rfl, rfl⟩
  | define v e =>
    -- a value that has become known holds no refused node, and one that is kept holds none by assumption
    have hvalue : (e.fold m k.known).diagnose function m = [] := by
      cases hv : v.known? (e.fold m k.known) with
      | some l => exact Expr.diagnose_of_known? hv function m
      | none => simpa [fold, hv, diagnoseAll, diagnose] using h
    simp only [fold, learn, Expr.fold_of_le hm function k.known e hvalue]
    exact ⟨trivial, trivial⟩
  | defineMany vs l =>
    have hargs : Expr.diagnoseAll function m (Expr.foldAll m k.known l.args) = [] := by
      simpa [fold, CallList.fold, diagnoseAll, diagnose] using h
    exact ⟨by simp only [fold, CallList.fold, Expr.foldAll_of_le hm function k.known l.args hargs], rfl⟩
  | ret es =>
    have hvalues : Expr.diagnoseAll function m (Expr.foldAll m k.known es) = [] := by
      simpa [fold, diagnoseAll, diagnose] using h
    exact ⟨by simp only [fold, Expr.foldAll_of_le hm function k.known es hvalues], rfl⟩
  | require a b =>
    have hsides : (a.fold m k.known).diagnose function m = [] ∧ (b.fold m k.known).diagnose function m = [] := by
      simpa [fold, diagnoseAll, diagnose] using h
    exact ⟨by simp only [fold, Expr.fold_of_le hm function k.known a hsides.1,
      Expr.fold_of_le hm function k.known b hsides.2], rfl⟩
  | loop index first last body => exact ⟨rfl, rfl⟩

theorem Stmt.foldAll_of_le (hm : m ≤ m') {k : Constants} {body : List Stmt}
    (h : Stmt.diagnoseAll function m (Stmt.foldAll m k body) = []) :
    Stmt.foldAll m' k body = Stmt.foldAll m k body := by
  induction body generalizing k with
  | nil => rfl
  | cons s rest ih =>
    rw [foldAll, Stmt.diagnoseAll_append, List.append_eq_nil_iff] at h
    obtain ⟨hfold, hlearn⟩ := Stmt.fold_of_le hm h.1
    rw [foldAll, hfold, hlearn, ih h.2, foldAll]

end

/-! ## Programs -/

theorem Func.fold_of_le {m m' : Int} (hm : m ≤ m') {function : Text} {f : Func}
    (h : (f.fold m).diagnose function m = []) :
    f.fold m' = f.fold m ∧ (f.fold m').diagnose function m' = [] := by
  have hfold : f.fold m' = f.fold m := by
    simp only [fold, Stmt.foldAll_of_le hm h]
  rw [hfold]
  exact ⟨rfl, Stmt.diagnoseAll_of_le hm h⟩

/-- **A higher limit changes no accepted program.**  It is accepted again, with the same result. -/
theorem Program.accepted_of_le {m m' : Int} (hm : m ≤ m') {p p' : Program}
    (h : p.propagate m = .ok (.accepted p')) : p.propagate m' = .ok (.accepted p') := by
  have hp := Program.loopFree_of_ok h
  rw [Program.propagate_eq m hp] at h
  split at h
  · rename_i hnone
    have hf : ∀ f ∈ p.functions, (f.fold m).diagnose f.name m = [] := fun f hf =>
      List.flatMap_eq_nil_iff.1 hnone (f.fold m) (List.mem_map_of_mem hf)
    have hfunctions : p.functions.map (Func.fold m') = p.functions.map (Func.fold m) :=
      List.map_congr_left fun f hmem => (Func.fold_of_le hm (hf f hmem)).1
    have hfold : p.fold m' = p.fold m := by
      simp only [fold, hfunctions]
    have hnone' : (p.fold m').functions.flatMap (fun f => f.diagnose f.name m') = [] := by
      rw [List.flatMap_eq_nil_iff]
      intro g hg
      obtain ⟨f, hmem, rfl⟩ := List.mem_map.1 hg
      exact (Func.fold_of_le hm (hf f hmem)).2
    rw [Program.propagate_eq m' hp, if_pos hnone', hfold]
    exact h
  · cases h

/-- `x = 2 ** 3; y = if x == 8 then a * x else 2 ** 60; return y + x`: the second power is beyond a limit of 3,
in a branch that is not chosen. -/
def modest : Program where
  functions :=
    [{ name := "main", parameters := [⟨"a", .field⟩], returnKinds := [.field]
       statements :=
        [.define ⟨"x", .field⟩ (.field (.binary .pow (.number (.ofNat 2)) (.number (.ofNat 3)))),
          .define ⟨"y", .field⟩ (.field (.ifElse (.comparison .eq (.ident "x") (.number (.ofNat 8)))
            (.binary .mul (.ident "a") (.ident "x")) (.binary .pow (.number (.ofNat 2)) (.number (.ofNat 60))))),
          .ret [.field (.binary .add (.ident "y") (.ident "x"))]] }]

def modestPropagated : Program where
  functions :=
    [{ name := "main", parameters := [⟨"a", .field⟩], returnKinds := [.field]
       statements :=
        [.define ⟨"y", .field⟩ (.field (.binary .mul (.ident "a") (.number (.ofNat 8)))),
          .ret [.field (.binary .add (.ident "y") (.number (.ofNat 8)))]] }]

theorem modest_accepted :
    modest.propagate 3 = .ok (.accepted modestPropagated) ∧ modest.propagate 64 = .ok (.accepted modestPropagated) :=
  ⟨rfl, Program.accepted_of_le (by decide : (3 : Int) ≤ 64) rfl⟩

end ConstFold
