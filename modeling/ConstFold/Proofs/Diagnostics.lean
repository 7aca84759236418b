import ConstFold.Proofs.Fold

/-!
# What is reported is what is left

Diagnostics and refused nodes are the same thing seen twice.  Propagation in a function lists a diagnostic for
each refused node of its result, in the order in which a reader meets them, and nothing else: what was said of
a branch not chosen or of a definition dropped is gone with it.  A program is rejected with the lists of its
functions, one after the other, exactly if one of them is not empty (`Program.errors_exact`).
-/

namespace ConstFold

/-- A diagnostic that is right: it names the function, its node is one that must not be carried out, and its
wording says so and shows the node. -/
def Diagnostic.Justified (function : Text) (m : Int) (d : Diagnostic) : Prop :=
  d.function = function ∧
    ((∃ a b, d.node = .binary .div (.number a) (.number b) ∧ b = 0 ∧ d.refusal.name = "DivisionByZero" ∧
        d.reason = "Divisor of `" ++ d.node.text ++ "` is zero.") ∨
      ∃ a b, d.node = .binary .pow (.number a) (.number b) ∧ m < b.val ∧
        d.refusal.name = "ExponentOutOfBounds" ∧
        d.reason = "Exponent of `" ++ d.node.text ++ "` exceeds the maximum exponent " ++ toString m ++ ".")

/-! ## Lemmas -/

theorem Scalar.eq_zero_of_val {a : Scalar} (h : a.val = 0) : a = 0 := by
  obtain ⟨n, hn⟩ := a
  subst h
  rfl

theorem Diagnostic.justified_of_refusal? {function : Text} {m : Int} {node : FieldExpr} {r : Refusal}
    (h : node.refusal? m = some r) : Justified function m ⟨function, node, r⟩ := by
  unfold FieldExpr.refusal? at h
  split at h
  · rename_i a b
    split at h
    · rename_i hb
      cases h
      exact ⟨rfl, .inl ⟨a, b, rfl, Scalar.eq_zero_of_val hb, rfl, rfl⟩⟩
    · cases h
  · rename_i a b
    split at h
    · rename_i hb
      cases h
      exact ⟨rfl, .inr ⟨a, b, rfl, hb, rfl, rfl⟩⟩
    · cases h
  · cases h

section

variable {function : Text} {m : Int} {d : Diagnostic}

mutual

theorem FieldExpr.justified_of_mem :
    ∀ e : FieldExpr, d ∈ e.diagnose function m → d.Justified function m
  | .number v, h => by simp [FieldExpr.diagnose] at h
  | .ident x, h => by simp [FieldExpr.diagnose] at h
  | .binary op a b, h => by
    rw [FieldExpr.diagnose, List.mem_append, List.mem_append, List.mem_map] at h
    rcases h with (h | h) | ⟨r, hr, rfl⟩
    · exact FieldExpr.justified_of_mem a h
    · exact FieldExpr.justified_of_mem b h
    · exact Diagnostic.justified_of_refusal? (Option.mem_toList.1 hr)
  | .ifElse c a b, h => by
    rw [FieldExpr.diagnose, List.mem_append, List.mem_append] at h
    rcases h with (h | h) | h
    · exact BoolExpr.justified_of_mem c h
    · exact FieldExpr.justified_of_mem a h
    · exact FieldExpr.justified_of_mem b h
  | .call f args, h => by
    rw [FieldExpr.diagnose] at h
    exact Expr.justified_of_mem_all args h

theorem BoolExpr.justified_of_mem :
    ∀ e : BoolExpr, d ∈ e.diagnose function m → d.Justified function m
  | .value b, h => by simp [BoolExpr.diagnose] at h
  | .ident x, h => by simp [BoolExpr.diagnose] at h
  | .comparison op a b, h => by
    rw [BoolExpr.diagnose, List.mem_append] at h
    rcases h with h | h
    · exact FieldExpr.justified_of_mem a h
    · exact FieldExpr.justified_of_mem b h

theorem Expr.justified_of_mem : ∀ e : Expr, d ∈ e.diagnose function m → d.Justified function m
  | .field e, h => by
    rw [Expr.diagnose] at h
    exact FieldExpr.justified_of_mem e h
  | .bool e, h => by
    rw [Expr.diagnose] at h
    exact BoolExpr.justified_of_mem e h

theorem Expr.justified_of_mem_all :
    ∀ es : List Expr, d ∈ Expr.diagnoseAll function m es → d.Justified function m
  | [], h => by simp [Expr.diagnoseAll] at h
  | e :: es, h => by
    rw [Expr.diagnoseAll, List.mem_append] at h
    rcases h with h | h
    · exact Expr.justified_of_mem e h
    · exact Expr.justified_of_mem_all es h

end

mutual

theorem Stmt.justified_of_mem : ∀ s : Stmt, d ∈ s.diagnose function m → d.Justified function m
  | .declare v, h => by simp [Stmt.diagnose] at h
  | .define v e, h => by
    rw [Stmt.diagnose] at h
    exact Expr.justified_of_mem e h
  | .defineMany vs l, h => by
    rw [Stmt.diagnose] at h
    exact Expr.justified_of_mem_all l.args h
  | .ret es, h => by
    rw [Stmt.diagnose] at h
    exact Expr.justified_of_mem_all es h
  | .require a b, h => by
    rw [Stmt.diagnose, List.mem_append] at h
    rcases h with h | h
    · exact Expr.justified_of_mem a h
    · exact Expr.justified_of_mem b h
  | .loop index first last body, h => by
    rw [Stmt.diagnose] at h
    exact Stmt.justified_of_mem_all body h

theorem Stmt.justified_of_mem_all :
    ∀ body : List Stmt, d ∈ Stmt.diagnoseAll function m body → d.Justified function m
  | [], h => by simp [Stmt.diagnoseAll] at h
  | s :: rest, h => by
    rw [Stmt.diagnoseAll, List.mem_append] at h
    rcases h with h | h
    · exact Stmt.justified_of_mem s h
    · exact Stmt.justified_of_mem_all rest h

end

end

/-! ## Top theorem -/

/-- **Errors are exact.**  Without loops, propagation in a function lists exactly the diagnostics of its
result; a program is rejected with those of all its functions in the order of declaration, each under its
function's own name, if there are any, and accepted with these functions if there are none. -/
theorem Program.errors_exact (m : Int) :
    (∀ (name : Text) (f : Func), f.LoopFree →
      ∃ f', f.propagate name m = ⟨.ok f', f'.diagnose name m⟩ ∧
        ∀ d ∈ f'.diagnose name m, d.Justified name m) ∧
    ∀ p : Program, p.LoopFree →
      ∃ functions, p.functions.map (fun f => (f.propagate f.name m).outcome) = functions.map .ok ∧
        (∀ errors, p.propagate m = .ok (.rejected errors) ↔
          errors = functions.flatMap (fun f => f.diagnose f.name m) ∧
            ∃ f ∈ functions, f.diagnose f.name m ≠ []) ∧
        ∀ new, p.propagate m = .ok (.accepted new) ↔
          new = { p with functions } ∧ ∀ f ∈ functions, f.diagnose f.name m = [] := by
  constructor
  · intro name f hf
    exact ⟨f.fold m, Func.propagate_eq name m hf, fun d hd => Stmt.justified_of_mem_all _ hd⟩
  · intro p hp
    refine ⟨p.functions.map (Func.fold m), ?_, fun errors => ?_, fun new => ?_⟩
    · rw [List.map_map]
      refine List.map_congr_left fun f hf => ?_
      rw [Func.propagate_eq f.name m (hp f hf)]
      rfl
    · rw [Program.propagate_eq m hp]
      constructor
      · intro h
        split at h
        · cases h
        · rename_i hne
          cases h
          refine ⟨rfl, Classical.byContradiction fun hnone => hne ?_⟩
          refine List.flatMap_eq_nil_iff.2 fun f hf => Classical.byContradiction fun hd => ?_
          exact hnone ⟨f, hf, hd⟩
      · rintro ⟨rfl, f, hf, hd⟩
        have hne : (p.fold m).functions.flatMap (fun f => f.diagnose f.name m) ≠ [] :=
          fun hnil => hd (List.flatMap_eq_nil_iff.1 hnil f hf)
        rw [if_neg hne]
        rfl
    · rw [Program.propagate_eq m hp]
      constructor
      · intro h
        split at h
        · rename_i hnil
          cases h
          exact ⟨rfl, List.flatMap_eq_nil_iff.1 hnil⟩
        · cases h
      · rintro ⟨rfl, hall⟩
        have hnil : (p.fold m).functions.flatMap (fun f => f.diagnose f.name m) = [] :=
          List.flatMap_eq_nil_iff.2 hall
        rw [if_pos hnil]
        rfl

/-- `return (1 / 0) + (2 ** 65), if b then 0 / 0 else x`, where nothing is known. -/
def refusing : Func where
  name := "main"
  parameters := [⟨"b", .bool⟩, ⟨"x", .field⟩]
  returnKinds := [.field, .field]
  statements :=
    [.ret [.field (.binary .add (.binary .div (.number (.ofNat 1)) (.number (.ofNat 0)))
        (.binary .pow (.number (.ofNat 2)) (.number (.ofNat 65)))),
      .field (.ifElse (.ident "b") (.binary .div (.number (.ofNat 0)) (.number (.ofNat 0))) (.ident "x"))]]

theorem refusing_errors_exact :
    refusing.LoopFree ∧
      ∃ f', refusing.propagate "main" 64 = ⟨.ok f', f'.diagnose "main" 64⟩ ∧
        ∀ d ∈ f'.diagnose "main" 64, d.Justified "main" 64 :=
  ⟨by decide, (Program.errors_exact 64).1 "main" refusing (by decide)⟩

example : (refusing.diagnose "main" 64).map Diagnostic.reason =
    (["Divisor of `(1 / 0)` is zero.", "Exponent of `(2 ** 65)` exceeds the maximum exponent 64.",
      "Divisor of `(0 / 0)` is zero."] : List Text) := by
  decide +kernel

end ConstFold
