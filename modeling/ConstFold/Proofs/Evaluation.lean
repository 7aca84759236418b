import ConstFold.Proofs.Field
import ConstFold.Proofs.Meaning

/-!
# Propagation as evaluation

Two things are said of what propagation makes of an expression.

It is worth what the expression is worth, in every store that holds the known constants and under every meaning
of calls, whether something is refused on the way or not (`Expr.eval_propagate`).

If all variables of the expression are known and nothing is called, there is nothing left to do.  The
expression has a value of its own, computed here with residues (`FieldExpr.value?`), and propagation gives the
literal of that value; or it has none, and then propagation gives no literal and says why
(`Expr.propagate_constant_iff`).
-/

namespace ConstFold

/-! ## Values are kept -/

/-- A store that holds all that is known can stand for itself. -/
theorem Constants.WellKinded.standsFor {k : Constants} (hk : k.WellKinded) {σ : Store}
    (hσ : ∀ v l, k.find? v = some l → σ.get? v = some l) : k.known.StandsFor σ σ where
  known v l h := by
    rw [hk.get?_known] at h
    exact hσ v l h
  other _ _ := rfl

/-- **Propagation keeps the value of expressions.**  With constants of their variables' kinds it always gives
an expression, and this one is worth the same as before, or nothing like it, whatever was listed. -/
theorem Expr.eval_propagate (c : Context) (hc : c.constants.WellKinded) (calls : Calls) (σ : Store)
    (hσ : ∀ v l, c.constants.find? v = some l → σ.get? v = some l) (e : Expr) :
    ∃ e' listed, e.propagate c = ⟨.ok e', listed⟩ ∧ e'.eval calls σ = e.eval calls σ := by
  have hstands : c.constants.known.StandsFor σ σ := hc.standsFor hσ
  refine ⟨_, _, Expr.propagate_eq hc e, ?_⟩
  exact Expr.eval_fold c.maximumExponent calls hstands e

/-- `x` is 5 and `b` is true. -/
def fiveAndTrue : Context where
  constants := (Constants.bind .empty ⟨"x", .field⟩ (.field (.ofNat 5))).bind ⟨"b", .bool⟩ (.bool true)
  function := "main"
  maximumExponent := 64

theorem wellKinded_fiveAndTrue : fiveAndTrue.constants.WellKinded :=
  (Constants.wellKinded_empty.bind rfl).bind rfl

/-- Holds 5 in `x`, and true in `b` and in `u`, of which nothing is known. -/
def fiveAndTrueStore : Store where
  field x := if x = "x" then some (.ofNat 5) else none
  bool x := if x = "b" ∨ x = "u" then some true else none

theorem holds_fiveAndTrue (v : Variable) (l : Literal) (h : fiveAndTrue.constants.find? v = some l) :
    fiveAndTrueStore.get? v = some l := by
  rw [fiveAndTrue, Constants.find?_bind, Constants.find?_bind] at h
  split at h
  · rename_i hv
    cases hv
    exact h
  · split at h
    · rename_i hv
      cases hv
      exact h
    · cases h

/-- `if u then double(x + 1) else 1 / 0` -/
def doubleOrFail : Expr :=
  .field (.ifElse (.ident "u") (.call "double" [.field (.binary .add (.ident "x") (.number (.ofNat 1)))])
    (.binary .div (.number (.ofNat 1)) (.number (.ofNat 0))))

/-- Doubles the first argument, whatever is called. -/
def doubleCalls : Calls
  | _, .field a :: _ => some [.field (a + a)]
  | _, _ => none

theorem doubleOrFail_eval :
    (∃ e' listed, doubleOrFail.propagate fiveAndTrue = ⟨.ok e', listed⟩ ∧
      e'.eval doubleCalls fiveAndTrueStore = doubleOrFail.eval doubleCalls fiveAndTrueStore) ∧
      (doubleOrFail.propagate fiveAndTrue).diagnostics.map Diagnostic.reason =
        (["Divisor of `(1 / 0)` is zero."] : List Text) ∧
      doubleOrFail.eval doubleCalls fiveAndTrueStore = some (.field (.ofNat 12)) :=
  ⟨Expr.eval_propagate fiveAndTrue wellKinded_fiveAndTrue doubleCalls fiveAndTrueStore holds_fiveAndTrue
    doubleOrFail, by decide +kernel, by decide +kernel⟩

/-! ## Constant expressions -/

mutual

/-- Nothing is called. -/
def FieldExpr.callFree : FieldExpr → Bool
  | .number _ => true
  | .ident _ => true
  | .binary _ a b => a.callFree && b.callFree
  | .ifElse c a b => c.callFree && a.callFree && b.callFree
  | .call _ _ => false

def BoolExpr.callFree : BoolExpr → Bool
  | .value _ => true
  | .ident _ => true
  | .comparison _ a b => a.callFree && b.callFree

end

def Expr.callFree : Expr → Bool
  | .field e => e.callFree
  | .bool e => e.callFree

/-! ## Values of constant expressions -/

/-- The operation on residues.  There is no quotient by zero, and no power whose exponent is beyond the limit. -/
def ArithOp.onResidues? (m : Int) : ArithOp → ZMod modulus → ZMod modulus → Option (ZMod modulus)
  | .add, x, y => some (x + y)
  | .sub, x, y => some (x - y)
  | .mul, x, y => some (x * y)
  | .div, x, y => if y = 0 then none else some (x / y)
  | .pow, x, y => if m < y.val then none else some (x ^ y.val)

/-- The comparison of the least representatives of two residues. -/
def CompareOp.onResidues : CompareOp → ZMod modulus → ZMod modulus → Bool
  | .eq, x, y => decide (x = y)
  | .lt, x, y => decide (x.val < y.val)
  | .le, x, y => decide (x.val ≤ y.val)
  | .gt, x, y => decide (x.val > y.val)
  | .ge, x, y => decide (x.val ≥ y.val)

mutual

/-- The value of an expression without calls where `κ` is known.  Operands are needed both, branches only as
chosen. -/
def FieldExpr.value? (m : Int) (κ : Store) : FieldExpr → Option (ZMod modulus)
  | .number v => some v.residue
  | .ident x => (κ.field x).map Scalar.residue
  | .binary op a b => do
    let x ← a.value? m κ
    let y ← b.value? m κ
    op.onResidues? m x y
  | .ifElse c a b => do
    if ← c.value? m κ then a.value? m κ else b.value? m κ
  | .call _ _ => none

def BoolExpr.value? (m : Int) (κ : Store) : BoolExpr → Option Bool
  | .value b => some b
  | .ident x => κ.bool x
  | .comparison op a b => do
    let x ← a.value? m κ
    let y ← b.value? m κ
    return op.onResidues x y

end

/-- The value of an expression of either kind. -/
def Expr.value? (m : Int) (κ : Store) : Expr → Option (ZMod modulus ⊕ Bool)
  | .field e => (e.value? m κ).map .inl
  | .bool e => (e.value? m κ).map .inr

/-- The value that a literal denotes. -/
def Literal.meaning : Literal → ZMod modulus ⊕ Bool
  | .field v => .inl v.residue
  | .bool b => .inr b

/-! ## Operations on literals -/

theorem ArithOp.map_residue_result (op : ArithOp) (m : Int) (a b : Scalar) (h : op.exceeds m b = false) :
    Option.map Scalar.residue (op.result? a b) = op.onResidues? m a.residue b.residue := by
  cases op with
  | add => exact congrArg some (Scalar.residue_add a b)
  | sub => exact congrArg some (Scalar.residue_sub a b)
  | mul => exact congrArg some (Scalar.residue_mul a b)
  | div =>
    obtain ⟨r, hr, hres⟩ := Scalar.exists_quotient a b
    rw [result?, perform, hr]
    exact hres
  | pow =>
    have hm : ¬ m < b.val := by simpa [exceeds] using h
    have hresult : ArithOp.pow.result? a b = some (a ^ b.val) := rfl
    simp [onResidues?, hresult, hm]

theorem ArithOp.onResidues?_of_exceeds {op : ArithOp} {m : Int} {b : Scalar} (h : op.exceeds m b = true)
    (x : ZMod modulus) : op.onResidues? m x b.residue = none := by
  unfold exceeds at h
  rw [Bool.and_eq_true, beq_iff_eq, decide_eq_true_eq] at h
  obtain ⟨rfl, hm⟩ := h
  simp [onResidues?, hm]

/-- An operation on literals gives the literal of the operation's result on residues, if that exists. -/
theorem ArithOp.fold_toOption (op : ArithOp) (m : Int) (a b : Scalar) :
    ((op.fold m a b).toOption.bind Except.toOption).map Scalar.residue =
      op.onResidues? m a.residue b.residue := by
  rw [fold, perform_eq]
  cases h : op.exceeds m b with
  | true =>
    rw [ArithOp.onResidues?_of_exceeds h]
    rfl
  | false =>
    rw [← ArithOp.map_residue_result op m a b h]
    cases op.result? a b <;> rfl

theorem CompareOp.onResidues_residue (op : CompareOp) (a b : Scalar) :
    op.onResidues a.residue b.residue = op.holds a b := by
  cases op with
  | eq =>
    show decide (a.residue = b.residue) = (a == b)
    by_cases h : a = b
    · simp [h]
    · have hne : a.residue ≠ b.residue := fun hr => h (Scalar.residue_injective hr)
      simp [h, hne]
  | lt => simp only [onResidues, holds, Scalar.val_residue]; rfl
  | le => simp only [onResidues, holds, Scalar.val_residue]; rfl
  | gt => simp only [onResidues, holds, Scalar.val_residue]; rfl
  | ge => simp only [onResidues, holds, Scalar.val_residue]; rfl

/-! ## Settled expressions -/

section

variable (function : Text) (m : Int)

/-- An expression is the literal of a value, or there is no value and the expression holds a refused node. -/
inductive FieldExpr.Settled : FieldExpr → Option (ZMod modulus) → Prop
  | literal (v : Scalar) : Settled (.number v) (some v.residue)
  | refused {e : FieldExpr} : (∀ v, e ≠ .number v) → e.diagnose function m ≠ [] → Settled e none

/-- Likewise for truth values. -/
inductive BoolExpr.Settled : BoolExpr → Option Bool → Prop
  | literal (b : Bool) : Settled (.value b) (some b)
  | refused {e : BoolExpr} : (∀ b, e ≠ .value b) → e.diagnose function m ≠ [] → Settled e none

end

variable {function : Text} {m : Int}

/-- An operation on operands of which one is refused is not carried out, and holds the refused node. -/
theorem ArithOp.settled_of_refused (op : ArithOp) {a b : FieldExpr}
    (hn : ∀ x y, ¬ (a = .number x ∧ b = .number y))
    (hd : a.diagnose function m ++ b.diagnose function m ≠ []) :
    FieldExpr.Settled function m (op.rebuild m a b) none := by
  obtain ⟨he, hr⟩ := op.rebuild_of_not_number m hn
  rw [he]
  apply FieldExpr.Settled.refused
  · intro v hv
    cases hv
  · rw [FieldExpr.diagnose, hr]
    simpa using hd

theorem ArithOp.settled_rebuild (op : ArithOp) {a b : FieldExpr} {x y : Option (ZMod modulus)}
    (ha : a.Settled function m x) (hb : b.Settled function m y) :
    (op.rebuild m a b).Settled function m (x.bind fun x => y.bind fun y => op.onResidues? m x y) := by
  cases ha with
  | refused hna hda =>
    exact op.settled_of_refused (fun u _ h => hna u h.1) (by simp [hda])
  | literal u =>
    cases hb with
    | refused hnb hdb =>
      exact op.settled_of_refused (fun _ w h => hnb w h.2) (by simp [hdb])
    | literal w =>
      have hres := op.fold_toOption m u w
      simp only [Option.bind_some, rebuild, ← hres]
      rcases op.fold_eq m u w with ⟨v, hf, -, -⟩ | ⟨r, hf, hr⟩
      · rw [hf]
        exact .literal v
      · rw [hf]
        apply FieldExpr.Settled.refused
        · intro v hv
          cases hv
        · simp [FieldExpr.diagnose, hr]

/-- Nor is a comparison of such operands. -/
theorem CompareOp.settled_of_refused (op : CompareOp) {a b : FieldExpr}
    (hn : ∀ x y, ¬ (a = .number x ∧ b = .number y))
    (hd : a.diagnose function m ++ b.diagnose function m ≠ []) :
    BoolExpr.Settled function m (op.fold a b) none := by
  apply BoolExpr.Settled.refused
  · intro known hk
    unfold fold at hk
    split at hk
    · exact hn _ _ ⟨rfl, rfl⟩
    · cases hk
  · rw [op.diagnose_fold]
    exact hd

theorem CompareOp.settled_fold (op : CompareOp) {a b : FieldExpr} {x y : Option (ZMod modulus)}
    (ha : a.Settled function m x) (hb : b.Settled function m y) :
    (op.fold a b).Settled function m (x.bind fun x => y.bind fun y => some (op.onResidues x y)) := by
  cases ha with
  | refused hna hda =>
    exact op.settled_of_refused (fun u _ h => hna u h.1) (by simp [hda])
  | literal u =>
    cases hb with
    | refused hnb hdb =>
      exact op.settled_of_refused (fun _ w h => hnb w h.2) (by simp [hdb])
    | literal w =>
      simp only [Option.bind_some, CompareOp.onResidues_residue]
      exact .literal _

theorem BoolExpr.settled_select {c : BoolExpr} {z : Option Bool} {a b : FieldExpr} {x y : Option (ZMod modulus)}
    (hc : c.Settled function m z) (ha : a.Settled function m x) (hb : b.Settled function m y) :
    (c.select a b).Settled function m (z.bind fun z => if z then x else y) := by
  cases hc with
  -- the branch not chosen is gone, and what was refused in it
  | literal known => cases known <;> simpa [select]
  | refused hn hd =>
    have hkept : c.select a b = .ifElse c a b := by
      unfold select
      split
      · exact absurd rfl (hn true)
      · exact absurd rfl (hn false)
      · rfl
    rw [hkept]
    apply FieldExpr.Settled.refused
    · intro v hv
      cases hv
    · simp [FieldExpr.diagnose, hd]

mutual

/-- Where all variables are known, the fold of an expression without calls is settled. -/
theorem FieldExpr.settled_fold (function : Text) (m : Int) {κ : Store} : ∀ e : FieldExpr, e.callFree = true →
    (∀ v ∈ e.reads, (κ.get? v).isSome) → (e.fold m κ).Settled function m (e.value? m κ)
  | .number v, _, _ => .literal v
  | .ident x, _, hknown => by
    have hx := hknown ⟨x, .field⟩ (by simp [FieldExpr.reads])
    rw [FieldExpr.fold, FieldExpr.value?]
    cases h : κ.field x with
    | none => simp [Store.get?, h] at hx
    | some a => exact .literal a
  | .binary op a b, hfree, hknown => by
    rw [FieldExpr.callFree, Bool.and_eq_true] at hfree
    rw [FieldExpr.reads, List.forall_mem_append] at hknown
    rw [FieldExpr.fold, FieldExpr.value?]
    exact op.settled_rebuild (FieldExpr.settled_fold function m a hfree.1 hknown.1)
      (FieldExpr.settled_fold function m b hfree.2 hknown.2)
  | .ifElse c a b, hfree, hknown => by
    rw [FieldExpr.callFree, Bool.and_eq_true, Bool.and_eq_true] at hfree
    rw [FieldExpr.reads, List.forall_mem_append, List.forall_mem_append] at hknown
    rw [FieldExpr.fold, FieldExpr.value?]
    exact BoolExpr.settled_select (BoolExpr.settled_fold function m c hfree.1.1 hknown.1)
      (FieldExpr.settled_fold function m a hfree.1.2 hknown.2.1)
      (FieldExpr.settled_fold function m b hfree.2 hknown.2.2)
  | .call _ _, hfree, _ => by cases hfree

theorem BoolExpr.settled_fold (function : Text) (m : Int) {κ : Store} : ∀ e : BoolExpr, e.callFree = true →
    (∀ v ∈ e.reads, (κ.get? v).isSome) → (e.fold m κ).Settled function m (e.value? m κ)
  | .value b, _, _ => .literal b
  | .ident x, _, hknown => by
    have hx := hknown ⟨x, .bool⟩ (by simp [BoolExpr.reads])
    rw [BoolExpr.fold, BoolExpr.value?]
    cases h : κ.bool x with
    | none => simp [Store.get?, h] at hx
    | some a => exact .literal a
  | .comparison op a b, hfree, hknown => by
    rw [BoolExpr.callFree, Bool.and_eq_true] at hfree
    rw [BoolExpr.reads, List.forall_mem_append] at hknown
    rw [BoolExpr.fold, BoolExpr.value?]
    exact op.settled_fold (FieldExpr.settled_fold function m a hfree.1 hknown.1)
      (FieldExpr.settled_fold function m b hfree.2 hknown.2)

end

theorem Literal.meaning_injective : Function.Injective Literal.meaning := by
  intro l l' h
  cases l with
  | field v =>
    cases l' with
    | field w => rw [Scalar.residue_injective (Sum.inl.inj h)]
    | bool b => cases h
  | bool b =>
    cases l' with
    | field w => cases h
    | bool b' => rw [Sum.inr.inj h]

/-- The fold of a constant expression is the literal of its value, or there is none and the reason is left. -/
theorem Expr.settled_fold (function : Text) (m : Int) {κ : Store} {e : Expr} (hfree : e.callFree = true)
    (hknown : ∀ v ∈ e.reads, (κ.get? v).isSome) :
    (∃ l : Literal, (e.fold m κ).literal? = some l ∧ e.value? m κ = some l.meaning) ∨
      (e.fold m κ).literal? = none ∧ (e.fold m κ).diagnose function m ≠ [] ∧ e.value? m κ = none := by
  cases e with
  | field e =>
    have hsettled := FieldExpr.settled_fold function m e hfree hknown
    rw [Expr.fold, Expr.value?, Expr.diagnose]
    generalize e.fold m κ = e', e.value? m κ = x at hsettled
    cases hsettled with
    | literal v => exact .inl ⟨.field v, rfl, rfl⟩
    | refused hn hd =>
      refine .inr ⟨?_, hd, rfl⟩
      cases e' with
      | number v => exact absurd rfl (hn v)
      | _ => rfl
  | bool e =>
    have hsettled := BoolExpr.settled_fold function m e hfree hknown
    rw [Expr.fold, Expr.value?, Expr.diagnose]
    generalize e.fold m κ = e', e.value? m κ = x at hsettled
    cases hsettled with
    | literal b => exact .inl ⟨.bool b, rfl, rfl⟩
    | refused hn hd =>
      refine .inr ⟨?_, hd, rfl⟩
      cases e' with
      | value b => exact absurd rfl (hn b)
      | _ => rfl

/-- With a literal nothing is listed. -/
theorem Expr.propagate_eq_literal_iff {c : Context} (hc : c.constants.WellKinded) (e : Expr) (l : Literal) :
    e.propagate c = ⟨.ok l.toExpr, []⟩ ↔
      (e.fold c.maximumExponent c.constants.known).literal? = some l := by
  rw [Expr.propagate_eq hc, Expr.literal?_eq_some_iff]
  constructor
  · intro h
    exact Except.ok.inj (congrArg Report.outcome h)
  · intro h
    rw [h]
    cases l <;> rfl

/-- **Constant expressions are evaluated.**  If nothing is called and all variables are known, propagation gives
a literal and lists nothing exactly if the literal is the value of the expression; and it gives something other
than a literal, with a diagnostic, exactly if there is no value. -/
theorem Expr.propagate_constant_iff (c : Context) (hc : c.constants.WellKinded) (e : Expr)
    (hfree : e.callFree = true) (hbound : ∀ v ∈ e.reads, (c.constants.find? v).isSome) :
    (∀ l : Literal, e.propagate c = ⟨.ok l.toExpr, []⟩ ↔
      e.value? c.maximumExponent c.constants.known = some l.meaning) ∧
    ((∃ e' listed, e.propagate c = ⟨.ok e', listed⟩ ∧ e'.literal? = none ∧ listed ≠ []) ↔
      e.value? c.maximumExponent c.constants.known = none) := by
  have hknown : ∀ v ∈ e.reads, (c.constants.known.get? v).isSome := by
    intro v hv
    rw [hc.get?_known]
    exact hbound v hv
  have hpropagate := Expr.propagate_eq hc e
  -- a literal or a reason, and never both: each case decides both equivalences
  rcases Expr.settled_fold c.function c.maximumExponent hfree hknown with
    ⟨l, hfold, hvalue⟩ | ⟨hfold, hdiag, hvalue⟩
  · constructor
    · intro l'
      rw [Expr.propagate_eq_literal_iff hc, hfold, hvalue, Option.some_inj, Option.some_inj,
        Literal.meaning_injective.eq_iff]
    · constructor
      · rintro ⟨e', listed, h, hlit, -⟩
        rw [hpropagate] at h
        cases h
        rw [hfold] at hlit
        cases hlit
      · intro h
        rw [hvalue] at h
        cases h
  · constructor
    · intro l
      rw [Expr.propagate_eq_literal_iff hc, hfold, hvalue]
      simp
    · exact ⟨fun _ => hvalue, fun _ => ⟨_, _, hpropagate, hfold, hdiag⟩⟩

/-- `if b then x ** 3 - 10 / x else 2 ** 65` -/
def cubeOrBeyond : Expr :=
  .field (.ifElse (.ident "b")
    (.binary .sub (.binary .pow (.ident "x") (.number (.ofNat 3))) (.binary .div (.number (.ofNat 10)) (.ident "x")))
    (.binary .pow (.number (.ofNat 2)) (.number (.ofNat 65))))

theorem cubeOrBeyond_constant :
    cubeOrBeyond.callFree = true ∧ (∀ v ∈ cubeOrBeyond.reads, (fiveAndTrue.constants.find? v).isSome) ∧
      cubeOrBeyond.propagate fiveAndTrue = ⟨.ok (Literal.field (.ofNat 123)).toExpr, []⟩ ∧
      cubeOrBeyond.value? 64 fiveAndTrue.constants.known = some (Literal.field (.ofNat 123)).meaning := by
  have h : cubeOrBeyond.propagate fiveAndTrue = ⟨.ok (Literal.field (.ofNat 123)).toExpr, []⟩ :=
    (Expr.propagate_eq_literal_iff wellKinded_fiveAndTrue _ _).2 (by decide +kernel)
  exact ⟨rfl, by decide, h, ((Expr.propagate_constant_iff fiveAndTrue wellKinded_fiveAndTrue cubeOrBeyond rfl
    (by decide)).1 _).1 h⟩

end ConstFold
