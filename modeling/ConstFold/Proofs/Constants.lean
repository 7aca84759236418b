import ConstFold.Proofs.Texts
import ConstFold.Propagation
import ConstFold.Semantics

/-!
# Constants as a map on variables

Constants are filed under labels, and no two variables share one (`Variable.key_injective`), so binding a
variable changes what is found for it and for no other (`Table.get?_set_key`, `Constants.find?_bind`).

Constants that are all of their variables' kinds are `WellKinded`.  They hold no more than a partial store,
`Constants.known`, and that store is what the propagation of expressions depends on.  The variables that an
expression reads are listed by `Expr.reads`.
-/

namespace ConstFold

/-! ## Keys -/

theorem Variable.label_injective {v w : Variable} (h : v.label = w.label) : v = w := by
  obtain ⟨x, k⟩ := v
  obtain ⟨y, l⟩ := w
  have hne : some ('f' : CodeUnit) ≠ some ('b' : CodeUnit) := by decide
  cases k with
  | field =>
    cases l with
    | field => exact congrArg (Variable.mk · .field) (Text.append_left_cancel h)
    | bool => exact absurd (congrArg (·.units.head?) h) hne
  | bool =>
    cases l with
    | field => exact absurd (congrArg (·.units.head?) h) hne.symm
    | bool => exact congrArg (Variable.mk · .bool) (Text.append_left_cancel h)

theorem Variable.key_injective {v w : Variable} (h : v.key = w.key) : v = w :=
  Variable.label_injective (Key.text.inj h)

/-- Storing a value for a variable changes what is found for it and for no other variable. -/
theorem Table.get?_set_key {α : Type} (t : Table α) (v w : Variable) (a : α) :
    (t.set v.key a).get? w.key = if w = v then some a else t.get? w.key := by
  rw [get?_set]
  by_cases h : w = v
  · rw [if_pos h, if_pos (by rw [h])]
  · rw [if_neg h, if_neg (fun hk => h (Variable.key_injective hk))]

namespace Constants

@[simp] theorem find?_empty (v : Variable) : find? .empty v = none := rfl

theorem find?_bind (k : Constants) (v w : Variable) (l : Literal) :
    (k.bind v l).find? w = if w = v then some l else k.find? w :=
  Table.get?_set_key k v w l

/-! ## Kinds -/

/-- Every variable is bound to a literal of its own kind. -/
def WellKinded (k : Constants) : Prop := ∀ v l, k.find? v = some l → l.kind = v.kind

theorem wellKinded_empty : WellKinded .empty := by
  intro v l h
  simp at h

theorem WellKinded.bind {k : Constants} (hk : k.WellKinded) {v : Variable} {l : Literal}
    (hl : l.kind = v.kind) : (k.bind v l).WellKinded := by
  intro w l' h
  rw [find?_bind] at h
  split at h
  · rename_i hw
    cases h
    rw [hw, hl]
  · exact hk w l' h

/-! ## The store of what is known -/

/-- What variables are known to hold, literals of the other kind left out. -/
def known (k : Constants) : Store where
  field x := match k.find? ⟨x, .field⟩ with
    | some (.field v) => some v
    | _ => none
  bool x := match k.find? ⟨x, .bool⟩ with
    | some (.bool b) => some b
    | _ => none

theorem WellKinded.get?_known {k : Constants} (hk : k.WellKinded) (v : Variable) :
    k.known.get? v = k.find? v := by
  obtain ⟨x, kind⟩ := v
  cases kind
  all_goals
    simp only [Store.get?, known]
    cases h : k.find? ⟨x, _⟩ with
    | none => rfl
    | some l =>
      have := hk _ _ h
      cases l <;> simp_all [Literal.kind]

end Constants

/-! ## Variables read -/

mutual

/-- The variables that an expression reads, from left to right, each as often as it is read. -/
def FieldExpr.reads : FieldExpr → List Variable
  | .number _ => []
  | .ident x => [⟨x, .field⟩]
  | .binary _ a b => a.reads ++ b.reads
  | .ifElse q a b => q.reads ++ (a.reads ++ b.reads)
  | .call _ args => Expr.readsAll args

def BoolExpr.reads : BoolExpr → List Variable
  | .value _ => []
  | .ident x => [⟨x, .bool⟩]
  | .comparison _ a b => a.reads ++ b.reads

def Expr.reads : Expr → List Variable
  | .field e => e.reads
  | .bool e => e.reads

def Expr.readsAll : List Expr → List Variable
  | [] => []
  | e :: es => e.reads ++ Expr.readsAll es

end

end ConstFold
