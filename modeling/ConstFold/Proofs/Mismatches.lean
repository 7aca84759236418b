import ConstFold.Proofs.Discarded

/-!
# Constants of the wrong kind

Propagation in an expression is stopped exactly if some variable read in it, be it in a branch that would not be
chosen, is bound to a literal of the other kind, and then by the first such variable from left to right
(`Expr.propagate_mismatch`).

What has been reported at that moment depends on the way from the root down to the variable (`Expr.Leads`).  At
each turn of it some expressions are complete (`Turn.passed`).  Operands, arguments and conditions have been
reported.  A choice reports its branches together, once both are complete: as soon as the way enters one of
them, neither what is complete in it nor a first branch left behind is ever reported (`Turn.reported`).
-/

namespace ConstFold

/-! ## Mismatches -/

/-- The variable is bound to a literal of the other kind. -/
def Constants.Mismatched (k : Constants) (v : Variable) : Prop := ∃ l, k.find? v = some l ∧ l.kind ≠ v.kind

/-- None of the variables is. -/
def Constants.Clean (k : Constants) (vs : List Variable) : Prop := ∀ v ∈ vs, ¬ k.Mismatched v

/-! ## Ways down -/

/-- A turn on the way down in an expression. -/
inductive Turn where
  /-- To a condition, an operand or an argument, past the ones before it. -/
  | operand (before : List Expr)
  /-- To the first branch of a choice. -/
  | consequence (condition : BoolExpr)
  /-- To the second branch, past the first one. -/
  | alternative (condition : BoolExpr) (consequence : FieldExpr)

/-- A way from the root of an expression down to a variable that is read there. -/
inductive Expr.Leads : Expr → List Turn → Variable → Prop
  | field (x : Text) : Leads (.field (.ident x)) [] ⟨x, .field⟩
  | bool (x : Text) : Leads (.bool (.ident x)) [] ⟨x, .bool⟩
  | left {op : ArithOp} {a b : FieldExpr} {way : List Turn} {v : Variable} : Leads (.field a) way v →
      Leads (.field (.binary op a b)) (.operand [] :: way) v
  | right {op : ArithOp} {a b : FieldExpr} {way : List Turn} {v : Variable} : Leads (.field b) way v →
      Leads (.field (.binary op a b)) (.operand [.field a] :: way) v
  | leftCompared {op : CompareOp} {a b : FieldExpr} {way : List Turn} {v : Variable} : Leads (.field a) way v →
      Leads (.bool (.comparison op a b)) (.operand [] :: way) v
  | rightCompared {op : CompareOp} {a b : FieldExpr} {way : List Turn} {v : Variable} : Leads (.field b) way v →
      Leads (.bool (.comparison op a b)) (.operand [.field a] :: way) v
  | condition {q : BoolExpr} {a b : FieldExpr} {way : List Turn} {v : Variable} : Leads (.bool q) way v →
      Leads (.field (.ifElse q a b)) (.operand [] :: way) v
  | consequence {q : BoolExpr} {a b : FieldExpr} {way : List Turn} {v : Variable} : Leads (.field a) way v →
      Leads (.field (.ifElse q a b)) (.consequence q :: way) v
  | alternative {q : BoolExpr} {a b : FieldExpr} {way : List Turn} {v : Variable} : Leads (.field b) way v →
      Leads (.field (.ifElse q a b)) (.alternative q a :: way) v
  | argument {callee : Text} {before after : List Expr} {e : Expr} {way : List Turn} {v : Variable} :
      Leads e way v → Leads (.field (.call callee (before ++ e :: after))) (.operand before :: way) v

namespace Turn

/-- The expressions that are complete when the way takes a turn. -/
def completed : Turn → List Expr
  | .operand before => before
  | .consequence q => [.bool q]
  | .alternative q a => [.bool q, .field a]

/-- The expressions that are complete at the end of a way, from left to right. -/
def passed (way : List Turn) : List Expr := way.flatMap completed

/-- Those among them that lie in no branch of a choice that the way leads into. -/
def reported : List Turn → List Expr
  | [] => []
  | .operand before :: way => before ++ reported way
  | .consequence q :: _ => [.bool q]
  | .alternative q _ :: _ => [.bool q]

/-- Those among them that do not lie in a branch which the way leads into. -/
def outside : List Turn → List Expr
  | [] => []
  | .operand before :: way => before ++ outside way
  | .consequence q :: _ => [.bool q]
  | .alternative q a :: _ => [.bool q, .field a]

end Turn

/-- The diagnostics that propagation lists in each of a row of expressions. -/
def Context.listed (c : Context) (es : List Expr) : List Diagnostic :=
  es.flatMap fun e => (e.propagate c).diagnostics

/-- The way leads to the first variable that is bound to a literal of the other kind. -/
structure Expr.FirstMismatch (k : Constants) (e : Expr) (way : List Turn) (v : Variable) (l : Literal) : Prop where
  leads : e.Leads way v
  clean : ∀ d ∈ Turn.passed way, k.Clean d.reads
  find?_eq : k.find? v = some l
  kind_ne : l.kind ≠ v.kind

theorem Constants.clean_append {k : Constants} {us vs : List Variable} :
    k.Clean (us ++ vs) ↔ k.Clean us ∧ k.Clean vs :=
  List.forall_mem_append

theorem Expr.readsAll_eq (es : List Expr) : Expr.readsAll es = es.flatMap Expr.reads := by
  induction es with
  | nil => rfl
  | cons e es ih => rw [readsAll, ih, List.flatMap_cons]

/-- What is read before the end of a way is what the expressions passed on it read. -/
theorem Expr.Leads.reads_eq {e : Expr} {way : List Turn} {v : Variable} (h : e.Leads way v) :
    ∃ after, e.reads = (Turn.passed way).flatMap Expr.reads ++ v :: after := by
  induction h with
  | field x => exact ⟨[], rfl⟩
  | bool x => exact ⟨[], rfl⟩
  | left _ ih | leftCompared _ ih | condition _ ih | consequence _ ih | right _ ih | rightCompared _ ih
  | alternative _ ih =>
    obtain ⟨after, hreads⟩ := ih
    simp only [Expr.reads] at hreads
    simp [Expr.reads, FieldExpr.reads, BoolExpr.reads, hreads, Turn.passed, Turn.completed]
  | argument _ ih =>
    obtain ⟨after, hreads⟩ := ih
    simp [Expr.reads, FieldExpr.reads, Expr.readsAll_eq, hreads, Turn.passed, Turn.completed]

/-! ## Complete expressions -/

namespace Report

variable {α β : Type} {r : Report α} {f : α → Report β}

/-- The report is not stopped. -/
def Completes (r : Report α) : Prop := ∃ a, r.outcome = .ok a

theorem completes_pure (a : α) : (pure a : Report α).Completes := ⟨a, rfl⟩

theorem bind_of_ok {a : α} (h : r.outcome = .ok a) :
    r >>= f = ⟨(f a).outcome, r.diagnostics ++ (f a).diagnostics⟩ := by
  obtain ⟨outcome, listed⟩ := r
  cases h
  rfl

theorem Completes.bind (h : r.Completes) (hf : ∀ a, (f a).Completes) : (r >>= f).Completes := by
  obtain ⟨a, ha⟩ := h
  obtain ⟨b, hb⟩ := hf a
  exact ⟨b, by rw [bind_of_ok ha, hb]⟩

theorem diagnostics_withheld (r : Report α) : r.withheld.diagnostics = [] := rfl

theorem Completes.withheld (h : r.Completes) : r.withheld.Completes := by
  obtain ⟨a, ha⟩ := h
  exact ⟨(a, r.diagnostics), by rw [Report.withheld, ha]; rfl⟩

end Report

namespace Context

variable {c : Context} {x : Text}

theorem completes_fieldIdent (h : ¬ c.constants.Mismatched ⟨x, .field⟩) : (c.fieldIdent x).Completes := by
  unfold fieldIdent
  split
  · exact Report.completes_pure _
  · exact Report.completes_pure _
  · rename_i l hfield hfind
    refine absurd ⟨l, hfind, ?_⟩ h
    cases l with
    | field v => exact absurd rfl (hfield v)
    | bool b => exact Kind.noConfusion

theorem completes_boolIdent (h : ¬ c.constants.Mismatched ⟨x, .bool⟩) : (c.boolIdent x).Completes := by
  unfold boolIdent
  split
  · exact Report.completes_pure _
  · exact Report.completes_pure _
  · rename_i l hbool hfind
    refine absurd ⟨l, hfind, ?_⟩ h
    cases l with
    | field v => exact Kind.noConfusion
    | bool b => exact absurd rfl (hbool b)

theorem completes_binary (op : ArithOp) (a b : FieldExpr) : (c.binary op a b).Completes := by
  obtain ⟨listed, h, -⟩ := binary_eq (c := c) op a b
  exact ⟨_, by rw [h]⟩

end Context

theorem BoolExpr.completes_choose (q : BoolExpr) (a b : FieldExpr × List Diagnostic) : (q.choose a b).Completes := by
  unfold choose
  split <;> exact ⟨_, rfl⟩

mutual

/-- Nothing stops propagation where no variable is bound to a literal of the other kind. -/
theorem FieldExpr.completes_of_clean {c : Context} : ∀ e : FieldExpr, c.constants.Clean e.reads →
    (e.propagate c).Completes
  | .number v, _ => Report.completes_pure _
  | .ident x, h => by
    rw [FieldExpr.propagate]
    exact Context.completes_fieldIdent (h ⟨x, .field⟩ (List.mem_singleton.2 rfl))
  | .binary op a b, h => by
    obtain ⟨ha, hb⟩ := Constants.clean_append.1 h
    rw [FieldExpr.propagate]
    exact (FieldExpr.completes_of_clean a ha).bind fun a => (FieldExpr.completes_of_clean b hb).bind fun b =>
      Context.completes_binary op a b
  | .ifElse q a b, h => by
    obtain ⟨hq, hab⟩ := Constants.clean_append.1 h
    obtain ⟨ha, hb⟩ := Constants.clean_append.1 hab
    rw [FieldExpr.propagate]
    exact (BoolExpr.completes_of_clean q hq).bind fun q =>
      (FieldExpr.completes_of_clean a ha).withheld.bind fun a =>
        (FieldExpr.completes_of_clean b hb).withheld.bind fun b => q.completes_choose a b
  | .call callee args, h => by
    rw [FieldExpr.propagate]
    exact (Expr.completesAll_of_clean args h).bind fun _ => Report.completes_pure _

theorem BoolExpr.completes_of_clean {c : Context} : ∀ e : BoolExpr, c.constants.Clean e.reads →
    (e.propagate c).Completes
  | .value b, _ => Report.completes_pure _
  | .ident x, h => by
    rw [BoolExpr.propagate]
    exact Context.completes_boolIdent (h ⟨x, .bool⟩ (List.mem_singleton.2 rfl))
  | .comparison op a b, h => by
    obtain ⟨ha, hb⟩ := Constants.clean_append.1 h
    rw [BoolExpr.propagate]
    exact (FieldExpr.completes_of_clean a ha).bind fun _ => (FieldExpr.completes_of_clean b hb).bind fun _ =>
      Report.completes_pure _

theorem Expr.completes_of_clean {c : Context} : ∀ e : Expr, c.constants.Clean e.reads → (e.propagate c).Completes
  | .field e, h => by
    rw [Expr.propagate]
    exact (FieldExpr.completes_of_clean e h).bind fun _ => Report.completes_pure _
  | .bool e, h => by
    rw [Expr.propagate]
    exact (BoolExpr.completes_of_clean e h).bind fun _ => Report.completes_pure _

theorem Expr.completesAll_of_clean {c : Context} : ∀ es : List Expr, c.constants.Clean (Expr.readsAll es) →
    (Expr.propagateAll c es).Completes
  | [], _ => Report.completes_pure _
  | e :: es, h => by
    obtain ⟨he, hes⟩ := Constants.clean_append.1 h
    rw [Expr.propagateAll]
    exact (Expr.completes_of_clean e he).bind fun _ => (Expr.completesAll_of_clean es hes).bind fun _ =>
      Report.completes_pure _

end

/-! ## Stops -/

namespace Context

variable {c : Context} {x : Text} {l : Literal}

theorem fieldIdent_of_mismatch (h : c.constants.find? ⟨x, .field⟩ = some l) (hkind : l.kind ≠ .field) :
    c.fieldIdent x = ⟨.error (.kindMismatch ⟨x, .field⟩ l), []⟩ := by
  cases l with
  | field v => exact absurd rfl hkind
  | bool b => simp [fieldIdent, h, Report.stop]

theorem boolIdent_of_mismatch (h : c.constants.find? ⟨x, .bool⟩ = some l) (hkind : l.kind ≠ .bool) :
    c.boolIdent x = ⟨.error (.kindMismatch ⟨x, .bool⟩ l), []⟩ := by
  cases l with
  | field v => simp [boolIdent, h, Report.stop]
  | bool b => exact absurd rfl hkind

end Context

namespace Report

variable {α β : Type} {r : Report α} {breach : Breach} {listed : List Diagnostic}

/-- A report that goes on with a result is stopped exactly as the report itself. -/
theorem bind_pure_eq_error_iff (g : α → β) :
    (do let a ← r; return g a : Report β) = ⟨.error breach, listed⟩ ↔ r = ⟨.error breach, listed⟩ := by
  obtain ⟨outcome, before⟩ := r
  cases outcome with
  | ok a => simp [ok_bind, pure_eq]
  | error b => simp [error_bind]

theorem diagnostics_bind_pure (g : α → β) : (do let a ← r; return g a : Report β).diagnostics = r.diagnostics := by
  obtain ⟨outcome, before⟩ := r
  cases outcome with
  | ok a => simp [ok_bind, pure_eq]
  | error b => rfl

end Report

section

variable {c : Context} {breach : Breach} {listed : List Diagnostic}

theorem Expr.propagate_field_eq_error_iff {a : FieldExpr} :
    (Expr.field a).propagate c = ⟨.error breach, listed⟩ ↔ a.propagate c = ⟨.error breach, listed⟩ := by
  rw [Expr.propagate]
  exact Report.bind_pure_eq_error_iff Expr.field

theorem Expr.propagate_bool_eq_error_iff {a : BoolExpr} :
    (Expr.bool a).propagate c = ⟨.error breach, listed⟩ ↔ a.propagate c = ⟨.error breach, listed⟩ := by
  rw [Expr.propagate]
  exact Report.bind_pure_eq_error_iff Expr.bool

theorem Context.listed_field (a : FieldExpr) : c.listed [.field a] = (a.propagate c).diagnostics := by
  simp [Context.listed, Expr.propagate, Report.diagnostics_bind_pure]

theorem Context.listed_bool (a : BoolExpr) : c.listed [.bool a] = (a.propagate c).diagnostics := by
  simp [Context.listed, Expr.propagate, Report.diagnostics_bind_pure]

/-- A row of expressions is stopped by the first one that is, after what those before it list. -/
theorem Expr.propagateAll_of_error {before : List Expr} (after : List Expr) {e : Expr}
    (hbefore : ∀ d ∈ before, c.constants.Clean d.reads) (h : e.propagate c = ⟨.error breach, listed⟩) :
    Expr.propagateAll c (before ++ e :: after) = ⟨.error breach, c.listed before ++ listed⟩ := by
  induction before with
  | nil =>
    rw [List.nil_append, propagateAll, h]
    rfl
  | cons d before ih =>
    obtain ⟨hd, hrest⟩ := List.forall_mem_cons.1 hbefore
    obtain ⟨r, hr⟩ := d.completes_of_clean hd
    rw [List.cons_append, propagateAll, Report.bind_of_ok hr, ih hrest]
    simp [Report.error_bind, Context.listed]

end

namespace Expr.FirstMismatch

variable {k : Constants} {e e' : Expr} {way : List Turn} {v : Variable} {l : Literal}

theorem turn (h : e.FirstMismatch k way v l) {turn : Turn} (hleads : e'.Leads (turn :: way) v)
    (hclean : ∀ d ∈ turn.completed, k.Clean d.reads) : e'.FirstMismatch k (turn :: way) v l where
  leads := hleads
  clean := List.forall_mem_append.2 ⟨hclean, h.clean⟩
  find?_eq := h.find?_eq
  kind_ne := h.kind_ne

/-- The first mismatch stops propagation, when the diagnostics of the expressions reported by then are listed. -/
theorem propagate_eq {c : Context} (h : e.FirstMismatch c.constants way v l) :
    e.propagate c = ⟨.error (.kindMismatch v l), c.listed (Turn.reported way)⟩ := by
  obtain ⟨hleads, hclean, hfind, hkind⟩ := h
  induction hleads with
  | field x =>
    rw [propagate_field_eq_error_iff, FieldExpr.propagate]
    exact Context.fieldIdent_of_mismatch hfind hkind
  | bool x =>
    rw [propagate_bool_eq_error_iff, BoolExpr.propagate]
    exact Context.boolIdent_of_mismatch hfind hkind
  | left _ ih =>
    have hleft := propagate_field_eq_error_iff.1 (ih hclean hfind hkind)
    rw [propagate_field_eq_error_iff, FieldExpr.propagate, hleft]
    rfl
  | leftCompared _ ih =>
    have hleft := propagate_field_eq_error_iff.1 (ih hclean hfind hkind)
    rw [propagate_bool_eq_error_iff, BoolExpr.propagate, hleft]
    rfl
  | @right op a b way v _ ih =>
    obtain ⟨ha, hway⟩ := List.forall_mem_cons.1 hclean
    obtain ⟨r, hr⟩ := a.completes_of_clean ha
    have hright := propagate_field_eq_error_iff.1 (ih hway hfind hkind)
    rw [propagate_field_eq_error_iff, FieldExpr.propagate, Report.bind_of_ok hr, hright, ← c.listed_field]
    simp [Report.error_bind, Turn.reported, Context.listed]
  | @rightCompared op a b way v _ ih =>
    obtain ⟨ha, hway⟩ := List.forall_mem_cons.1 hclean
    obtain ⟨r, hr⟩ := a.completes_of_clean ha
    have hright := propagate_field_eq_error_iff.1 (ih hway hfind hkind)
    rw [propagate_bool_eq_error_iff, BoolExpr.propagate, Report.bind_of_ok hr, hright, ← c.listed_field]
    simp [Report.error_bind, Turn.reported, Context.listed]
  | condition _ ih =>
    have hcondition := propagate_bool_eq_error_iff.1 (ih hclean hfind hkind)
    rw [propagate_field_eq_error_iff, FieldExpr.propagate, hcondition]
    rfl
  | @consequence q a b way v _ ih =>
    -- what the branch has listed is withheld, and lost
    obtain ⟨hq, hway⟩ := List.forall_mem_cons.1 hclean
    obtain ⟨r, hr⟩ := q.completes_of_clean hq
    have hbranch := propagate_field_eq_error_iff.1 (ih hway hfind hkind)
    rw [propagate_field_eq_error_iff, FieldExpr.propagate, Report.bind_of_ok hr, hbranch]
    simp [Report.withheld_error, Report.error_bind, Turn.reported, c.listed_bool]
  | @alternative q a b way v _ ih =>
    -- and so is what the branch before it has listed
    obtain ⟨hq, hrest⟩ := List.forall_mem_cons.1 hclean
    obtain ⟨ha, hway⟩ := List.forall_mem_cons.1 hrest
    obtain ⟨r, hr⟩ := q.completes_of_clean hq
    obtain ⟨r', hr'⟩ := (a.completes_of_clean ha).withheld
    have hbranch := propagate_field_eq_error_iff.1 (ih hway hfind hkind)
    rw [propagate_field_eq_error_iff, FieldExpr.propagate, Report.bind_of_ok hr, Report.bind_of_ok hr', hbranch]
    simp [Report.withheld_error, Report.error_bind, Report.diagnostics_withheld, Turn.reported, c.listed_bool]
  | @argument callee before after e way v _ ih =>
    obtain ⟨hbefore, hway⟩ := List.forall_mem_append.1 hclean
    have hbefore : ∀ d ∈ before, c.constants.Clean d.reads := hbefore
    rw [propagate_field_eq_error_iff, FieldExpr.propagate,
      Expr.propagateAll_of_error after hbefore (ih hway hfind hkind)]
    simp [Report.error_bind, Turn.reported, Context.listed]

end Expr.FirstMismatch

mutual

/-- Either no variable is bound to a literal of the other kind, or there is a way to the first that is. -/
theorem FieldExpr.clean_or_mismatch (k : Constants) : ∀ e : FieldExpr,
    k.Clean e.reads ∨ ∃ way v l, (Expr.field e).FirstMismatch k way v l
  | .number v => .inl (by simp [Constants.Clean, FieldExpr.reads])
  | .ident x => by
    by_cases h : k.Mismatched ⟨x, .field⟩
    · obtain ⟨l, hfind, hkind⟩ := h
      exact .inr ⟨[], _, l, .field x, by simp [Turn.passed], hfind, hkind⟩
    · exact .inl (by simpa [Constants.Clean, FieldExpr.reads] using h)
  | .binary op a b => by
    rcases FieldExpr.clean_or_mismatch k a with ha | ⟨way, v, l, h⟩
    · rcases FieldExpr.clean_or_mismatch k b with hb | ⟨way, v, l, h⟩
      · exact .inl (Constants.clean_append.2 ⟨ha, hb⟩)
      · exact .inr ⟨_, v, l, h.turn (.right h.leads) (List.forall_mem_singleton.2 ha)⟩
    · exact .inr ⟨_, v, l, h.turn (.left h.leads) (List.forall_mem_nil _)⟩
  | .ifElse q a b => by
    rcases BoolExpr.clean_or_mismatch k q with hq | ⟨way, v, l, h⟩
    · rcases FieldExpr.clean_or_mismatch k a with ha | ⟨way, v, l, h⟩
      · rcases FieldExpr.clean_or_mismatch k b with hb | ⟨way, v, l, h⟩
        · exact .inl (Constants.clean_append.2 ⟨hq, Constants.clean_append.2 ⟨ha, hb⟩⟩)
        · exact .inr ⟨_, v, l, h.turn (.alternative h.leads)
            (List.forall_mem_cons.2 ⟨hq, List.forall_mem_singleton.2 ha⟩)⟩
      · exact .inr ⟨_, v, l, h.turn (.consequence h.leads) (List.forall_mem_singleton.2 hq)⟩
    · exact .inr ⟨_, v, l, h.turn (.condition h.leads) (List.forall_mem_nil _)⟩
  | .call callee args => by
    rcases Expr.clean_or_mismatchAll k args with h | ⟨before, e, after, way, v, l, rfl, hbefore, h⟩
    · exact .inl h
    · exact .inr ⟨_, v, l, h.turn (.argument h.leads) hbefore⟩

theorem BoolExpr.clean_or_mismatch (k : Constants) : ∀ e : BoolExpr,
    k.Clean e.reads ∨ ∃ way v l, (Expr.bool e).FirstMismatch k way v l
  | .value b => .inl (by simp [Constants.Clean, BoolExpr.reads])
  | .ident x => by
    by_cases h : k.Mismatched ⟨x, .bool⟩
    · obtain ⟨l, hfind, hkind⟩ := h
      exact .inr ⟨[], _, l, .bool x, by simp [Turn.passed], hfind, hkind⟩
    · exact .inl (by simpa [Constants.Clean, BoolExpr.reads] using h)
  | .comparison op a b => by
    rcases FieldExpr.clean_or_mismatch k a with ha | ⟨way, v, l, h⟩
    · rcases FieldExpr.clean_or_mismatch k b with hb | ⟨way, v, l, h⟩
      · exact .inl (Constants.clean_append.2 ⟨ha, hb⟩)
      · exact .inr ⟨_, v, l, h.turn (.rightCompared h.leads) (List.forall_mem_singleton.2 ha)⟩
    · exact .inr ⟨_, v, l, h.turn (.leftCompared h.leads) (List.forall_mem_nil _)⟩

theorem Expr.clean_or_mismatch (k : Constants) : ∀ e : Expr,
    k.Clean e.reads ∨ ∃ way v l, e.FirstMismatch k way v l
  | .field e => FieldExpr.clean_or_mismatch k e
  | .bool e => BoolExpr.clean_or_mismatch k e

theorem Expr.clean_or_mismatchAll (k : Constants) : ∀ es : List Expr,
    k.Clean (Expr.readsAll es) ∨ ∃ before e after way v l, es = before ++ e :: after ∧
      (∀ d ∈ before, k.Clean d.reads) ∧ e.FirstMismatch k way v l
  | [] => .inl (by simp [Constants.Clean, Expr.readsAll])
  | e :: es => by
    rcases Expr.clean_or_mismatch k e with he | ⟨way, v, l, h⟩
    · rcases Expr.clean_or_mismatchAll k es with hes | ⟨before, e', after, way, v, l, rfl, hbefore, h⟩
      · exact .inl (Constants.clean_append.2 ⟨he, hes⟩)
      · exact .inr ⟨e :: before, e', after, way, v, l, rfl, List.forall_mem_cons.2 ⟨he, hbefore⟩, h⟩
    · exact .inr ⟨[], e, es, way, v, l, rfl, List.forall_mem_nil _, h⟩

end

/-! ## Top theorem -/

/-- **Constants of the wrong kind are caught exactly.**  Propagation is stopped if and only if a variable that is
read anywhere is bound to a literal of the other kind.  The breach names the first such variable and its
literal.  What has reached the global list by then are the diagnostics of the expressions complete on the way to
the variable that lie in no branch of a choice it is in. -/
theorem Expr.propagate_mismatch (c : Context) (e : Expr) :
    ((∃ breach, (e.propagate c).outcome = .error breach) ↔ ∃ v ∈ e.reads, c.constants.Mismatched v) ∧
      ∀ breach, (e.propagate c).outcome = .error breach →
        ∃ way v l after, e.FirstMismatch c.constants way v l ∧
          e.reads = (Turn.passed way).flatMap Expr.reads ++ v :: after ∧
          breach = .kindMismatch v l ∧
          breach.toInternalError = .ok ⟨.constantKindConsistency,
            "`" ++ v.text ++ "` is bound to the " ++ l.kind.text ++ " constant `" ++ l.text ++ "`."⟩ ∧
          (e.propagate c).diagnostics = c.listed (Turn.reported way) ∧
          ∀ (s : Collectors) (t : Nat), s.function? t = some c.function → s.parent? t = none →
            ∃ s', e.collect c t s = .error breach s' ∧
              s'.reported = s.reported ++ c.listed (Turn.reported way) := by
  rcases Expr.clean_or_mismatch c.constants e with hclean | ⟨way, v, l, h⟩
  · obtain ⟨r, hr⟩ := e.completes_of_clean hclean
    have hnot : ¬ ∃ v ∈ e.reads, c.constants.Mismatched v := fun ⟨v, hv, hmismatch⟩ => hclean v hv hmismatch
    rw [hr]
    exact ⟨iff_of_false (fun ⟨_, hbreach⟩ => nomatch hbreach) hnot, fun _ hbreach => nomatch hbreach⟩
  · have hstop := h.propagate_eq
    obtain ⟨after, hreads⟩ := h.leads.reads_eq
    have hread : v ∈ e.reads := by simp [hreads]
    refine ⟨iff_of_true ⟨_, by rw [hstop]⟩ ⟨v, hread, l, h.find?_eq, h.kind_ne⟩, fun breach hbreach => ?_⟩
    rw [hstop] at hbreach
    cases hbreach
    refine ⟨way, v, l, after, h, hreads, rfl, rfl, by rw [hstop], fun s t hs hroot => ?_⟩
    obtain ⟨s', hrun, hdelivered⟩ := e.collect_follows c t s hs
    rw [hstop] at hrun hdelivered
    refine ⟨s', hrun, ?_⟩
    rw [hdelivered.reported_eq, if_pos (Collectors.outlet_of_root hroot)]

/-- The field variable `x` is bound to a truth value. -/
def misbound : Context := ⟨Table.ofVariables [(⟨"x", .field⟩, .bool true)], "main", 64⟩

/-- `a / 0` -/
def overZero (a : Nat) : FieldExpr := .binary .div (.number (.ofNat a)) (.number (.ofNat 0))

/-- `f(1 / 0, if 2 ** 70 == u then 3 / 0 else g(4 / 0, x))` -/
def brokenOff : Expr :=
  .field (.call "f" [.field (overZero 1),
    .field (.ifElse (.comparison .eq beyondLimit (.ident "u")) (overZero 3)
      (.call "g" [.field (overZero 4), .field (.ident "x")]))])

theorem brokenOff_mismatch :
    ∃ s', brokenOff.collect misbound 0 (Collectors.empty.addFunction "main") =
        .error (.kindMismatch ⟨"x", .field⟩ (.bool true)) s' ∧
      s'.reported.map Diagnostic.reason =
        (["Divisor of `(1 / 0)` is zero.", "Exponent of `(2 ** 70)` exceeds the maximum exponent 64."] : List Text) := by
  obtain ⟨way, v, l, after, -, -, -, -, hlisted, hcollect⟩ :=
    (Expr.propagate_mismatch misbound brokenOff).2 (.kindMismatch ⟨"x", .field⟩ (.bool true)) rfl
  obtain ⟨s', hrun, hreported⟩ := hcollect (Collectors.empty.addFunction "main") 0 rfl rfl
  refine ⟨s', hrun, ?_⟩
  rw [hreported, ← hlisted]
  decide +kernel

/-- `if u then 1 / 0 else x` -/
def leftBehind : Expr := .field (.ifElse (.ident "u") (overZero 1) (.ident "x"))

/-- A first branch that is complete has not been reported when the second one stops: it lies outside the branch
at hand, and still its division by zero never reaches the global list. -/
theorem leftBehind_unreported :
    leftBehind.FirstMismatch misbound.constants [.alternative (.ident "u") (overZero 1)] ⟨"x", .field⟩ (.bool true) ∧
      (misbound.listed (Turn.outside [.alternative (.ident "u") (overZero 1)])).map Diagnostic.reason =
        (["Divisor of `(1 / 0)` is zero."] : List Text) ∧
      ∃ s', leftBehind.collect misbound 0 (Collectors.empty.addFunction "main") =
          .error (.kindMismatch ⟨"x", .field⟩ (.bool true)) s' ∧ s'.reported = [] := by
  refine ⟨⟨.alternative (.field "x"), ?_, rfl, by decide⟩, by decide +kernel, _, rfl, rfl⟩
  have hu : ¬ misbound.constants.Mismatched ⟨"u", .bool⟩ := by
    rintro ⟨l, hfind, -⟩
    cases hfind
  simpa [Turn.passed, Turn.completed, Constants.Clean, Expr.reads, BoolExpr.reads, FieldExpr.reads, overZero] using hu

end ConstFold
