import ConstFold.Proofs.Fold

/-!
# The way through a body

`Stmt.trace` records how propagation passes through a body: each statement with the constants known when it
is reached and with what becomes of it.  The statements kept are the new body (`Stmt.trace_of_ok`).

A constant known for a variable is always the value of the latest definition of it that was dropped
(`Stmt.find?_before_iff`).  Statements that are kept do not unsettle constants, so the variable still holds
that constant exactly if the latest statement that binds it is not one of those
(`Stmt.constant_current_iff`); after one that is kept the constant is stale (`rebound_constant_stale`).
-/

namespace ConstFold

/-- The variables that a statement binds. -/
def Stmt.targets : Stmt → List Variable
  | .define v _ => [v]
  | .defineMany vs _ => vs
  | _ => []

/-- How propagation passes a statement. -/
structure Passage where
  source : Stmt
  /-- The constants known when the statement is reached. -/
  before : Constants
  /-- What stays of the statement. -/
  kept : Option Stmt

namespace Passage

def binds (v : Variable) (p : Passage) : Bool := decide (v ∈ p.source.targets)

/-- The statement is a definition of the variable that is dropped. -/
def drops (v : Variable) (p : Passage) : Bool := p.kept.isNone && p.binds v

/-- The statement is a definition of the variable whose right-hand side has become the literal. -/
def Assigns (scope : FunctionScope) (v : Variable) (c : Literal) (p : Passage) : Prop :=
  ∃ e, p.source = .define v e ∧ (e.propagate (scope.context p.before)).outcome = .ok c.toExpr

end Passage

/-- The passages through a body, up to the statement at which the compiler stops. -/
def Stmt.trace (scope : FunctionScope) : Constants → List Stmt → List Passage
  | _, [] => []
  | k, s :: rest =>
    match (s.propagate scope k).outcome with
    | .ok (kept, after) => ⟨s, k, kept⟩ :: Stmt.trace scope after rest
    | .error _ => []

/-- The latest of the first `i` passages whose statement binds the variable. -/
def latestBinding (t : List Passage) (i : Nat) (v : Variable) : Option Passage :=
  (t.take i).reverse.find? (Passage.binds v)

/-- The latest of the first `i` passages that drops a definition of the variable. -/
def latestDrop (t : List Passage) (i : Nat) (v : Variable) : Option Passage :=
  (t.take i).reverse.find? (Passage.drops v)

/-! ## Lemmas -/

/-- A run that is not stopped passes every statement, and what is kept is its result. -/
theorem Stmt.trace_of_ok (scope : FunctionScope) {k : Constants} {body out : List Stmt}
    (h : (Stmt.propagateAll scope k body).outcome = .ok out) :
    (Stmt.trace scope k body).map Passage.source = body ∧
      (Stmt.trace scope k body).filterMap Passage.kept = out := by
  induction body generalizing k out with
  | nil =>
    cases h
    exact ⟨rfl, rfl⟩
  | cons s rest ih =>
    unfold propagateAll at h
    unfold trace
    cases hs : s.propagate scope k with
    | mk outcome listed =>
      cases outcome with
      | error breach =>
        rw [hs, Report.error_bind] at h
        cases h
      | ok next =>
        obtain ⟨kept, after⟩ := next
        rw [hs, Report.ok_bind] at h
        cases hr : Stmt.propagateAll scope after rest with
        | mk outcome' listed' =>
          cases outcome' with
          | error breach =>
            simp [hr, Report.error_bind] at h
          | ok out' =>
            simp only [hr, Report.ok_bind, Report.pure_eq, Except.ok.injEq] at h
            obtain ⟨hsource, hkept⟩ := ih (by rw [hr])
            subst h
            cases kept <;> simp [hsource, hkept]

theorem Stmt.trace_cons (scope : FunctionScope) {k : Constants} (hk : k.WellKinded) {s : Stmt}
    (hs : s.isLoop = false) (rest : List Stmt) :
    Stmt.trace scope k (s :: rest) = ⟨s, k, s.fold scope.maximumExponent k⟩ ::
      Stmt.trace scope (s.learn scope.maximumExponent k) rest := by
  rw [trace, Stmt.propagate_eq scope hk hs]

theorem Expr.literal?_eq_some_iff {e : Expr} {l : Literal} : e.literal? = some l ↔ e = l.toExpr := by
  constructor
  · intro h
    unfold Expr.literal? at h
    split at h
    · cases h
      rfl
    · cases h
      rfl
    · cases h
  · rintro rfl
    cases l <;> rfl

theorem Variable.known?_eq_some_iff {v : Variable} {e : Expr} {l : Literal} :
    v.known? e = some l ↔ e = l.toExpr ∧ l.kind = v.kind := by
  unfold known?
  rw [Option.filter_eq_some_iff, Expr.literal?_eq_some_iff]
  simp

section

variable {scope : FunctionScope} {k : Constants}

/-- A dropped definition assigns the literal that is known from there on. -/
theorem Stmt.learn_of_drops (hk : k.WellKinded) {s : Stmt} {v : Variable}
    (h : Passage.drops v ⟨s, k, s.fold scope.maximumExponent k⟩ = true) :
    ∃ l, Passage.Assigns scope v l ⟨s, k, s.fold scope.maximumExponent k⟩ ∧ l.kind = v.kind ∧
      s.learn scope.maximumExponent k = k.bind v l := by
  simp only [Passage.drops, Passage.binds, Bool.and_eq_true, decide_eq_true_eq, Option.isNone_iff_eq_none] at h
  obtain ⟨hfold, hv⟩ := h
  cases s with
  | define w e =>
    obtain rfl : v = w := by simpa [targets] using hv
    cases hl : v.known? (e.fold scope.maximumExponent k.known) with
    | none => simp [fold, hl] at hfold
    | some l =>
      obtain ⟨he, hkind⟩ := Variable.known?_eq_some_iff.1 hl
      have hc : (scope.context k).constants.WellKinded := hk
      refine ⟨l, ⟨e, rfl, ?_⟩, hkind, by simp [learn, hl]⟩
      rw [Expr.propagate_eq hc]
      exact congrArg Except.ok he
  | _ => simp [fold] at hfold

/-- A statement that drops no definition of a variable leaves what is known of it. -/
theorem Stmt.find?_learn_of_not_drops {s : Stmt} {v : Variable}
    (h : Passage.drops v ⟨s, k, s.fold scope.maximumExponent k⟩ = false) :
    (s.learn scope.maximumExponent k).find? v = k.find? v := by
  unfold learn
  split
  · rename_i w e
    split
    · rename_i l hl
      have hne : v ≠ w := by
        intro hvw
        simp [Passage.drops, Passage.binds, fold, hl, targets, hvw] at h
      rw [Constants.find?_bind, if_neg hne]
    · rfl
  · rfl

/-- The constants known after some passages, given the latest first, are those of the dropped definitions. -/
def Accounts (scope : FunctionScope) (history : List Passage) (k : Constants) : Prop :=
  ∀ v c, k.find? v = some c ↔ ∃ q, history.find? (Passage.drops v) = some q ∧ q.Assigns scope v c

theorem Passage.Assigns.unique {p : Passage} {v : Variable} {c d : Literal} (hc : p.Assigns scope v c)
    (hd : p.Assigns scope v d) : c = d := by
  obtain ⟨e, hs, he⟩ := hc
  obtain ⟨e', hs', he'⟩ := hd
  rw [hs] at hs'
  cases hs'
  rw [he] at he'
  exact Literal.toExpr_injective (Except.ok.inj he')

theorem accounts_empty : Accounts scope [] .empty := by
  intro v c
  simp

/-- What one statement does to the account of what is known. -/
theorem Accounts.step {history : List Passage} (hk : k.WellKinded) (h : Accounts scope history k) (s : Stmt) :
    Accounts scope (⟨s, k, s.fold scope.maximumExponent k⟩ :: history) (s.learn scope.maximumExponent k) := by
  intro v c
  cases hd : Passage.drops v ⟨s, k, s.fold scope.maximumExponent k⟩ with
  | true =>
    obtain ⟨l, hl, -, hlearn⟩ := Stmt.learn_of_drops hk hd
    rw [List.find?_cons_of_pos hd, hlearn, Constants.find?_bind, if_pos rfl]
    constructor
    · intro hc
      cases hc
      exact ⟨_, rfl, hl⟩
    · rintro ⟨q, hq, hc⟩
      cases hq
      rw [hl.unique hc]
  | false =>
    rw [List.find?_cons_of_neg (by simp [hd]), Stmt.find?_learn_of_not_drops hd]
    exact h v c

/-- At every passage the account is that of the passages before. -/
theorem Stmt.accounts_trace {body : List Stmt} (hk : k.WellKinded) (hb : ∀ s ∈ body, s.isLoop = false)
    {history : List Passage} (h : Accounts scope history k) {i : Nat} {p : Passage}
    (hp : (Stmt.trace scope k body)[i]? = some p) :
    Accounts scope (((Stmt.trace scope k body).take i).reverse ++ history) p.before ∧ p.before.WellKinded := by
  induction body generalizing k history i with
  | nil => simp [trace] at hp
  | cons s rest ih =>
    rw [Stmt.trace_cons scope hk (hb s List.mem_cons_self)] at hp ⊢
    cases i with
    | zero =>
      cases hp
      exact ⟨h, hk⟩
    | succ i =>
      have hnext := ih (Stmt.wellKinded_learn scope.maximumExponent hk s)
        (fun t ht => hb t (List.mem_cons_of_mem _ ht)) (h.step hk s) hp
      simpa using hnext

end

/-- A constant is known for a variable exactly if the latest dropped definition of it assigns that one. -/
theorem Stmt.find?_before_iff (scope : FunctionScope) {body : List Stmt} (hb : ∀ s ∈ body, s.isLoop = false)
    {i : Nat} {p : Passage} (hp : (Stmt.trace scope .empty body)[i]? = some p) (v : Variable) (c : Literal) :
    p.before.find? v = some c ↔
      ∃ q, latestDrop (Stmt.trace scope .empty body) i v = some q ∧ q.Assigns scope v c := by
  have h := (Stmt.accounts_trace Constants.wellKinded_empty hb accounts_empty hp).1 v c
  rwa [List.append_nil] at h

theorem Stmt.kept_of_mem_trace {scope : FunctionScope} {k : Constants} {body : List Stmt} (hk : k.WellKinded)
    (hb : ∀ s ∈ body, s.isLoop = false) {p : Passage} (hp : p ∈ Stmt.trace scope k body) :
    p.before.WellKinded ∧ p.kept = p.source.fold scope.maximumExponent p.before := by
  induction body generalizing k with
  | nil => simp [trace] at hp
  | cons s rest ih =>
    rw [Stmt.trace_cons scope hk (hb s List.mem_cons_self), List.mem_cons] at hp
    rcases hp with rfl | hp
    · exact ⟨hk, rfl⟩
    · exact ih (Stmt.wellKinded_learn scope.maximumExponent hk s)
        (fun t ht => hb t (List.mem_cons_of_mem _ ht)) hp

/-- A definition whose right-hand side has become a literal of its variable's kind is dropped. -/
theorem Passage.Assigns.dropped {scope : FunctionScope} {p : Passage} {v : Variable} {c : Literal}
    (h : p.Assigns scope v c) (hc : c.kind = v.kind) (hk : p.before.WellKinded)
    (hp : p.kept = p.source.fold scope.maximumExponent p.before) : p.kept = none := by
  obtain ⟨e, hs, he⟩ := h
  have hw : (scope.context p.before).constants.WellKinded := hk
  rw [Expr.propagate_eq hw] at he
  have hl : v.known? (e.fold scope.maximumExponent p.before.known) = some c :=
    Variable.known?_eq_some_iff.2 ⟨Except.ok.inj he, hc⟩
  rw [hp, hs, Stmt.fold, hl]

/-- If the latest binding of a variable is dropped, it is the latest dropped one. -/
theorem latestDrop_of_latestBinding {t : List Passage} {i : Nat} {v : Variable} {q : Passage}
    (hq : latestBinding t i v = some q) (hkept : q.kept = none) : latestDrop t i v = some q := by
  obtain ⟨hbinds, newer, older, hsplit, hnewer⟩ := List.find?_eq_some_iff_append.1 hq
  refine List.find?_eq_some_iff_append.2 ⟨by simp [Passage.drops, hkept, hbinds], newer, older, hsplit, ?_⟩
  intro r hr
  have hr := hnewer r hr
  simp_all [Passage.drops]

/-- **When a constant is current.**  Where a constant is known for a variable, the latest statement that binds
the variable is a definition with that very value exactly if that statement was dropped. -/
theorem Stmt.constant_current_iff (scope : FunctionScope) {body : List Stmt}
    (hb : ∀ s ∈ body, s.isLoop = false) {i : Nat} {p : Passage}
    (hp : (Stmt.trace scope .empty body)[i]? = some p) {v : Variable} {c : Literal}
    (hc : p.before.find? v = some c) :
    (∃ q, latestBinding (Stmt.trace scope .empty body) i v = some q ∧ q.Assigns scope v c) ↔
      ∃ q, latestBinding (Stmt.trace scope .empty body) i v = some q ∧ q.kept = none := by
  constructor
  · rintro ⟨q, hq, hassigns⟩
    have hmem : q ∈ Stmt.trace scope .empty body :=
      List.mem_of_mem_take (List.mem_reverse.1 (List.mem_of_find?_eq_some hq))
    obtain ⟨hw, hkept⟩ := Stmt.kept_of_mem_trace Constants.wellKinded_empty hb hmem
    have hkind := (Stmt.accounts_trace Constants.wellKinded_empty hb accounts_empty hp).2 v c hc
    exact ⟨q, hq, hassigns.dropped hkind hw hkept⟩
  · rintro ⟨q, hq, hkept⟩
    obtain ⟨d, hd, hassigns⟩ := (Stmt.find?_before_iff scope hb hp v c).1 hc
    rw [latestDrop_of_latestBinding hq hkept] at hd
    cases hd
    exact ⟨q, hq, hassigns⟩

/-- `x = a; x = 3; return x`: the definition that counts is the one dropped. -/
def settled : List Stmt :=
  [.define ⟨"x", .field⟩ (.field (.ident "a")), .define ⟨"x", .field⟩ (.field (.number (.ofNat 3))),
    .ret [.field (.ident "x")]]

theorem settled_constant_current :
    (∀ s ∈ settled, s.isLoop = false) ∧
      ∃ q, latestBinding (Stmt.trace ⟨"f", "f", 64⟩ .empty settled) 2 ⟨"x", .field⟩ = some q ∧
        q.Assigns ⟨"f", "f", 64⟩ ⟨"x", .field⟩ (.field (.ofNat 3)) :=
  ⟨by decide, (Stmt.constant_current_iff ⟨"f", "f", 64⟩ (by decide) rfl rfl).2 ⟨_, rfl, rfl⟩⟩

/-- `x = 3; x = a; return x`: when the return is reached, `x` holds what `a` does and is known as `3`. -/
def rebound : List Stmt :=
  [.define ⟨"x", .field⟩ (.field (.number (.ofNat 3))), .define ⟨"x", .field⟩ (.field (.ident "a")),
    .ret [.field (.ident "x")]]

theorem rebound_constant_stale :
    ∃ p, (Stmt.trace ⟨"f", "f", 64⟩ .empty rebound)[2]? = some p ∧
      p.before.find? ⟨"x", .field⟩ = some (.field (.ofNat 3)) ∧
      ¬ ∃ q, latestBinding (Stmt.trace ⟨"f", "f", 64⟩ .empty rebound) 2 ⟨"x", .field⟩ = some q ∧
        q.Assigns ⟨"f", "f", 64⟩ ⟨"x", .field⟩ (.field (.ofNat 3)) := by
  refine ⟨_, rfl, rfl, ?_⟩
  rintro ⟨q, hq, e, hs, he⟩
  cases hq
  cases hs
  cases he

end ConstFold
