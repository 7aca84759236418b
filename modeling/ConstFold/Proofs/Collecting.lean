import ConstFold.Proofs.Collectors
import ConstFold.Proofs.Fold

/-!
# Propagation by way of collectors

A report sets the diagnostics of a branch aside as a list.  Here the same is done with collectors: errors are
reported to the collector at hand, each branch of a choice gets a pending collector below that one, and in the
end the collectors of the branches that are left are committed (`FieldExpr.collect`).

Pending collectors pile up below each other as deep as choices are nested, and those of branches not chosen are
never emptied.  Still a run ends as the report says, hands the collector it started with exactly the diagnostics
of the report and leaves all else that was there before as it was (`Expr.collect_follows`).
-/

namespace ConstFold

/-- A computation that uses collectors and may be stopped, which leaves them as they are then. -/
abbrev Collecting := EStateM Breach Collectors

namespace Collecting

variable {α : Type}

/-- A new pending collector below another one. -/
def pendingBelow (t : Nat) : Collecting Nat := fun s => .ok s.collectors.length (s.addPending t)

def refuse (t : Nat) (node : FieldExpr) (refusal : Refusal) : Collecting Unit :=
  fun s => .ok () (s.refuse t node refusal)

def commit (t : Nat) : Collecting Unit := fun s => .ok () (s.commit t)

/-- Ends with an outcome at once. -/
def conclude (outcome : Except Breach α) : Collecting α := fun s =>
  match outcome with
  | .ok a => .ok a s
  | .error breach => .error breach s

end Collecting

/-! ## Algorithm -/

/-- The operation on two operands; a refusal is reported to the collector. -/
def Context.collectBinary (c : Context) (t : Nat) (op : ArithOp) : FieldExpr → FieldExpr → Collecting FieldExpr
  | .number a, .number b =>
    match op.fold c.maximumExponent a b with
    | .ok (.ok v) => pure (.number v)
    | .ok (.error refusal) => do
      Collecting.refuse t (.binary op (.number a) (.number b)) refusal
      return .binary op (.number a) (.number b)
    | .error cause => Collecting.conclude (.error (.fault cause))
  | a, b => pure (.binary op a b)

/-- The choice between two branches with pending collectors of their own, of which those of the branches left
are committed. -/
def BoolExpr.settle (first second : Nat) : BoolExpr → FieldExpr → FieldExpr → Collecting FieldExpr
  | .value true, a, _ => do
    Collecting.commit first
    return a
  | .value false, _, b => do
    Collecting.commit second
    return b
  | c, a, b => do
    Collecting.commit first
    Collecting.commit second
    return .ifElse c a b

mutual

/-- Propagation that reports to the collector `t`. -/
def FieldExpr.collect (c : Context) (t : Nat) : FieldExpr → Collecting FieldExpr
  | .number v => pure (.number v)
  | .ident x => Collecting.conclude (c.fieldIdent x).outcome
  | .binary op a b => do
    let a ← a.collect c t
    let b ← b.collect c t
    c.collectBinary t op a b
  | .ifElse condition a b => do
    let condition ← condition.collect c t
    let first ← Collecting.pendingBelow t
    let second ← Collecting.pendingBelow t
    let a ← a.collect c first
    let b ← b.collect c second
    condition.settle first second a b
  | .call f args => do
    let args ← Expr.collectAll c t args
    return .call f args

def BoolExpr.collect (c : Context) (t : Nat) : BoolExpr → Collecting BoolExpr
  | .value b => pure (.value b)
  | .ident x => Collecting.conclude (c.boolIdent x).outcome
  | .comparison op a b => do
    let a ← a.collect c t
    let b ← b.collect c t
    return op.fold a b

def Expr.collect (c : Context) (t : Nat) : Expr → Collecting Expr
  | .field e => do
    let e ← e.collect c t
    return .field e
  | .bool e => do
    let e ← e.collect c t
    return .bool e

def Expr.collectAll (c : Context) (t : Nat) : List Expr → Collecting (List Expr)
  | [] => pure []
  | e :: es => do
    let e ← e.collect c t
    let es ← Expr.collectAll c t es
    return e :: es

end

/-! ## What is handed to a collector -/

namespace Collectors

/-- The function that a collector's own errors name. -/
def function? (s : Collectors) (c : Nat) : Option Text := s.collectors[c]?.map Collector.function

/-- A place that there is in a state: the global list or that of a collector. -/
def HasPlace (s : Collectors) (p : Option Nat) : Prop := ∀ c ∈ p, c < s.collectors.length

/-- All that happened between two states to what the first one has is that a collector was given errors. -/
structure Delivered (s : Collectors) (t : Nat) (errors : List Diagnostic) (s' : Collectors) : Prop where
  length_le : s.collectors.length ≤ s'.collectors.length
  parent?_eq : ∀ c, c < s.collectors.length → s'.parent? c = s.parent? c
  function?_eq : ∀ c, c < s.collectors.length → s'.function? c = s.function? c
  contents_eq : ∀ p, s.HasPlace p →
    s'.contents p = if p = s.outlet t then s.contents p ++ errors else s.contents p

section

variable {s : Collectors}

theorem lt_of_function? {c : Nat} {f : Text} (h : s.function? c = some f) : c < s.collectors.length := by
  obtain ⟨k, hk, -⟩ := Option.map_eq_some_iff.1 h
  exact (List.getElem?_eq_some_iff.1 hk).1

theorem function?_set {t : Nat} {k k' : Collector} (hk : s.collectors[t]? = some k)
    (hfunction : k'.function = k.function) (c : Nat) :
    (⟨s.reported, s.collectors.set t k'⟩ : Collectors).function? c = s.function? c := by
  unfold function?
  rw [List.getElem?_set]
  split
  · rename_i htc
    subst htc
    rw [if_pos (List.getElem?_eq_some_iff.1 hk).1, hk]
    simp [hfunction]
  · rfl

theorem function?_deliver (t c : Nat) (errors : List Diagnostic) :
    (s.deliver t errors).function? c = s.function? c := by
  unfold deliver
  split
  · rename_i k hk
    split
    · apply function?_set hk
      rfl
    · rfl
  · rfl

theorem function?_commit (t c : Nat) : (s.commit t).function? c = s.function? c := by
  unfold commit
  split
  · rename_i hk
    rw [function?_deliver]
    apply function?_set hk
    rfl
  · rfl

theorem function?_add (f : Text) (q? : Option Nat) (c : Nat) :
    (s.add f q?).function? c = if c = s.collectors.length then some f else s.function? c := by
  unfold function?
  rw [add, getElem?_concat]
  split <;> rfl

theorem addPending_eq {t : Nat} {f : Text} (h : s.function? t = some f) : s.addPending t = s.add f (some t) := by
  obtain ⟨k, hk, rfl⟩ := Option.map_eq_some_iff.1 h
  simp [addPending, hk, add]

theorem contents_length : s.contents (some s.collectors.length) = [] := by
  simp [contents]

end

namespace Delivered

variable {s s' s'' : Collectors} {t : Nat} {errors errors' : List Diagnostic}

theorem refl (s : Collectors) (t : Nat) : Delivered s t [] s where
  length_le := Nat.le_refl _
  parent?_eq _ _ := rfl
  function?_eq _ _ := rfl
  contents_eq p _ := by simp

theorem outlet_eq (h : Delivered s t errors s') {c : Nat} (hc : c < s.collectors.length) :
    s'.outlet c = s.outlet c := by
  unfold outlet
  rw [h.parent?_eq c hc]

theorem hasPlace (h : Delivered s t errors s') {p : Option Nat} (hp : s.HasPlace p) : s'.HasPlace p :=
  fun c hc => Nat.lt_of_lt_of_le (hp c hc) h.length_le

theorem trans (h : Delivered s t errors s') (h' : Delivered s' t errors' s'') (ht : t < s.collectors.length) :
    Delivered s t (errors ++ errors') s'' where
  length_le := Nat.le_trans h.length_le h'.length_le
  parent?_eq c hc := by rw [h'.parent?_eq c (Nat.lt_of_lt_of_le hc h.length_le), h.parent?_eq c hc]
  function?_eq c hc := by rw [h'.function?_eq c (Nat.lt_of_lt_of_le hc h.length_le), h.function?_eq c hc]
  contents_eq p hp := by
    rw [h'.contents_eq p (h.hasPlace hp), h.outlet_eq ht, h.contents_eq p hp]
    split
    · rw [List.append_assoc]
    · rfl

/-- What a pending collector made since is given does not show at the places there were before. -/
theorem aside (h : Delivered s t errors s') {c q : Nat} {later : List Diagnostic} (h' : Delivered s' c later s'')
    (hc : s.collectors.length ≤ c) (hq : s'.parent? c = some q) : Delivered s t errors s'' where
  length_le := Nat.le_trans h.length_le h'.length_le
  parent?_eq d hd := by rw [h'.parent?_eq d (Nat.lt_of_lt_of_le hd h.length_le), h.parent?_eq d hd]
  function?_eq d hd := by rw [h'.function?_eq d (Nat.lt_of_lt_of_le hd h.length_le), h.function?_eq d hd]
  contents_eq p hp := by
    have hne : p ≠ s'.outlet c := by
      rw [outlet_of_pending hq]
      rintro rfl
      have := hp c rfl
      omega
    rw [h'.contents_eq p (h.hasPlace hp), if_neg hne, h.contents_eq p hp]

theorem refuse {f : Text} (h : s.function? t = some f) (node : FieldExpr) (refusal : Refusal) :
    Delivered s t [⟨f, node, refusal⟩] (s.refuse t node refusal) := by
  obtain ⟨k, hk, rfl⟩ := Option.map_eq_some_iff.1 h
  have hrefuse : s.refuse t node refusal = s.deliver t [⟨k.function, node, refusal⟩] := by
    simp [Collectors.refuse, hk, report]
  rw [hrefuse]
  exact {
    length_le := Nat.le_of_eq (length_deliver t _).symm
    parent?_eq := fun c _ => parent?_deliver t c _
    function?_eq := fun c _ => function?_deliver t c _
    contents_eq := fun p _ => contents_deliver (lt_of_function? h) _ p }

theorem add (f : Text) (q? : Option Nat) : Delivered s t [] (s.add f q?) where
  length_le := by rw [length_add]; omega
  parent?_eq c hc := by rw [parent?_add, if_neg (by omega)]
  function?_eq c hc := by rw [function?_add, if_neg (by omega)]
  contents_eq p _ := by rw [contents_add]; simp

/-- A commit hands on what waited at a collector made since. -/
theorem commit (h : Delivered s t errors s') {c : Nat} (hc : s.collectors.length ≤ c)
    (hparent : s'.parent? c = some t) (ht : t < s.collectors.length) :
    Delivered s t (errors ++ s'.contents (some c)) (s'.commit c) where
  length_le := by rw [length_commit hparent]; exact h.length_le
  parent?_eq d hd := by rw [parent?_commit hparent, h.parent?_eq d hd]
  function?_eq d hd := by rw [function?_commit, h.function?_eq d hd]
  contents_eq p hp := by
    have hne : p ≠ some c := by
      rintro rfl
      have := hp c rfl
      omega
    rw [contents_commit hparent (by omega), h.outlet_eq ht, if_neg hne, h.contents_eq p hp]
    split
    · rw [List.append_assoc]
    · rfl

/-- What reaches the global list: the errors given to a collector that is not pending, and none otherwise. -/
theorem reported_eq (h : Delivered s t errors s') :
    s'.reported = s.reported ++ if s.outlet t = none then errors else [] := by
  have hnone := h.contents_eq none (by simp [HasPlace])
  simp only [contents, eq_comm (a := none)] at hnone
  rw [hnone]
  split <;> simp

end Delivered

/-- A collector is pending below `t`, and errors wait at it. -/
structure Pending (s : Collectors) (c t : Nat) (f : Text) (errors : List Diagnostic) : Prop where
  parent?_eq : s.parent? c = some t
  function?_eq : s.function? c = some f
  contents_eq : s.contents (some c) = errors

theorem pending_add (s : Collectors) (t : Nat) (f : Text) :
    (s.add f (some t)).Pending s.collectors.length t f [] where
  parent?_eq := by rw [parent?_add, if_pos rfl]
  function?_eq := by rw [function?_add, if_pos rfl]
  contents_eq := by rw [contents_add, contents_length]

namespace Pending

variable {s s' : Collectors} {c d t : Nat} {f : Text} {errors later : List Diagnostic}

/-- What waits at a pending collector stays there when others are given errors. -/
theorem of_other (h : s.Pending c t f errors) (h' : s.Delivered d later s') (hd : s.outlet d ≠ some c) :
    s'.Pending c t f errors where
  parent?_eq := by rw [h'.parent?_eq c (lt_of_function? h.function?_eq), h.parent?_eq]
  function?_eq := by rw [h'.function?_eq c (lt_of_function? h.function?_eq), h.function?_eq]
  contents_eq := by
    rw [h'.contents_eq (some c) (by rintro _ ⟨⟩; exact lt_of_function? h.function?_eq), if_neg (Ne.symm hd),
      h.contents_eq]

theorem of_self (h : s.Pending c t f errors) (h' : s.Delivered c later s') :
    s'.Pending c t f (errors ++ later) where
  parent?_eq := by rw [h'.parent?_eq c (lt_of_function? h.function?_eq), h.parent?_eq]
  function?_eq := by rw [h'.function?_eq c (lt_of_function? h.function?_eq), h.function?_eq]
  contents_eq := by
    rw [h'.contents_eq (some c) (by rintro _ ⟨⟩; exact lt_of_function? h.function?_eq),
      if_pos (outlet_of_pending h.parent?_eq).symm, h.contents_eq]

theorem of_commit (h : s.Pending c t f errors) (hd : s.parent? d = some t) (htd : t < d) (hct : c ≠ t)
    (hcd : c ≠ d) : (s.commit d).Pending c t f errors where
  parent?_eq := by rw [parent?_commit hd, h.parent?_eq]
  function?_eq := by rw [function?_commit, h.function?_eq]
  contents_eq := by
    have hne : some c ≠ s.outlet t := fun hc => hct (eq_of_outlet hc.symm)
    rw [contents_commit hd htd, if_neg hne, if_neg (by simpa using hcd), h.contents_eq]

end Pending

end Collectors

/-! ## Runs that follow a report -/

namespace Collecting

variable {α β : Type} {t : Nat} {f : Text}

/-- From every state in which the collector `t` is one of the function `f`, the computation ends as the report
says and hands that collector the report's diagnostics. -/
def Follows (x : Collecting α) (t : Nat) (f : Text) (r : Report α) : Prop :=
  ∀ s : Collectors, s.function? t = some f →
    ∃ s', x s = conclude r.outcome s' ∧ s.Delivered t r.diagnostics s'

theorem bind_of_ok {x : Collecting α} {next : α → Collecting β} {s s' : Collectors} {a : α}
    (h : x s = .ok a s') : (x >>= next) s = next a s' := by
  simp only [bind, EStateM.bind, h]

theorem bind_of_error {x : Collecting α} {next : α → Collecting β} {s s' : Collectors} {breach : Breach}
    (h : x s = .error breach s') : (x >>= next) s = .error breach s' := by
  simp only [bind, EStateM.bind, h]

theorem follows_pure (a : α) : Follows (pure a) t f (pure a) :=
  fun s _ => ⟨s, rfl, .refl s t⟩

theorem follows_conclude {r : Report α} (h : r.diagnostics = []) : (conclude r.outcome).Follows t f r := by
  intro s _
  refine ⟨s, rfl, ?_⟩
  rw [h]
  exact .refl s t

theorem Follows.bind {x : Collecting α} {r : Report α} {next : α → Collecting β} {g : α → Report β}
    (hx : x.Follows t f r) (hnext : ∀ a, (next a).Follows t f (g a)) : (x >>= next).Follows t f (r >>= g) := by
  intro s hs
  obtain ⟨s', hrun, hdelivered⟩ := hx s hs
  have ht := Collectors.lt_of_function? hs
  obtain ⟨outcome, listed⟩ := r
  cases outcome with
  | error breach => exact ⟨s', bind_of_error hrun, hdelivered⟩
  | ok a =>
    obtain ⟨s'', hrun', hdelivered'⟩ := hnext a s' (by rw [hdelivered.function?_eq t ht, hs])
    exact ⟨s'', (bind_of_ok hrun).trans hrun', hdelivered.trans hdelivered' ht⟩

end Collecting

open Collecting

theorem Context.collectBinary_follows (c : Context) (t : Nat) (op : ArithOp) (a b : FieldExpr) :
    (c.collectBinary t op a b).Follows t c.function (c.binary op a b) := by
  unfold collectBinary
  split
  · rename_i x y
    rcases op.fold_eq c.maximumExponent x y with ⟨v, hf, -, -⟩ | ⟨refusal, hf, -⟩
    · simp only [Context.binary, hf]
      exact follows_pure _
    · simp only [Context.binary, hf]
      intro s hs
      exact ⟨_, rfl, .refuse hs _ _⟩
  · rename_i hn
    rw [Context.binary_of_not_number op fun x y hxy => hn x y hxy.1 hxy.2]
    exact follows_pure _

/-- A choice commits the collectors of the branches it leaves, and the report lists what waited there. -/
theorem BoolExpr.settle_delivers {s s' : Collectors} {t first second : Nat} {f : Text} {la lb : List Diagnostic}
    (h : s.Delivered t [] s') (ht : t < s.collectors.length) (hfirst : s'.Pending first t f la)
    (hsecond : s'.Pending second t f lb) (hle : s.collectors.length ≤ first) (hlt : first < second)
    (condition : BoolExpr) (a b : FieldExpr) :
    ∃ s'', condition.settle first second a b s' = conclude (condition.choose (a, la) (b, lb)).outcome s'' ∧
      s.Delivered t (condition.choose (a, la) (b, lb)).diagnostics s'' := by
  have hone := h.commit hle hfirst.parent?_eq ht
  rw [hfirst.contents_eq] at hone
  have hother := h.commit (by omega) hsecond.parent?_eq ht
  rw [hsecond.contents_eq] at hother
  have hlater := hsecond.of_commit hfirst.parent?_eq (by omega) (by omega) (by omega)
  have hboth := hone.commit (by omega) hlater.parent?_eq ht
  rw [hlater.contents_eq] at hboth
  cases condition with
  | value known =>
    cases known
    · exact ⟨_, rfl, hother⟩
    · exact ⟨_, rfl, hone⟩
  | ident x => exact ⟨_, rfl, hboth⟩
  | comparison op x y => exact ⟨_, rfl, hboth⟩

/-- Each branch reports to a pending collector of its own, and what the choice leaves is committed. -/
theorem BoolExpr.settle_follows {x y : Nat → Collecting FieldExpr} {ra rb : Report FieldExpr} {f : Text}
    (hx : ∀ t, (x t).Follows t f ra) (hy : ∀ t, (y t).Follows t f rb) (condition : BoolExpr) (t : Nat) :
    Follows (do
      let first ← Collecting.pendingBelow t
      let second ← Collecting.pendingBelow t
      let a ← x first
      let b ← y second
      condition.settle first second a b) t f (do
      let a ← ra.withheld
      let b ← rb.withheld
      condition.choose a b) := by
  intro s hs
  have ht := Collectors.lt_of_function? hs
  -- two new collectors, numbered after all there are
  have hadd := Collectors.Delivered.add (s := s) (t := t) f (some t)
  have hs₁ : (s.add f (some t)).function? t = some f := by rw [hadd.function?_eq t ht, hs]
  have hadd' := Collectors.Delivered.add (s := s.add f (some t)) (t := t) f (some t)
  have hrun : Collecting.pendingBelow t s = .ok s.collectors.length (s.add f (some t)) := by
    rw [Collecting.pendingBelow, Collectors.addPending_eq hs]
  have hrun' : Collecting.pendingBelow t (s.add f (some t)) =
      .ok (s.collectors.length + 1) ((s.add f (some t)).add f (some t)) := by
    rw [Collecting.pendingBelow, Collectors.addPending_eq hs₁, Collectors.length_add]
  rw [bind_of_ok hrun, bind_of_ok hrun']
  have hnew := hadd.trans hadd' ht
  have hfirst := (Collectors.pending_add s t f).of_other hadd' (by
    intro h
    have := Collectors.eq_of_outlet h
    omega)
  have hsecond := Collectors.pending_add (s.add f (some t)) t f
  rw [Collectors.length_add] at hsecond
  generalize (s.add f (some t)).add f (some t) = s₂ at hnew hfirst hsecond
  -- the first branch changes nothing but what waits at its own collector
  obtain ⟨s₃, hrunA, hA⟩ := hx _ s₂ hfirst.function?_eq
  have hleft := hnew.aside hA (Nat.le_refl _) hfirst.parent?_eq
  have hsecond := hsecond.of_other hA (by rw [Collectors.outlet_of_pending hfirst.parent?_eq]; simp)
  have hfirst := hfirst.of_self hA
  obtain ⟨outcomeA, la⟩ := ra
  cases outcomeA with
  | error breach => exact ⟨s₃, bind_of_error hrunA, hleft⟩
  | ok a =>
    -- and so does the second
    obtain ⟨s₄, hrunB, hB⟩ := hy _ s₃ hsecond.function?_eq
    have hright := hleft.aside hB (by omega) hsecond.parent?_eq
    have hfirst := hfirst.of_other hB (by rw [Collectors.outlet_of_pending hsecond.parent?_eq]; simp)
    have hsecond := hsecond.of_self hB
    rw [bind_of_ok hrunA]
    obtain ⟨outcomeB, lb⟩ := rb
    cases outcomeB with
    | error breach => exact ⟨s₄, bind_of_error hrunB, hright⟩
    | ok b =>
      rw [bind_of_ok hrunB]
      exact BoolExpr.settle_delivers hright ht hfirst hsecond (Nat.le_refl _) (Nat.lt_succ_self _) condition a b

theorem Context.diagnostics_fieldIdent (c : Context) (x : Text) : (c.fieldIdent x).diagnostics = [] := by
  unfold fieldIdent
  split <;> rfl

theorem Context.diagnostics_boolIdent (c : Context) (x : Text) : (c.boolIdent x).diagnostics = [] := by
  unfold boolIdent
  split <;> rfl

mutual

/-- A run of propagation with collectors follows its report. -/
theorem FieldExpr.collect_follows (c : Context) (t : Nat) : ∀ e : FieldExpr,
    (e.collect c t).Follows t c.function (e.propagate c)
  | .number v => follows_pure _
  | .ident x => by
    rw [FieldExpr.collect, FieldExpr.propagate]
    exact follows_conclude (c.diagnostics_fieldIdent x)
  | .binary op a b => by
    rw [FieldExpr.collect, FieldExpr.propagate]
    exact (FieldExpr.collect_follows c t a).bind fun a => (FieldExpr.collect_follows c t b).bind fun b =>
      c.collectBinary_follows t op a b
  | .ifElse condition a b => by
    rw [FieldExpr.collect, FieldExpr.propagate]
    exact (BoolExpr.collect_follows c t condition).bind fun condition =>
      condition.settle_follows (fun t => FieldExpr.collect_follows c t a) (fun t => FieldExpr.collect_follows c t b) t
  | .call callee args => by
    rw [FieldExpr.collect, FieldExpr.propagate]
    exact (Expr.collectAll_follows c t args).bind fun _ => follows_pure _

theorem BoolExpr.collect_follows (c : Context) (t : Nat) : ∀ e : BoolExpr,
    (e.collect c t).Follows t c.function (e.propagate c)
  | .value b => follows_pure _
  | .ident x => by
    rw [BoolExpr.collect, BoolExpr.propagate]
    exact follows_conclude (c.diagnostics_boolIdent x)
  | .comparison op a b => by
    rw [BoolExpr.collect, BoolExpr.propagate]
    exact (FieldExpr.collect_follows c t a).bind fun _ => (FieldExpr.collect_follows c t b).bind fun _ =>
      follows_pure _

theorem Expr.collect_follows (c : Context) (t : Nat) : ∀ e : Expr,
    (e.collect c t).Follows t c.function (e.propagate c)
  | .field e => by
    rw [Expr.collect, Expr.propagate]
    exact (FieldExpr.collect_follows c t e).bind fun _ => follows_pure _
  | .bool e => by
    rw [Expr.collect, Expr.propagate]
    exact (BoolExpr.collect_follows c t e).bind fun _ => follows_pure _

theorem Expr.collectAll_follows (c : Context) (t : Nat) : ∀ es : List Expr,
    (Expr.collectAll c t es).Follows t c.function (Expr.propagateAll c es)
  | [] => follows_pure _
  | e :: es => by
    rw [Expr.collectAll, Expr.propagateAll]
    exact (Expr.collect_follows c t e).bind fun _ => (Expr.collectAll_follows c t es).bind fun _ =>
      follows_pure _

end

end ConstFold
