import ConstFold.Proofs.Trace

/-!
# Propagation keeps the meaning

A folded expression is worth in one store what the expression itself is worth in another, if the second store
holds what is known and the two agree on everything else (`FieldExpr.eval_fold`).  The stores of the two runs
of a function, before and after propagation, stay related in this way as long as no statement that is kept
binds a variable that is known (`Stmt.runAll_foldAll`).  So a function in which no statement that is kept
binds again what a dropped definition bound gives the same results as before, and with it all that call it
(`Program.run_accepted`).
-/

namespace ConstFold

/-! ## Stores -/

namespace Store

/-- The store `σ'` can stand for `σ` where `κ` is known: what is known `σ` really holds, and of all else both
hold the same. -/
structure StandsFor (κ σ' σ : Store) : Prop where
  known : ∀ v l, κ.get? v = some l → σ.get? v = some l
  other : ∀ v, κ.get? v = none → σ'.get? v = σ.get? v

variable {κ σ' σ : Store}

theorem StandsFor.field (h : StandsFor κ σ' σ) (x : Text) :
    (∃ a, κ.field x = some a ∧ σ.field x = some a) ∨ κ.field x = none ∧ σ'.field x = σ.field x := by
  cases hx : κ.field x with
  | none =>
    have := h.other ⟨x, .field⟩ (by simp [get?, hx])
    exact .inr ⟨rfl, (Option.map_inj_right fun _ _ => Literal.field.inj).1 this⟩
  | some a =>
    have := h.known ⟨x, .field⟩ (.field a) (by simp [get?, hx])
    exact .inl ⟨a, rfl, by simpa [get?] using this⟩

theorem StandsFor.bool (h : StandsFor κ σ' σ) (x : Text) :
    (∃ a, κ.bool x = some a ∧ σ.bool x = some a) ∨ κ.bool x = none ∧ σ'.bool x = σ.bool x := by
  cases hx : κ.bool x with
  | none =>
    have := h.other ⟨x, .bool⟩ (by simp [get?, hx])
    exact .inr ⟨rfl, (Option.map_inj_right fun _ _ => Literal.bool.inj).1 this⟩
  | some a =>
    have := h.known ⟨x, .bool⟩ (.bool a) (by simp [get?, hx])
    exact .inl ⟨a, rfl, by simpa [get?] using this⟩

/-- A variable is bound to the values of its kind, and no other variable notices. -/
theorem bind?_eq (σ : Store) (v : Variable) (l : Literal) :
    (l.kind ≠ v.kind ∧ σ.bind? v l = none) ∨
      l.kind = v.kind ∧ ∃ τ, σ.bind? v l = some τ ∧ ∀ w, τ.get? w = if w = v then some l else σ.get? w := by
  obtain ⟨x, k⟩ := v
  cases k <;> cases l
  · refine .inr ⟨rfl, _, rfl, ?_⟩
    rintro ⟨y, k⟩
    cases k <;> simp [get?]
    split <;> simp
  · exact .inl ⟨by simp [Literal.kind], rfl⟩
  · exact .inl ⟨by simp [Literal.kind], rfl⟩
  · refine .inr ⟨rfl, _, rfl, ?_⟩
    rintro ⟨y, k⟩
    cases k <;> simp [get?]
    split <;> simp

end Store

/-! ## Expressions -/

section

variable (calls : Calls) (σ : Store)

theorem ArithOp.eval_rebuild (m : Int) (op : ArithOp) (a b : FieldExpr) :
    (op.rebuild m a b).eval calls σ =
      (a.eval calls σ).bind fun x => (b.eval calls σ).bind fun y => op.result? x y := by
  rcases FieldExpr.numbers_or_not a b with ⟨x, y, rfl, rfl⟩ | hn
  · rcases op.fold_eq m x y with ⟨v, hf, ha, -⟩ | ⟨r, hf, -⟩
    · simp [rebuild, hf, FieldExpr.eval, ha]
    · simp [rebuild, hf, FieldExpr.eval]
  · rw [(op.rebuild_of_not_number m hn).1, FieldExpr.eval]

theorem CompareOp.eval_fold (op : CompareOp) (a b : FieldExpr) :
    (op.fold a b).eval calls σ =
      (a.eval calls σ).bind fun x => (b.eval calls σ).bind fun y => some (op.holds x y) := by
  unfold fold
  split
  · simp [BoolExpr.eval, FieldExpr.eval]
  · rw [BoolExpr.eval]

theorem BoolExpr.eval_select (c : BoolExpr) (a b : FieldExpr) :
    (c.select a b).eval calls σ =
      (c.eval calls σ).bind fun c => if c then a.eval calls σ else b.eval calls σ := by
  cases c with
  | value known => cases known <;> simp [select, eval]
  | ident x => simp [select, FieldExpr.eval]
  | comparison op x y => simp [select, FieldExpr.eval]

end

mutual

/-- A folded expression has the value of the expression. -/
theorem FieldExpr.eval_fold (m : Int) (calls : Calls) {κ σ' σ : Store} (h : κ.StandsFor σ' σ) :
    ∀ e : FieldExpr, (e.fold m κ).eval calls σ' = e.eval calls σ
  | .number v => rfl
  | .ident x => by
    rcases h.field x with ⟨a, hκ, hσ⟩ | ⟨hκ, hσ⟩
    · simp [FieldExpr.fold, FieldExpr.eval, hκ, hσ]
    · simp [FieldExpr.fold, FieldExpr.eval, hκ, hσ]
  | .binary op a b => by
    rw [FieldExpr.fold, ArithOp.eval_rebuild, FieldExpr.eval_fold m calls h a, FieldExpr.eval_fold m calls h b,
      FieldExpr.eval]
  | .ifElse c a b => by
    rw [FieldExpr.fold, BoolExpr.eval_select, BoolExpr.eval_fold m calls h c, FieldExpr.eval_fold m calls h a,
      FieldExpr.eval_fold m calls h b, FieldExpr.eval]
  | .call f args => by
    rw [FieldExpr.fold, FieldExpr.eval, Expr.evalAll_foldAll m calls h args, FieldExpr.eval]

theorem BoolExpr.eval_fold (m : Int) (calls : Calls) {κ σ' σ : Store} (h : κ.StandsFor σ' σ) :
    ∀ e : BoolExpr, (e.fold m κ).eval calls σ' = e.eval calls σ
  | .value b => rfl
  | .ident x => by
    rcases h.bool x with ⟨a, hκ, hσ⟩ | ⟨hκ, hσ⟩
    · simp [BoolExpr.fold, BoolExpr.eval, hκ, hσ]
    · simp [BoolExpr.fold, BoolExpr.eval, hκ, hσ]
  | .comparison op a b => by
    rw [BoolExpr.fold, CompareOp.eval_fold, FieldExpr.eval_fold m calls h a, FieldExpr.eval_fold m calls h b,
      BoolExpr.eval]

theorem Expr.eval_fold (m : Int) (calls : Calls) {κ σ' σ : Store} (h : κ.StandsFor σ' σ) :
    ∀ e : Expr, (e.fold m κ).eval calls σ' = e.eval calls σ
  | .field e => by rw [Expr.fold, Expr.eval, FieldExpr.eval_fold m calls h e, Expr.eval]
  | .bool e => by rw [Expr.fold, Expr.eval, BoolExpr.eval_fold m calls h e, Expr.eval]

theorem Expr.evalAll_foldAll (m : Int) (calls : Calls) {κ σ' σ : Store} (h : κ.StandsFor σ' σ) :
    ∀ es : List Expr, Expr.evalAll calls σ' (Expr.foldAll m κ es) = Expr.evalAll calls σ es
  | [] => rfl
  | e :: es => by
    rw [Expr.foldAll, Expr.evalAll, Expr.eval_fold m calls h e, Expr.evalAll_foldAll m calls h es, Expr.evalAll]

end

theorem CallList.eval_fold (m : Int) (calls : Calls) {κ σ' σ : Store} (h : κ.StandsFor σ' σ) (c : CallList) :
    (c.fold m κ).eval calls σ' = c.eval calls σ := by
  show (Expr.evalAll calls σ' (Expr.foldAll m κ c.args)).bind _ = _
  rw [Expr.evalAll_foldAll m calls h]
  rfl

/-! ## Statements -/

namespace Store

variable {κ σ' σ : Store}

/-- Binding a variable that is not known keeps the stores related. -/
theorem StandsFor.bind? (h : StandsFor κ σ' σ) {v : Variable} (hv : κ.get? v = none) (l : Literal) :
    (σ'.bind? v l = none ∧ σ.bind? v l = none) ∨
      ∃ τ' τ, σ'.bind? v l = some τ' ∧ σ.bind? v l = some τ ∧ StandsFor κ τ' τ := by
  rcases bind?_eq σ' v l with ⟨hk, hb'⟩ | ⟨hk, τ', hb', hτ'⟩
  · rcases bind?_eq σ v l with ⟨-, hb⟩ | ⟨hk', -⟩
    · exact .inl ⟨hb', hb⟩
    · exact absurd hk' hk
  · rcases bind?_eq σ v l with ⟨hk', -⟩ | ⟨-, τ, hb, hτ⟩
    · exact absurd hk hk'
    · refine .inr ⟨τ', τ, hb', hb, ?_, ?_⟩
      · intro w c hw
        have hne : w ≠ v := by
          rintro rfl
          rw [hv] at hw
          cases hw
        rw [hτ, if_neg hne]
        exact h.known w c hw
      · intro w hw
        rw [hτ, hτ', h.other w hw]

theorem StandsFor.bindAll? (h : StandsFor κ σ' σ) {vs : List Variable} (hvs : ∀ v ∈ vs, κ.get? v = none)
    (ls : List Literal) :
    (σ'.bindAll? vs ls = none ∧ σ.bindAll? vs ls = none) ∨
      ∃ τ' τ, σ'.bindAll? vs ls = some τ' ∧ σ.bindAll? vs ls = some τ ∧ StandsFor κ τ' τ := by
  induction vs generalizing σ' σ ls with
  | nil =>
    cases ls with
    | nil => exact .inr ⟨σ', σ, rfl, rfl, h⟩
    | cons l ls => exact .inl ⟨rfl, rfl⟩
  | cons v vs ih =>
    cases ls with
    | nil => exact .inl ⟨rfl, rfl⟩
    | cons l ls =>
      simp only [Store.bindAll?]
      rcases h.bind? (hvs v List.mem_cons_self) l with ⟨hb', hb⟩ | ⟨τ', τ, hb', hb, hτ⟩
      · exact .inl ⟨by rw [hb']; rfl, by rw [hb]; rfl⟩
      · rw [hb', hb]
        exact ih hτ (fun w hw => hvs w (List.mem_cons_of_mem _ hw)) ls

/-- Binding a variable to what becomes known of it keeps the stores related, without a change to the first. -/
theorem StandsFor.learn {k : Constants} (hk : k.WellKinded) (h : StandsFor k.known σ' σ) {v : Variable}
    {l : Literal} (hl : l.kind = v.kind) :
    ∃ τ, σ.bind? v l = some τ ∧ StandsFor (k.bind v l).known σ' τ := by
  rcases bind?_eq σ v l with ⟨hne, -⟩ | ⟨-, τ, hb, hτ⟩
  · exact absurd hl hne
  · refine ⟨τ, hb, ?_, ?_⟩
    · intro w c hw
      rw [(hk.bind hl).get?_known, Constants.find?_bind] at hw
      by_cases hwv : w = v
      · rw [if_pos hwv] at hw
        rw [hτ, if_pos hwv, hw]
      · rw [if_neg hwv] at hw
        rw [hτ, if_neg hwv]
        exact h.known w c (by rw [hk.get?_known, hw])
    · intro w hw
      rw [(hk.bind hl).get?_known, Constants.find?_bind] at hw
      by_cases hwv : w = v
      · rw [if_pos hwv] at hw
        cases hw
      · rw [if_neg hwv] at hw
        rw [hτ, if_neg hwv]
        exact h.other w (by rw [hk.get?_known, hw])

end Store

/-- Two runs come to the same: both fail, both are done with the same results, or both go on with stores of
which one can stand for the other. -/
inductive Flow.Match (κ : Store) : Option Flow → Option Flow → Prop
  | failed : Match κ none none
  | done (results : List Literal) : Match κ (some (.done results)) (some (.done results))
  | next {σ' σ : Store} : κ.StandsFor σ' σ → Match κ (some (.next σ')) (some (.next σ))

/-- What is kept of a statement runs like the statement, if nothing that it binds is known. -/
theorem Stmt.run_fold {m : Int} {k : Constants} (hk : k.WellKinded) (calls : Calls) {σ' σ : Store}
    (h : k.known.StandsFor σ' σ) {s s' : Stmt} (hs : s.isLoop = false) (hkept : s.fold m k = some s')
    (hfree : ∀ v ∈ s.targets, k.find? v = none) :
    Flow.Match k.known (s'.run calls σ') (s.run calls σ) := by
  have hfree' : ∀ v ∈ s.targets, k.known.get? v = none := fun v hv => by rw [hk.get?_known, hfree v hv]
  cases s with
  | declare v =>
    cases hkept
    exact .next h
  | define v e =>
    simp only [fold] at hkept
    split at hkept
    · cases hkept
    · cases hkept
      simp only [run, Expr.eval_fold m calls h e]
      cases e.eval calls σ with
      | none => exact .failed
      | some l =>
        rcases h.bind? (hfree' v (by simp [targets])) l with ⟨hb', hb⟩ | ⟨τ', τ, hb', hb, hτ⟩
        · simp only [Option.bind_some, hb', hb]
          exact .failed
        · simp only [Option.bind_some, hb', hb]
          exact .next hτ
  | defineMany vs c =>
    cases hkept
    simp only [run, CallList.eval_fold m calls h c]
    cases c.eval calls σ with
    | none => exact .failed
    | some ls =>
      rcases h.bindAll? hfree' ls with ⟨hb', hb⟩ | ⟨τ', τ, hb', hb, hτ⟩
      · simp only [Option.bind_some, targets] at hb' hb ⊢
        rw [hb', hb]
        exact .failed
      · simp only [Option.bind_some, targets] at hb' hb ⊢
        rw [hb', hb]
        exact .next hτ
  | ret es =>
    cases hkept
    simp only [run, Expr.evalAll_foldAll m calls h es]
    cases Expr.evalAll calls σ es with
    | none => exact .failed
    | some results => exact .done results
  | require a b =>
    cases hkept
    simp only [run, Expr.eval_fold m calls h a, Expr.eval_fold m calls h b]
    cases a.eval calls σ with
    | none => exact .failed
    | some x =>
      cases b.eval calls σ with
      | none => exact .failed
      | some y =>
        simp only [Option.bind_some]
        split
        · exact .next h
        · exact .failed
  | loop index first last body => cases hs

/-- A dropped statement does nothing but bind its variable to what is known of it from there on. -/
theorem Stmt.run_of_dropped {m : Int} {k : Constants} (hk : k.WellKinded) (calls : Calls) {σ' σ : Store}
    (h : k.known.StandsFor σ' σ) {s : Stmt} (hdrop : s.fold m k = none) :
    ∃ τ, s.run calls σ = some (.next τ) ∧ (s.learn m k).known.StandsFor σ' τ := by
  cases s with
  | define v e =>
    simp only [fold] at hdrop
    split at hdrop
    · rename_i l hl
      obtain ⟨he, hkind⟩ := Variable.known?_eq_some_iff.1 hl
      have heval : e.eval calls σ = some l := by
        rw [← Expr.eval_fold m calls h e, he]
        cases l <;> rfl
      obtain ⟨τ, hb, hτ⟩ := h.learn hk hkind
      exact ⟨τ, by simp [run, heval, hb], by simpa [learn, hl] using hτ⟩
    · cases hdrop
  | _ => cases hdrop

theorem Stmt.learn_of_kept {m : Int} {k : Constants} {s s' : Stmt} (hkept : s.fold m k = some s') :
    s.learn m k = k := by
  unfold learn
  split
  · rename_i v e
    split
    · rename_i l hl
      simp [fold, hl] at hkept
    · rfl
  · rfl

/-- The second statement, if it is kept, binds nothing that the first one bound before it was dropped. -/
def Passage.Spares (p q : Passage) : Prop :=
  p.kept.isNone → q.kept.isSome → ∀ v ∈ p.source.targets, v ∉ q.source.targets

instance : DecidableRel Passage.Spares := fun p q =>
  inferInstanceAs (Decidable (p.kept.isNone → q.kept.isSome → ∀ v ∈ p.source.targets, v ∉ q.source.targets))

theorem Stmt.runAll_foldAll {scope : FunctionScope} {k : Constants} {body : List Stmt} (hk : k.WellKinded)
    (hb : ∀ s ∈ body, s.isLoop = false) (calls : Calls) {σ' σ : Store} (h : k.known.StandsFor σ' σ)
    (hknown : ∀ v c, k.find? v = some c → ∀ q ∈ Stmt.trace scope k body, q.kept.isSome → v ∉ q.source.targets)
    (hspares : (Stmt.trace scope k body).Pairwise Passage.Spares) :
    Stmt.runAll calls σ' (Stmt.foldAll scope.maximumExponent k body) = Stmt.runAll calls σ body := by
  induction body generalizing k σ' σ with
  | nil => rfl
  | cons s rest ih =>
    have hs := hb s List.mem_cons_self
    have hrest : ∀ t ∈ rest, t.isLoop = false := fun t ht => hb t (List.mem_cons_of_mem _ ht)
    rw [Stmt.trace_cons scope hk hs] at hknown hspares
    rw [List.pairwise_cons] at hspares
    -- what is known after the statement was known before it, or is what the statement drops
    have hknown' : ∀ v c, (s.learn scope.maximumExponent k).find? v = some c →
        ∀ q ∈ Stmt.trace scope (s.learn scope.maximumExponent k) rest, q.kept.isSome →
          v ∉ q.source.targets := by
      intro v c hc q hq hkept
      cases hd : Passage.drops v ⟨s, k, s.fold scope.maximumExponent k⟩ with
      | true =>
        simp only [Passage.drops, Passage.binds, Bool.and_eq_true, decide_eq_true_eq] at hd
        exact hspares.1 q hq hd.1 hkept v hd.2
      | false =>
        rw [Stmt.find?_learn_of_not_drops hd] at hc
        exact hknown v c hc q (List.mem_cons_of_mem _ hq) hkept
    have hk' := Stmt.wellKinded_learn scope.maximumExponent hk s
    cases hfold : s.fold scope.maximumExponent k with
    | none =>
      obtain ⟨τ, hrun, hτ⟩ := Stmt.run_of_dropped hk calls h hfold
      simp only [foldAll, hfold, runAll, hrun, Option.toList_none, List.nil_append, Option.bind_some]
      exact ih hk' hrest hτ hknown' hspares.2
    | some s' =>
      have hfree : ∀ v ∈ s.targets, k.find? v = none := by
        intro v hv
        cases hc : k.find? v with
        | none => rfl
        | some c => exact absurd hv (hknown v c hc _ List.mem_cons_self (by simp [hfold]))
      have hlearn := Stmt.learn_of_kept hfold
      rw [hlearn] at hknown' hspares
      have hmatch := Stmt.run_fold hk calls h hs hfold hfree
      simp only [foldAll, hfold, hlearn, runAll, Option.toList_some, List.singleton_append]
      generalize s'.run calls σ' = flow', s.run calls σ = flow at hmatch
      cases hmatch with
      | failed => rfl
      | done results => rfl
      | next hτ => exact ih hk hrest hτ hknown' hspares.2

/-! ## Functions and programs -/

/-- No statement that is kept binds again a variable of which a definition was dropped before. -/
def Func.SparesDropped (m : Int) (f : Func) : Prop :=
  (Stmt.trace ⟨f.name, f.name, m⟩ .empty f.statements).Pairwise Passage.Spares

instance (m : Int) (f : Func) : Decidable (f.SparesDropped m) :=
  inferInstanceAs (Decidable ((Stmt.trace ⟨f.name, f.name, m⟩ .empty f.statements).Pairwise Passage.Spares))

theorem Store.standsFor_refl (σ : Store) : (Constants.known .empty).StandsFor σ σ where
  known v l h := by
    rw [Constants.wellKinded_empty.get?_known] at h
    cases h
  other _ _ := rfl

theorem Func.run_fold {m : Int} {f : Func} (hf : f.LoopFree) (hs : f.SparesDropped m) (calls : Calls)
    (args : List Literal) : (f.fold m).run calls args = f.run calls args := by
  unfold run
  show (Store.empty.bindAll? f.parameters args).bind _ = _
  congr 1
  funext σ
  exact Stmt.runAll_foldAll Constants.wellKinded_empty hf calls (Store.standsFor_refl σ)
    (fun v c hc => by cases hc) hs

/-- Calls give the same after propagation, by the order of declarations. -/
theorem Calls.ofReversed_fold {m : Int} {fs : List Func} (hf : ∀ f ∈ fs, f.LoopFree)
    (hs : ∀ f ∈ fs, f.SparesDropped m) : Calls.ofReversed (fs.map (Func.fold m)) = Calls.ofReversed fs := by
  induction fs with
  | nil => rfl
  | cons f earlier ih =>
    have hcalls := ih (fun g hg => hf g (List.mem_cons_of_mem _ hg)) (fun g hg => hs g (List.mem_cons_of_mem _ hg))
    funext callee args
    simp only [List.map_cons, Calls.ofReversed, hcalls]
    rw [Func.run_fold (hf f List.mem_cons_self) (hs f List.mem_cons_self)]
    rfl

/-- **Propagation keeps the meaning of programs.**  Every function of an accepted program gives on every list
of arguments what it gave before, or fails like it. -/
theorem Program.run_accepted {m : Int} {p p' : Program} (hp : p.LoopFree)
    (haccepted : p.propagate m = .ok (.accepted p')) (hspares : ∀ f ∈ p.functions, f.SparesDropped m) :
    p'.functions.length = p.functions.length ∧
      ∀ index args, p'.run index args = p.run index args := by
  rw [Program.propagate_eq m hp] at haccepted
  split at haccepted
  · cases haccepted
    refine ⟨by simp [fold], fun index args => ?_⟩
    have hcalls : Calls.ofReversed ((p.functions.take index).reverse.map (Func.fold m)) =
        Calls.ofReversed (p.functions.take index).reverse :=
      Calls.ofReversed_fold
        (fun f hf => hp f (List.mem_of_mem_take (List.mem_reverse.1 hf)))
        (fun f hf => hspares f (List.mem_of_mem_take (List.mem_reverse.1 hf)))
    simp only [run, fold, List.getElem?_map, ← List.map_take, ← List.map_reverse, hcalls]
    cases hget : p.functions[index]? with
    | none => rfl
    | some f =>
      have hmem := List.mem_of_getElem? hget
      exact Func.run_fold (hp f hmem) (hspares f hmem) _ args
  · cases haccepted

/-- `main` calls `double`, asserts something of the result, redefines a constant and has a branch that would
fail if it were chosen. -/
def doubling : Program where
  functions :=
    [{ name := "double", parameters := [⟨"a", .field⟩], returnKinds := [.field]
       statements :=
        [.define ⟨"t", .field⟩ (.field (.number (.ofNat 2))),
          .ret [.field (.binary .mul (.ident "a") (.ident "t"))]] },
      { name := "main", parameters := [⟨"b", .field⟩], returnKinds := [.field]
        statements :=
          [.define ⟨"x", .field⟩ (.field (.number (.ofNat 3))),
            .define ⟨"y", .field⟩
              (.field (.call "double" [.field (.binary .add (.ident "x") (.number (.ofNat 1)))])),
            .require (.field (.ident "y")) (.field (.ident "b")),
            .define ⟨"x", .field⟩ (.field (.number (.ofNat 5))),
            .ret [.field (.ifElse (.comparison .lt (.ident "x") (.number (.ofNat 4)))
              (.binary .div (.number (.ofNat 1)) (.number (.ofNat 0))) (.binary .add (.ident "x") (.ident "y")))]] }]

def doublingPropagated : Program where
  functions :=
    [{ name := "double", parameters := [⟨"a", .field⟩], returnKinds := [.field]
       statements := [.ret [.field (.binary .mul (.ident "a") (.number (.ofNat 2)))]] },
      { name := "main", parameters := [⟨"b", .field⟩], returnKinds := [.field]
        statements :=
          [.define ⟨"y", .field⟩ (.field (.call "double" [.field (.number (.ofNat 4))])),
            .require (.field (.ident "y")) (.field (.ident "b")),
            .ret [.field (.binary .add (.number (.ofNat 5)) (.ident "y"))]] }]

theorem doubling_run_accepted :
    doubling.propagate 64 = .ok (.accepted doublingPropagated) ∧
      doublingPropagated.run 1 [.field (.ofNat 8)] = doubling.run 1 [.field (.ofNat 8)] ∧
      doubling.run 1 [.field (.ofNat 8)] = some [.field (.ofNat 13)] :=
  ⟨rfl, (Program.run_accepted (m := 64) (by decide) rfl (by decide)).2 1 _, rfl⟩

end ConstFold
