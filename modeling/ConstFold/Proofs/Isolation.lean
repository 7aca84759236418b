import ConstFold.Proofs.Discarded
import ConstFold.Proofs.Stops

/-!
# Functions are compiled in isolation

The functions of a program are compiled one after the other.  They share the list of functions compiled so far and
one set of collectors, in which every function gets a collector of its own (`Compilation`).  A run with what is
shared answers as propagation does (`Program.compile_eq`).

Whatever has been compiled before it, a function adds the same function to the list and the same block of errors
(`Compilation.compile_of_ok`).  So it fares among others as it does alone, and a program is the sum of its
functions (`Program.functions_isolated`).
-/

namespace ConstFold

/-! ## Algorithm -/

def CallList.collect (c : Context) (t : Nat) (l : CallList) : Collecting CallList := do
  let args ← Expr.collectAll c t l.args
  return { l with args }

/-- Propagation in a statement that reports to the collector `t`. -/
def Stmt.collect (scope : FunctionScope) (t : Nat) (constants : Constants) :
    Stmt → Collecting (Option Stmt × Constants)
  | .declare v => pure (some (.declare v), constants)
  | .define v e => do
    let e ← e.collect (scope.context constants) t
    match v.known? e with
    | some l => return (none, constants.bind v l)
    | none => return (some (.define v e), constants)
  | .defineMany vs l => do
    let l ← l.collect (scope.context constants) t
    return (some (.defineMany vs l), constants)
  | .ret es => do
    let es ← Expr.collectAll (scope.context constants) t es
    return (some (.ret es), constants)
  | .require a b => do
    let a ← a.collect (scope.context constants) t
    let b ← b.collect (scope.context constants) t
    return (some (.require a b), constants)
  | .loop index _ _ _ => Collecting.conclude (.error (.loop index scope.name))

def Stmt.collectAll (scope : FunctionScope) (t : Nat) : Constants → List Stmt → Collecting (List Stmt)
  | _, [] => pure []
  | constants, s :: rest => do
    let (s?, constants) ← s.collect scope t constants
    let rest ← Stmt.collectAll scope t constants rest
    return s?.toList ++ rest

def Func.collect (m : Int) (t : Nat) (f : Func) : Collecting Func := do
  let statements ← Stmt.collectAll ⟨f.name, f.name, m⟩ t .empty f.statements
  return { f with statements }

/-- What the functions of a program share: those compiled so far, and the collectors. -/
structure Compilation where
  functions : List Func
  collectors : Collectors

namespace Compilation

def start : Compilation := ⟨[], .empty⟩

/-- All errors so far. -/
def errors (s : Compilation) : List Diagnostic := s.collectors.reported

/-- Compiles one more function, which gets a new collector. -/
def compile (m : Int) (s : Compilation) (f : Func) : Except Breach Compilation :=
  match f.collect m s.collectors.collectors.length (s.collectors.addFunction f.name) with
  | .ok f' collectors => .ok ⟨s.functions ++ [f'], collectors⟩
  | .error breach _ => .error breach

def compileAll (m : Int) (s : Compilation) : List Func → Except Breach Compilation
  | [] => .ok s
  | f :: fs => do
    let s ← s.compile m f
    s.compileAll m fs

end Compilation

/-- Compiles the functions of a program in turn. -/
def Program.compile (m : Int) (p : Program) : Except Breach Verdict :=
  (Compilation.start.compileAll m p.functions).map fun s => .of { p with functions := s.functions } s.errors

def Verdict.errors : Verdict → List Diagnostic
  | .accepted _ => []
  | .rejected errors => errors

/-! ## Functions follow their reports -/

section

open Collecting

theorem CallList.collect_follows (c : Context) (t : Nat) (l : CallList) :
    (l.collect c t).Follows t c.function (l.propagate c) :=
  (Expr.collectAll_follows c t l.args).bind fun _ => follows_pure _

theorem Stmt.collect_follows (scope : FunctionScope) (t : Nat) (k : Constants) (s : Stmt) :
    (s.collect scope t k).Follows t scope.reportedAs (s.propagate scope k) := by
  cases s with
  | declare v => exact follows_pure _
  | define v e =>
    refine (Expr.collect_follows (scope.context k) t e).bind fun e => ?_
    cases v.known? e <;> exact follows_pure _
  | defineMany vs l => exact (CallList.collect_follows (scope.context k) t l).bind fun _ => follows_pure _
  | ret es => exact (Expr.collectAll_follows (scope.context k) t es).bind fun _ => follows_pure _
  | require a b =>
    exact (Expr.collect_follows (scope.context k) t a).bind fun _ =>
      (Expr.collect_follows (scope.context k) t b).bind fun _ => follows_pure _
  | loop index first last body => exact follows_conclude (r := .stop (.loop index scope.name)) rfl

theorem Stmt.collectAll_follows (scope : FunctionScope) (t : Nat) (k : Constants) (body : List Stmt) :
    (Stmt.collectAll scope t k body).Follows t scope.reportedAs (Stmt.propagateAll scope k body) := by
  induction body generalizing k with
  | nil => exact follows_pure _
  | cons s rest ih =>
    exact (Stmt.collect_follows scope t k s).bind fun next => (ih next.2).bind fun _ => follows_pure _

theorem Func.collect_follows (m : Int) (t : Nat) (f : Func) :
    (f.collect m t).Follows t f.name (f.propagate f.name m) :=
  (Stmt.collectAll_follows ⟨f.name, f.name, m⟩ t .empty f.statements).bind fun _ => follows_pure _

end

/-! ## Compilations -/

namespace Compilation

variable {s s' s'' : Compilation} {m : Int}

/-- One compilation goes on from another: functions and errors have been added, and nothing else has changed. -/
structure Extends (s : Compilation) (fs : List Func) (errors : List Diagnostic) (s' : Compilation) : Prop where
  functions_eq : s'.functions = s.functions ++ fs
  errors_eq : s'.errors = s.errors ++ errors

theorem Extends.refl (s : Compilation) : s.Extends [] [] s := ⟨by simp, by simp⟩

theorem Extends.trans {fs fs' : List Func} {errors errors' : List Diagnostic} (h : s.Extends fs errors s')
    (h' : s'.Extends fs' errors' s'') : s.Extends (fs ++ fs') (errors ++ errors') s'' where
  functions_eq := by rw [h'.functions_eq, h.functions_eq, List.append_assoc]
  errors_eq := by rw [h'.errors_eq, h.errors_eq, List.append_assoc]

theorem Extends.of_start {fs : List Func} {errors : List Diagnostic} (h : start.Extends fs errors s) :
    s.functions = fs ∧ s.errors = errors :=
  ⟨h.functions_eq, h.errors_eq⟩

/-- The collector of a function passes on all that the function's report lists, whatever stands there already. -/
theorem collect_reported (m : Int) (s : Compilation) (f : Func) :
    ∃ collectors, f.collect m s.collectors.collectors.length (s.collectors.addFunction f.name) =
        Collecting.conclude (f.propagate f.name m).outcome collectors ∧
      collectors.reported = s.errors ++ (f.propagate f.name m).diagnostics := by
  have hfunction : (s.collectors.addFunction f.name).function? s.collectors.collectors.length = some f.name :=
    (s.collectors.function?_add f.name none _).trans (if_pos rfl)
  have hroot : (s.collectors.addFunction f.name).parent? s.collectors.collectors.length = none :=
    (s.collectors.parent?_add f.name none _).trans (if_pos rfl)
  obtain ⟨collectors, hrun, hdelivered⟩ := Func.collect_follows m _ f _ hfunction
  refine ⟨collectors, hrun, ?_⟩
  rw [hdelivered.reported_eq, if_pos (Collectors.outlet_of_root hroot)]
  rfl

/-- What a function adds does not depend on what has been compiled before. -/
theorem compile_of_ok (s : Compilation) {f f' : Func} {block : List Diagnostic}
    (h : f.propagate f.name m = ⟨.ok f', block⟩) : ∃ s', s.compile m f = .ok s' ∧ s.Extends [f'] block s' := by
  obtain ⟨collectors, hrun, hreported⟩ := collect_reported m s f
  rw [h] at hrun hreported
  exact ⟨⟨s.functions ++ [f'], collectors⟩, by rw [compile, hrun]; rfl, rfl, hreported⟩

theorem compile_of_error (s : Compilation) {f : Func} {block : List Diagnostic} {breach : Breach}
    (h : f.propagate f.name m = ⟨.error breach, block⟩) : s.compile m f = .error breach := by
  obtain ⟨collectors, hrun, -⟩ := collect_reported m s f
  rw [compile, hrun, h]
  rfl

theorem compileAll_cons_of_ok {f : Func} {fs : List Func} (h : s.compile m f = .ok s') :
    s.compileAll m (f :: fs) = s'.compileAll m fs := by
  rw [compileAll, h]
  rfl

theorem compileAll_append_of_ok {fs gs : List Func} (h : s.compileAll m fs = .ok s') :
    s.compileAll m (fs ++ gs) = s'.compileAll m gs := by
  induction fs generalizing s with
  | nil =>
    cases h
    rfl
  | cons f fs ih =>
    cases hf : s.compile m f with
    | error breach =>
      rw [compileAll, hf] at h
      cases h
    | ok next =>
      rw [compileAll_cons_of_ok hf] at h
      rw [List.cons_append, compileAll_cons_of_ok hf, ih h]

/-- A run over functions adds what their report makes and lists, and stops where it stops. -/
theorem compileAll_report (s : Compilation) (m : Int) (fs : List Func) :
    match Func.propagateAll m fs with
    | ⟨.ok fs', errors⟩ => ∃ s', s.compileAll m fs = .ok s' ∧ s.Extends fs' errors s'
    | ⟨.error breach, _⟩ => s.compileAll m fs = .error breach := by
  induction fs generalizing s with
  | nil => exact ⟨s, rfl, .refl s⟩
  | cons f fs ih =>
    rw [Func.propagateAll]
    cases hf : f.propagate f.name m with | mk outcome block =>
    cases outcome with
    | error breach =>
      rw [Report.error_bind, compileAll, s.compile_of_error hf]
      rfl
    | ok f' =>
      obtain ⟨s', hcompile, hstep⟩ := s.compile_of_ok hf
      have hrest := ih s'
      rw [Report.ok_bind, compileAll_cons_of_ok hcompile]
      generalize Func.propagateAll m fs = rest at hrest ⊢
      obtain ⟨outcome, errors⟩ := rest
      cases outcome with
      | error breach => exact hrest
      | ok fs' =>
        obtain ⟨s'', hrun, hextends⟩ := hrest
        refine ⟨s'', hrun, ?_⟩
        simpa [Report.pure_eq, Report.ok_bind] using hstep.trans hextends

/-- Without loops a run comes to its end. -/
theorem compileAll_of_loopFree (s : Compilation) (m : Int) {fs : List Func} (hfs : ∀ f ∈ fs, f.LoopFree) :
    ∃ s', s.compileAll m fs = .ok s' ∧
      s.Extends (fs.map (Func.fold m)) ((fs.map (Func.fold m)).flatMap fun f => f.diagnose f.name m) s' := by
  have hreport := s.compileAll_report m fs
  rwa [Func.propagateAll_eq m hfs] at hreport

end Compilation

/-- A run with what the functions share answers as propagation does. -/
theorem Program.compile_eq (m : Int) (p : Program) : p.compile m = p.propagate m := by
  have hreport := Compilation.start.compileAll_report m p.functions
  unfold compile propagate
  generalize Func.propagateAll m p.functions = report at hreport ⊢
  obtain ⟨outcome, errors⟩ := report
  cases outcome with
  | error breach =>
    rw [hreport]
    rfl
  | ok fs =>
    obtain ⟨s, hrun, hextends⟩ := hreport
    obtain ⟨rfl, rfl⟩ := hextends.of_start
    rw [hrun]
    rfl

/-- The answer for a list of functions is what a run over them has gathered. -/
theorem Program.propagate_of_compileAll {m : Int} {fs fs' : List Func} {errors : List Diagnostic} {s : Compilation}
    (hrun : Compilation.start.compileAll m fs = .ok s) (h : Compilation.start.Extends fs' errors s)
    (layout : List (Slot ProgramField)) : Program.propagate m ⟨fs, layout⟩ = .ok (.of ⟨fs', layout⟩ errors) := by
  obtain ⟨rfl, rfl⟩ := h.of_start
  rw [← Program.compile_eq, compile, hrun]
  rfl

theorem Program.propagate_alone (m : Int) {f : Func} (hf : f.LoopFree) (layout : List (Slot ProgramField)) :
    Program.propagate m ⟨[f], layout⟩ = .ok (.of ⟨[f.fold m], layout⟩ ((f.fold m).diagnose f.name m)) := by
  obtain ⟨s, hcompile, hextends⟩ := Compilation.start.compile_of_ok (Func.propagate_eq f.name m hf)
  exact Program.propagate_of_compileAll (Compilation.compileAll_cons_of_ok hcompile) hextends layout

/-! ## Verdicts -/

namespace Verdict

theorem errors_of (p : Program) (errors : List Diagnostic) : (Verdict.of p errors).errors = errors := by
  cases errors <;> rfl

theorem of_accepted_iff (p : Program) (errors : List Diagnostic) :
    (∃ new, Verdict.of p errors = .accepted new) ↔ errors = [] := by
  cases errors <;> simp [Verdict.of]

end Verdict

theorem Program.accepted_iff_alone (m : Int) {p : Program} (hp : p.LoopFree) :
    (∃ new, p.propagate m = .ok (.accepted new)) ↔
      ∀ f ∈ p.functions, ∃ new, Program.propagate m ⟨[f], p.layout⟩ = .ok (.accepted new) := by
  obtain ⟨s, hrun, hextends⟩ := Compilation.start.compileAll_of_loopFree m hp
  have hwhole : p.propagate m = _ := Program.propagate_of_compileAll hrun hextends p.layout
  calc (∃ new, p.propagate m = .ok (.accepted new))
      ↔ ((p.functions.map (Func.fold m)).flatMap fun f => f.diagnose f.name m) = [] := by
        simp only [hwhole, Except.ok.injEq, Verdict.of_accepted_iff]
    _ ↔ ∀ f ∈ p.functions, (f.fold m).diagnose f.name m = [] := by
        simp only [List.flatMap_map, List.flatMap_eq_nil_iff]
        rfl
    _ ↔ ∀ f ∈ p.functions, ∃ new, Program.propagate m ⟨[f], p.layout⟩ = .ok (.accepted new) := by
        refine forall₂_congr fun f hf => ?_
        simp only [Program.propagate_alone m (hp f hf), Except.ok.injEq, Verdict.of_accepted_iff]

/-! ## Top theorem -/

/-- **Functions are compiled in isolation.**  A function becomes the same function and adds the same block of errors
alone and between any others, whose own results are those they give without it.  The errors of a program are those
of its functions alone, in the order of declarations, and it is accepted exactly if every function alone is. -/
theorem Program.functions_isolated (m : Int) :
    (∀ f : Func, f.LoopFree → ∃ f' block, ∀ layout,
      Program.propagate m ⟨[f], layout⟩ = .ok (.of ⟨[f'], layout⟩ block) ∧
      ∀ before after : List Func, (∀ g ∈ before ++ after, g.LoopFree) → ∃ fs errors gs errors' s s' s'',
        Compilation.start.compileAll m before = .ok s ∧ Compilation.start.Extends fs errors s ∧
          fs.length = before.length ∧
        s.compile m f = .ok s' ∧ s.Extends [f'] block s' ∧
        s'.compileAll m after = .ok s'' ∧ s'.Extends gs errors' s'' ∧
        Program.propagate m ⟨before, layout⟩ = .ok (.of ⟨fs, layout⟩ errors) ∧
        Program.propagate m ⟨after, layout⟩ = .ok (.of ⟨gs, layout⟩ errors') ∧
        Program.propagate m ⟨before ++ f :: after, layout⟩ =
          .ok (.of ⟨fs ++ f' :: gs, layout⟩ (errors ++ block ++ errors'))) ∧
    ∀ p : Program, p.LoopFree →
      (∃ (verdict : Verdict) (alone : List Verdict), p.propagate m = .ok verdict ∧
        p.functions.map (fun f => Program.propagate m ⟨[f], p.layout⟩) = alone.map .ok ∧
        verdict.errors = alone.flatMap Verdict.errors) ∧
      ((∃ new, p.propagate m = .ok (.accepted new)) ↔
        ∀ f ∈ p.functions, ∃ new, Program.propagate m ⟨[f], p.layout⟩ = .ok (.accepted new)) := by
  constructor
  · intro f hf
    refine ⟨f.fold m, (f.fold m).diagnose f.name m, fun layout => ⟨Program.propagate_alone m hf layout, ?_⟩⟩
    intro before after hothers
    have hbefore : ∀ g ∈ before, g.LoopFree := fun g hg => hothers g (List.mem_append_left _ hg)
    have hafter : ∀ g ∈ after, g.LoopFree := fun g hg => hothers g (List.mem_append_right _ hg)
    obtain ⟨s, hrun, hextends⟩ := Compilation.start.compileAll_of_loopFree m hbefore
    obtain ⟨s', hcompile, hstep⟩ := s.compile_of_ok (Func.propagate_eq f.name m hf)
    obtain ⟨s'', hrun', hextends'⟩ := s'.compileAll_of_loopFree m hafter
    obtain ⟨t, halone, hgathered⟩ := Compilation.start.compileAll_of_loopFree m hafter
    have hwhole : Compilation.start.compileAll m (before ++ f :: after) = .ok s'' := by
      rw [Compilation.compileAll_append_of_ok hrun, Compilation.compileAll_cons_of_ok hcompile, hrun']
    refine ⟨_, _, _, _, s, s', s'', hrun, hextends, List.length_map _, hcompile, hstep, hrun', hextends',
      Program.propagate_of_compileAll hrun hextends layout, Program.propagate_of_compileAll halone hgathered layout,
      ?_⟩
    have hall := (hextends.trans hstep).trans hextends'
    rw [List.append_assoc _ [f.fold m]] at hall
    exact Program.propagate_of_compileAll hwhole hall layout
  · intro p hp
    obtain ⟨s, hrun, hextends⟩ := Compilation.start.compileAll_of_loopFree m hp
    have hwhole := Program.propagate_of_compileAll hrun hextends p.layout
    refine ⟨⟨_, p.functions.map fun f => Verdict.of ⟨[f.fold m], p.layout⟩ ((f.fold m).diagnose f.name m), hwhole,
      ?_, ?_⟩, Program.accepted_iff_alone m hp⟩
    · rw [List.map_map]
      exact List.map_congr_left fun f hf => Program.propagate_alone m (hp f hf) p.layout
    · simp only [Verdict.errors_of, List.flatMap_map]
      rfl

/-- `x = 0; return 1 / x`. -/
def zeroing : Func where
  name := "f"
  parameters := []
  returnKinds := [.field]
  statements :=
    [.define ⟨"x", .field⟩ (.field (.number (.ofNat 0))),
      .ret [.field (.binary .div (.number (.ofNat 1)) (.ident "x"))]]

/-- `y = 3; return f() / x, y`, with a variable of `zeroing` that is a parameter here, and a call of `f`. -/
def calling : Func where
  name := "g"
  parameters := [⟨"x", .field⟩]
  returnKinds := [.field, .field]
  statements :=
    [.define ⟨"y", .field⟩ (.field (.number (.ofNat 3))),
      .ret [.field (.binary .div (.call "f" []) (.ident "x")), .field (.ident "y")]]

/-- `return 2 ** 9, g(y)`, under the name of `zeroing` and with a variable of `calling`. -/
def raising : Func where
  name := "f"
  parameters := [⟨"y", .field⟩]
  returnKinds := [.field, .field]
  statements :=
    [.ret [.field (.binary .pow (.number (.ofNat 2)) (.number (.ofNat 9))), .field (.call "g" [.field (.ident "y")])]]

/-- Of three functions the outer two are refused, both as `f`, and the one between them is as it is alone. -/
theorem namesakes_isolated :
    (calling.LoopFree ∧ ∀ g ∈ [zeroing] ++ [raising], g.LoopFree) ∧
      Program.propagate 8 ⟨[zeroing, calling, raising], []⟩ = .ok (.rejected
        [⟨"f", .binary .div (.number (.ofNat 1)) (.number (.ofNat 0)), .divisionByZero⟩,
          ⟨"f", .binary .pow (.number (.ofNat 2)) (.number (.ofNat 9)), .exponentOutOfBounds 8⟩]) ∧
      (∃ f' block fs errors gs errors', Program.propagate 8 ⟨[calling], []⟩ = .ok (.of ⟨[f'], []⟩ block) ∧
        fs.length = 1 ∧ Program.propagate 8 ⟨[zeroing], []⟩ = .ok (.of ⟨fs, []⟩ errors) ∧
        Program.propagate 8 ⟨[raising], []⟩ = .ok (.of ⟨gs, []⟩ errors') ∧
        Program.propagate 8 ⟨[zeroing, calling, raising], []⟩ =
          .ok (.of ⟨fs ++ f' :: gs, []⟩ (errors ++ block ++ errors'))) ∧
      ((∃ new, Program.propagate 8 ⟨[zeroing, calling, raising], []⟩ = .ok (.accepted new)) ↔
        ∀ f ∈ [zeroing, calling, raising], ∃ new, Program.propagate 8 ⟨[f], []⟩ = .ok (.accepted new)) := by
  have hcalling : calling.LoopFree := by decide
  have hothers : ∀ g ∈ [zeroing] ++ [raising], g.LoopFree := by decide
  have hall : Program.LoopFree ⟨[zeroing, calling, raising], []⟩ := by decide
  obtain ⟨hone, hprogram⟩ := Program.functions_isolated 8
  obtain ⟨f', block, hblock⟩ := hone calling hcalling
  obtain ⟨halone, hamong⟩ := hblock []
  obtain ⟨fs, errors, gs, errors', s, s', s'', -, -, hlength, -, -, -, -, hbefore, hafter, hwhole⟩ :=
    hamong [zeroing] [raising] hothers
  exact ⟨⟨hcalling, hothers⟩, rfl, ⟨f', block, fs, errors, gs, errors', halone, hlength, hbefore, hafter, hwhole⟩,
    (hprogram _ hall).2⟩

end ConstFold
