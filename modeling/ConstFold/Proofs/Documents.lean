import ConstFold.Command
import ConstFold.Proofs.Interchange
import ConstFold.Proofs.Staging
import ConstFold.Proofs.Stops

/-!
# Documents settle after one run

A program read from a document is plain: it has no extra fields, and its definitions assign expressions of
their variables' kinds (`Program.plain_of_deserialize?`).  Plain programs are read back from their documents
as they are (`Program.Plain.survives`), propagation leaves them plain (`Program.Plain.fold`), and after it they
are their own result (`Program.fold_fold`).  So a document that propagation wrote is propagated to itself, and
the lines on its functions count as many statements after as before (`Document.propagate_output`).
-/

namespace ConstFold

/-- A program as documents give it: each object has its own fields only, and the kinds agree. -/
structure Program.Plain (p : Program) : Prop where
  layout : p.layout = ProgramField.all.map .own
  functions : ∀ f ∈ p.functions, f.layout = FuncField.all.map .own
  kinds : KindsAgree p.definitions

/-! ## What is read is plain -/

mutual

/-- The kinds agree in every statement that is read, at every depth of loops. -/
theorem Stmt.kindsAgree_of_ofJson? : ∀ (j : Json) {s : Stmt}, Stmt.ofJson? j = some s → KindsAgree s.definitions
  | .object members, s, h => by
    unfold Stmt.ofJson? at h
    split at h
    · obtain ⟨v, -, rfl⟩ := Option.map_eq_some_iff.1 h
      exact kindsAgree_nil
    · -- the one node whose reading asks for the kinds
      obtain ⟨v, -, h⟩ := Option.bind_eq_some_iff.1 h
      obtain ⟨e, -, h⟩ := Option.bind_eq_some_iff.1 h
      split at h
      · rename_i hkind
        cases h
        exact (kindsAgree_singleton v e).2 hkind
      · cases h
    · obtain ⟨vs, -, h⟩ := Option.bind_eq_some_iff.1 h
      obtain ⟨c, -, h⟩ := Option.bind_eq_some_iff.1 h
      cases h
      exact kindsAgree_nil
    · obtain ⟨es, -, rfl⟩ := Option.map_eq_some_iff.1 h
      exact kindsAgree_nil
    · obtain ⟨a, -, h⟩ := Option.bind_eq_some_iff.1 h
      obtain ⟨b, -, h⟩ := Option.bind_eq_some_iff.1 h
      cases h
      exact kindsAgree_nil
    · obtain ⟨v, -, h⟩ := Option.bind_eq_some_iff.1 h
      obtain ⟨first, -, h⟩ := Option.bind_eq_some_iff.1 h
      obtain ⟨last, -, h⟩ := Option.bind_eq_some_iff.1 h
      obtain ⟨body, hbody, h⟩ := Option.bind_eq_some_iff.1 h
      cases h
      exact Stmt.kindsAgree_of_listAt? "statements" members hbody
    · cases h
  | .null, _, h => by cases h
  | .bool _, _, h => by cases h
  | .number _, _, h => by cases h
  | .string _, _, h => by cases h
  | .array _, _, h => by cases h

theorem Stmt.kindsAgree_of_ofJsons? : ∀ (js : List Json) {body : List Stmt},
    Stmt.ofJsons? js = some body → KindsAgree (Stmt.definitionsIn body)
  | [], body, h => by
    cases h
    exact kindsAgree_nil
  | j :: js, body, h => by
    unfold Stmt.ofJsons? at h
    obtain ⟨s, hs, h⟩ := Option.bind_eq_some_iff.1 h
    obtain ⟨rest, hrest, h⟩ := Option.bind_eq_some_iff.1 h
    cases h
    exact (kindsAgree_append _ _).2 ⟨Stmt.kindsAgree_of_ofJson? j hs, Stmt.kindsAgree_of_ofJsons? js hrest⟩

theorem Stmt.kindsAgree_of_listAt? (key : Text) : ∀ (members : List (Text × Json)) {body : List Stmt},
    Stmt.listAt? key members = some body → KindsAgree (Stmt.definitionsIn body)
  | [], _, h => by cases h
  | (k, j) :: members, body, h => by
    unfold Stmt.listAt? at h
    split at h
    · split at h
      · rename_i items
        exact Stmt.kindsAgree_of_ofJsons? items h
      · cases h
    · exact Stmt.kindsAgree_of_listAt? key members h

end

/-- What is in a list that was read was read from something. -/
theorem exists_of_mem_mapM {α : Type} {read? : Json → Option α} {items : List Json} {l : List α}
    (h : items.mapM read? = some l) {a : α} (ha : a ∈ l) : ∃ j ∈ items, read? j = some a := by
  induction items generalizing l with
  | nil =>
    cases h
    cases ha
  | cons j items ih =>
    rw [List.mapM_cons] at h
    obtain ⟨b, hb, h⟩ := Option.bind_eq_some_iff.1 h
    obtain ⟨l', hl', h⟩ := Option.bind_eq_some_iff.1 h
    cases h
    rcases List.mem_cons.1 ha with rfl | ha
    · exact ⟨j, List.mem_cons_self, hb⟩
    · obtain ⟨i, hi, hread⟩ := ih hl' ha
      exact ⟨i, List.mem_cons_of_mem _ hi, hread⟩

theorem Func.plain_of_ofJson? {j : Json} {f : Func} (h : Func.ofJson? j = some f) :
    f.layout = FuncField.all.map .own ∧ KindsAgree (Stmt.definitionsIn f.statements) := by
  obtain ⟨members, -, h⟩ := Option.bind_eq_some_iff.1 h
  obtain ⟨name, -, h⟩ := Option.bind_eq_some_iff.1 h
  obtain ⟨parameters, -, h⟩ := Option.bind_eq_some_iff.1 h
  obtain ⟨returnKinds, -, h⟩ := Option.bind_eq_some_iff.1 h
  obtain ⟨statements, hstatements, h⟩ := Option.bind_eq_some_iff.1 h
  cases h
  exact ⟨rfl, Stmt.kindsAgree_of_listAt? "statements" members hstatements⟩

theorem Program.plain_of_deserialize? {source : Text} {p : Program}
    (h : Program.deserialize? source = some p) : p.Plain := by
  obtain ⟨j, -, h⟩ := Option.bind_eq_some_iff.1 h
  obtain ⟨members, -, h⟩ := Option.bind_eq_some_iff.1 h
  obtain ⟨functions, hfunctions, h⟩ := Option.bind_eq_some_iff.1 h
  cases h
  obtain ⟨items, -, hread⟩ := Option.bind_eq_some_iff.1 hfunctions
  have hplain : ∀ f ∈ functions,
      f.layout = FuncField.all.map .own ∧ KindsAgree (Stmt.definitionsIn f.statements) := by
    intro f hf
    obtain ⟨item, -, hitem⟩ := exists_of_mem_mapM hread hf
    exact Func.plain_of_ofJson? hitem
  refine ⟨rfl, fun f hf => (hplain f hf).1, fun d hd => ?_⟩
  obtain ⟨f, hf, hd⟩ := List.mem_flatMap.1 hd
  exact (hplain f hf).2 d hd

/-! ## What is plain is read back -/

theorem Func.wellFormed_layout {f : Func} (h : f.layout = FuncField.all.map .own) :
    Slot.WellFormed FuncField.key f.layout where
  own field := by
    rw [h]
    exact List.mem_map_of_mem (by cases field <;> decide)
  extra k v hslot := by
    rw [h] at hslot
    obtain ⟨field, -, hfield⟩ := List.mem_map.1 hslot
    cases hfield

theorem Func.bare_of_layout {f : Func} (h : f.layout = FuncField.all.map .own) : f.bare = f := by
  obtain ⟨name, parameters, returnKinds, statements, layout⟩ := f
  subst h
  rfl

theorem Program.Plain.survives {p : Program} (h : p.Plain) :
    Program.deserialize? p.serialize = some p := by
  obtain ⟨functions, layout⟩ := p
  obtain ⟨rfl, hfunctions, hkinds⟩ := h
  have hread := Func.mapM_ofJson?_reread functions fun f hf => Func.wellFormed_layout (hfunctions f hf)
  have hbare : functions.map Func.bare = functions :=
    (List.map_congr_left fun f hf => Func.bare_of_layout (hfunctions f hf)).trans (List.map_id' functions)
  rw [Program.definitions] at hkinds
  rw [if_pos hkinds, hbare] at hread
  -- the one field of a plain program is where it was written
  have hjson : (Program.toJson ⟨functions, ProgramField.all.map .own⟩).reread =
      .object [("functions", .array (Json.rereadItems (functions.map Func.toJson)))] := rfl
  rw [deserialize?, serialize, Json.parse?_text, Option.bind_some, hjson]
  simp [ofJson?, Json.object?, Json.array?, hread, ProgramField.all]

/-! ## What is plain stays plain -/

theorem Expr.kind_fold (m : Int) (κ : Store) (e : Expr) : (e.fold m κ).kind = e.kind := by
  cases e <;> rfl

theorem Stmt.kindsAgree_fold {m : Int} {k : Constants} {s s' : Stmt} (h : s.fold m k = some s')
    (hs : KindsAgree s.definitions) : KindsAgree s'.definitions := by
  cases s with
  | define v e =>
    obtain ⟨-, rfl⟩ := Stmt.of_fold_define h
    rw [definitions, kindsAgree_singleton] at hs ⊢
    rw [hs, Expr.kind_fold]
  | _ =>
    cases h
    exact hs

theorem Stmt.kindsAgree_foldAll {m : Int} {k : Constants} {body : List Stmt}
    (hb : KindsAgree (Stmt.definitionsIn body)) : KindsAgree (Stmt.definitionsIn (Stmt.foldAll m k body)) := by
  induction body generalizing k with
  | nil => exact hb
  | cons s rest ih =>
    obtain ⟨hs, hrest⟩ := (kindsAgree_append _ _).1 hb
    cases hfold : s.fold m k with
    | none =>
      simp only [foldAll, hfold, Option.toList_none, List.nil_append]
      exact ih hrest
    | some s' =>
      simp only [foldAll, hfold, Option.toList_some, List.singleton_append, definitionsIn]
      exact (kindsAgree_append _ _).2 ⟨Stmt.kindsAgree_fold hfold hs, ih hrest⟩

theorem Program.Plain.fold {p : Program} (h : p.Plain) (m : Int) : (p.fold m).Plain where
  layout := h.layout
  functions := List.forall_mem_map.2 h.functions
  kinds d hd := by
    obtain ⟨f', hf', hd⟩ := List.mem_flatMap.1 hd
    obtain ⟨f, hf, rfl⟩ := List.mem_map.1 hf'
    have hf : KindsAgree (Stmt.definitionsIn f.statements) := fun d hd =>
      h.kinds d (List.mem_flatMap.2 ⟨f, hf, hd⟩)
    exact Stmt.kindsAgree_foldAll hf d hd

/-! ## Top theorem -/

theorem Program.loopFree_fold (m : Int) {p : Program} (hp : p.LoopFree) : (p.fold m).LoopFree :=
  List.forall_mem_map.2 fun f hf => Func.loopFree_fold m (hp f hf)

theorem Program.fold_fold (m : Int) {p : Program} (hp : p.LoopFree) : (p.fold m).fold m = p.fold m := by
  simp only [fold, List.map_map]
  congr 1
  exact List.map_congr_left fun f hf => Func.fold_fold m (hp f hf)

theorem Program.eq_fold_of_accepted {m : Int} {p p' : Program} (h : p.propagate m = .ok (.accepted p')) :
    p' = p.fold m ∧ p'.propagate m = .ok (.accepted p') := by
  have hp := Program.loopFree_of_ok h
  have hagain := Program.propagate_eq m (Program.loopFree_fold m hp)
  rw [Program.fold_fold m hp] at hagain
  rw [Program.propagate_eq m hp] at h
  split at h
  · rename_i hnil
    cases h
    rw [if_pos hnil] at hagain
    exact ⟨rfl, hagain⟩
  · cases h

theorem Document.propagate_of_accepted {m : Int} {source : Text} {p p' : Program}
    (hread : Program.deserialize? source = some p) (haccepted : p.propagate m = .ok (.accepted p')) :
    Document.propagate m source = .done p'.serialize (List.zipWith Func.summary p.functions p'.functions) := by
  simp only [Document.propagate, hread, haccepted]

/-- What is written is a row of characters. -/
theorem Document.isUnicode_of_propagate {m : Int} {source output : Text} {summaries : List Text}
    (h : Document.propagate m source = .done output summaries) : output.IsUnicode := by
  unfold Document.propagate at h
  split at h
  · cases h
  · split at h
    · cases h
    · cases h
    · rename_i p' _
      cases h
      exact p'.isUnicode_serialize

/-- **Documents settle after one run.**  A document written by propagation is propagated to itself.  Its program
has the functions of the source, in order, and where the first run says of a function how many statements it
had and has, the second one says that it had and has that latter number. -/
theorem Document.propagate_output {m : Int} {source output : Text} {summaries : List Text}
    (h : Document.propagate m source = .done output summaries) :
    ∃ p p', Program.deserialize? source = some p ∧ Program.deserialize? output = some p' ∧
      p'.functions.map Func.name = p.functions.map Func.name ∧
      summaries = List.zipWith (fun (f f' : Func) => f.name ++ ": " ++ toString f.statements.length ++ " -> " ++
        toString f'.statements.length ++ " statements") p.functions p'.functions ∧
      Document.propagate m output = .done output (p'.functions.map fun f' =>
        f'.name ++ ": " ++ toString f'.statements.length ++ " -> " ++ toString f'.statements.length ++
          " statements") := by
  unfold Document.propagate at h
  split at h
  · cases h
  · rename_i p hp
    split at h
    · cases h
    · cases h
    · rename_i p' haccepted
      cases h
      obtain ⟨hfold, hagain⟩ := Program.eq_fold_of_accepted haccepted
      have hplain : p'.Plain := hfold ▸ (Program.plain_of_deserialize? hp).fold m
      have hread := hplain.survives
      refine ⟨p, p', hp, hread, ?_, rfl, ?_⟩
      · rw [hfold]
        exact (List.map_map).trans rfl
      · rw [Document.propagate_of_accepted hread hagain, List.zipWith_self]
        rfl

/-- A name that is half of a pair. -/
def halfName (number : Nat) : Text := ⟨[.ofNat number]⟩

/-- `main` loses a definition and a choice, `unit` its only definition.  Names of variables may be halves of pairs,
and two of them are two names. -/
def thrifty : Program where
  functions :=
    [{ name := "main", parameters := [⟨halfName 0xd801, .field⟩], returnKinds := [.field]
       statements :=
        [.define ⟨halfName 0xd800, .field⟩ (.field (.binary .pow (.number (.ofNat 2)) (.number (.ofNat 3)))),
          .define ⟨"y", .field⟩ (.field (.binary .mul (.ident (halfName 0xd801)) (.ident (halfName 0xd800)))),
          .ret [.field (.ifElse (.comparison .lt (.ident (halfName 0xd800)) (.number (.ofNat 9))) (.ident "y")
            (.binary .div (.number (.ofNat 1)) (.number (.ofNat 0))))]] },
      { name := "unit", parameters := [], returnKinds := [.bool]
        statements :=
          [.define ⟨"t", .bool⟩ (.bool (.comparison .eq (.number (.ofNat 1)) (.number (.ofNat 1)))),
            .ret [.bool (.ident "t")]] }]

def thriftyPropagated : Program where
  functions :=
    [{ name := "main", parameters := [⟨halfName 0xd801, .field⟩], returnKinds := [.field]
       statements :=
        [.define ⟨"y", .field⟩ (.field (.binary .mul (.ident (halfName 0xd801)) (.number (.ofNat 8)))),
          .ret [.field (.ident "y")]] },
      { name := "unit", parameters := [], returnKinds := [.bool]
        statements := [.ret [.bool (.value true)]] }]

theorem thrifty_plain : thrifty.Plain where
  layout := rfl
  functions := List.forall_mem_cons.2 ⟨rfl, List.forall_mem_singleton.2 rfl⟩
  kinds := by decide

theorem propagate_thrifty : Document.propagate 64 thrifty.serialize =
    .done thriftyPropagated.serialize ["main: 3 -> 2 statements", "unit: 2 -> 1 statements"] := by
  have hsummaries : List.zipWith Func.summary thrifty.functions thriftyPropagated.functions =
      (["main: 3 -> 2 statements", "unit: 2 -> 1 statements"] : List Text) := by decide +kernel
  rw [← hsummaries]
  exact Document.propagate_of_accepted thrifty_plain.survives rfl

theorem thrifty_output :
    Document.propagate 64 thrifty.serialize =
      .done thriftyPropagated.serialize ["main: 3 -> 2 statements", "unit: 2 -> 1 statements"] ∧
    Document.propagate 64 thriftyPropagated.serialize =
      .done thriftyPropagated.serialize ["main: 2 -> 2 statements", "unit: 1 -> 1 statements"] := by
  obtain ⟨p, p', -, hread, -, -, hagain⟩ := Document.propagate_output propagate_thrifty
  have hplain : thriftyPropagated.Plain := thrifty_plain.fold 64
  rw [hplain.survives] at hread
  cases hread
  refine ⟨propagate_thrifty, hagain.trans (congrArg _ ?_)⟩
  decide +kernel

end ConstFold
