import ConstFold.Interchange
import ConstFold.Proofs.Json.Stable

/-!
# Programs survive writing and reading

The document of a program is read back as the program without its extra fields if each definition in it
assigns an expression of its variable's kind, and is refused otherwise (`Program.deserialize?_serialize`).
The JSON of expressions and statements is stable, so for them it is enough to read the JSON that was to be
written; the fields of functions and programs are found through their layouts.
-/

namespace ConstFold

/-! ## What is kept -/

mutual

/-- The definitions in a statement, at every depth of loops. -/
def Stmt.definitions : Stmt → List (Variable × Expr)
  | .define v e => [(v, e)]
  | .loop _ _ _ body => Stmt.definitionsIn body
  | _ => []

def Stmt.definitionsIn : List Stmt → List (Variable × Expr)
  | [] => []
  | s :: rest => s.definitions ++ Stmt.definitionsIn rest

end

def Program.definitions (p : Program) : List (Variable × Expr) :=
  p.functions.flatMap fun f => Stmt.definitionsIn f.statements

/-- Definitions that assign expressions of their variables' kinds. -/
def KindsAgree (definitions : List (Variable × Expr)) : Prop := ∀ d ∈ definitions, d.1.kind = d.2.kind

instance (definitions : List (Variable × Expr)) : Decidable (KindsAgree definitions) :=
  inferInstanceAs (Decidable (∀ d ∈ definitions, d.1.kind = d.2.kind))

/-- A function without its extra fields. -/
def Func.bare (f : Func) : Func :=
  { name := f.name, parameters := f.parameters, returnKinds := f.returnKinds, statements := f.statements }

/-- A program without its extra fields and those of its functions. -/
def Program.bare (p : Program) : Program := { functions := p.functions.map Func.bare }

/-- An object has all its own fields, and no extra field goes by the key of one of them. -/
structure Slot.WellFormed {φ : Type} (key : φ → Text) (layout : List (Slot φ)) : Prop where
  own : ∀ field, .own field ∈ layout
  extra : ∀ k v, .extra k v ∈ layout → ∀ field, k ≠ key field

structure Program.WellFormed (p : Program) : Prop where
  layout : Slot.WellFormed ProgramField.key p.layout
  functions : ∀ f ∈ p.functions, Slot.WellFormed FuncField.key f.layout

/-! ## Words -/

@[simp] theorem Tag.ofText?_text (t : Tag) : Tag.ofText? t.text = some t := by
  cases t <;> decide

@[simp] theorem Kind.ofText?_text (k : Kind) : Kind.ofText? k.text = some k := by
  cases k <;> decide

@[simp] theorem ArithOp.ofSymbol?_symbol (op : ArithOp) : ArithOp.ofSymbol? op.symbol = some op := by
  cases op <;> decide

@[simp] theorem CompareOp.ofSymbol?_symbol (op : CompareOp) : CompareOp.ofSymbol? op.symbol = some op := by
  cases op <;> decide

theorem Scalar.ofInt_val (a : Scalar) : Scalar.ofInt a.val = a := by
  have hmod : ((a.val : Int) % modulus).toNat = a.val := by
    rw [Int.emod_eq_of_lt (Int.natCast_nonneg _) (Int.ofNat_lt.2 a.val_lt), Int.toNat_natCast]
  simp only [Scalar.ofInt, hmod]

@[simp] theorem Scalar.ofText?_text (a : Scalar) : Scalar.ofText? a.text = some a := by
  have hdigits : (Nat.toDigits 10 a.val).all Char.isDigit = true :=
    List.all_eq_true.2 fun c hc => Nat.isDigit_of_mem_toDigits (by decide) (by decide) hc
  have hnat : Decimal.natOfDigits? (Nat.toDigits 10 a.val) = some a.val := by
    rw [Decimal.natOfDigits?, if_pos ⟨Nat.toDigits_ne_nil, hdigits⟩, Nat.ofDigitChars_ten_toDigits]
  have hint : Decimal.intOfChars? (Nat.toDigits 10 a.val) = some (a.val : Int) := by
    unfold Decimal.intOfChars?
    split
    · rename_i heq
      rw [heq] at hdigits
      cases hdigits
    · rw [hnat]
      rfl
  rw [Scalar.ofText?, Scalar.text, Text.chars_toString, hint]
  exact congrArg some a.ofInt_val

/-! ## Nodes -/

namespace Json

variable (key k : Text) (j : Json) (members : List (Text × Json))

@[simp] theorem node_eq (tag : Tag) :
    node tag members = .object (("__type__", .string tag.text) :: members) := rfl

@[simp] theorem exprNode_eq (tag : Tag) (kind : Kind) : exprNode tag kind members =
    .object (("__type__", .string tag.text) :: ("kind", .string kind.text) :: members) := rfl

@[simp] theorem readAt?_cons {α : Type} (read? : Json → Option α) :
    readAt? read? key ((k, j) :: members) = if key = k then read? j else readAt? read? key members := by
  rw [readAt?, Keyed.lookup_cons_eq_ite]
  split <;> rfl

@[simp] theorem stringAt?_cons :
    stringAt? key ((k, j) :: members) = if key = k then j.string? else stringAt? key members :=
  readAt?_cons key k j members string?

@[simp] theorem listAt?_cons {α : Type} (read? : Json → Option α) : listAt? read? key ((k, j) :: members) =
    if key = k then j.array?.bind fun items => items.mapM read? else listAt? read? key members := by
  rw [listAt?, readAt?_cons]
  split <;> rfl

@[simp] theorem tag?_cons (tag : Tag) : tag? (("__type__", .string tag.text) :: members) = some tag := by
  simp [tag?, string?, Tag.key]

end Json

theorem Json.stable_node {tag : Tag} {members : List (Text × Json)}
    (hkeys : (Tag.key :: members.map Prod.fst).Nodup) (h : ∀ member ∈ members, Stable member.2) :
    Stable (.node tag members) := by
  refine stable_object hkeys fun member hm => ?_
  rcases List.mem_cons.1 hm with rfl | hm
  · exact stable_string _
  · exact h member hm

theorem Json.stable_exprNode {tag : Tag} {kind : Kind} {members : List (Text × Json)}
    (hkeys : (Tag.key :: "kind" :: members.map Prod.fst).Nodup) (h : ∀ member ∈ members, Stable member.2) :
    Stable (.exprNode tag kind members) := by
  refine stable_node hkeys fun member hm => ?_
  rcases List.mem_cons.1 hm with rfl | hm
  · exact stable_string _
  · exact h member hm

theorem Kind.stable_toJson (k : Kind) : k.toJson.Stable := Json.stable_string k.text

theorem Variable.stable_toJson (v : Variable) : v.toJson.Stable :=
  Json.stable_object (by simp) (by simp [Json.stable_string, Kind.stable_toJson])

theorem Scalar.stable_toJson (a : Scalar) : a.toJson.Stable :=
  Json.stable_exprNode (by simp [Tag.key]) (by simp [Json.stable_string])

mutual

theorem FieldExpr.stable_toJson : ∀ e : FieldExpr, e.toJson.Stable
  | .number v => v.stable_toJson
  | .ident x => Json.stable_exprNode (by simp [Tag.key]) (by simp [Json.stable_string])
  | .binary op a b => Json.stable_exprNode (by simp [Tag.key])
      (by simp [Json.stable_string, a.stable_toJson, b.stable_toJson])
  | .ifElse c a b => Json.stable_exprNode (by simp [Tag.key])
      (by simp [c.stable_toJson, a.stable_toJson, b.stable_toJson])
  | .call f args => Json.stable_exprNode (by simp [Tag.key])
      (by simp [Json.stable_string, Json.stable_array (Expr.stable_toJsons args)])

theorem BoolExpr.stable_toJson : ∀ e : BoolExpr, e.toJson.Stable
  | .value b => Json.stable_exprNode (by simp [Tag.key]) (by simp [Json.stable_bool])
  | .ident x => Json.stable_exprNode (by simp [Tag.key]) (by simp [Json.stable_string])
  | .comparison op a b => Json.stable_exprNode (by simp [Tag.key])
      (by simp [Json.stable_string, a.stable_toJson, b.stable_toJson])

theorem Expr.stable_toJson : ∀ e : Expr, e.toJson.Stable
  | .field e => e.stable_toJson
  | .bool e => e.stable_toJson

theorem Expr.stable_toJsons : ∀ es : List Expr, ∀ j ∈ Expr.toJsons es, j.Stable
  | [] => by simp [Expr.toJsons]
  | e :: es => by
    rw [Expr.toJsons]
    exact List.forall_mem_cons.2 ⟨e.stable_toJson, Expr.stable_toJsons es⟩

end

theorem Kind.stable_toJsons (ks : List Kind) : Json.Stable (.array (ks.map Kind.toJson)) :=
  Json.stable_array (List.forall_mem_map.2 fun k _ => k.stable_toJson)

theorem Variable.stable_toJsons (vs : List Variable) : Json.Stable (.array (vs.map Variable.toJson)) :=
  Json.stable_array (List.forall_mem_map.2 fun v _ => v.stable_toJson)

theorem CallList.stable_toJson (c : CallList) : c.toJson.Stable :=
  Json.stable_node (by simp [Tag.key])
    (by simp [Json.stable_string, Json.stable_array (Expr.stable_toJsons c.args), Kind.stable_toJsons])

mutual

theorem Stmt.stable_toJson : ∀ s : Stmt, s.toJson.Stable
  | .declare v => Json.stable_node (by simp [Tag.key]) (by simp [v.stable_toJson])
  | .define v e => Json.stable_node (by simp [Tag.key]) (by simp [v.stable_toJson, e.stable_toJson])
  | .defineMany vs c => Json.stable_node (by simp [Tag.key])
      (by simp [Variable.stable_toJsons, c.stable_toJson])
  | .ret es => Json.stable_node (by simp [Tag.key]) (by simp [Json.stable_array (Expr.stable_toJsons es)])
  | .require a b => Json.stable_node (by simp [Tag.key]) (by simp [a.stable_toJson, b.stable_toJson])
  | .loop v first last body => Json.stable_node (by simp [Tag.key])
      (by simp [v.stable_toJson, first.stable_toJson, last.stable_toJson,
        Json.stable_array (Stmt.stable_toJsons body)])

theorem Stmt.stable_toJsons : ∀ body : List Stmt, ∀ j ∈ Stmt.toJsons body, j.Stable
  | [] => by simp [Stmt.toJsons]
  | s :: rest => by
    rw [Stmt.toJsons]
    exact List.forall_mem_cons.2 ⟨s.stable_toJson, Stmt.stable_toJsons rest⟩

end

/-! ## Expressions -/

@[simp] theorem Kind.ofJson?_toJson (k : Kind) : Kind.ofJson? k.toJson = some k := k.ofText?_text

@[simp] theorem Variable.ofJson?_toJson (v : Variable) : Variable.ofJson? v.toJson = some v := by
  simp [Variable.toJson, Variable.ofJson?, Json.object?, Json.string?]

@[simp] theorem Scalar.ofJson?_toJson (a : Scalar) : Scalar.ofJson? a.toJson = some a := by
  simp [Scalar.toJson, Scalar.ofJson?, Scalar.ofMembers?, Json.object?, Json.string?]

/-- No field expression is read where a boolean one was written. -/
theorem FieldExpr.ofJson?_bool (e : BoolExpr) : FieldExpr.ofJson? e.toJson = none := by
  cases e <;> simp [BoolExpr.toJson, FieldExpr.ofJson?]

mutual

theorem FieldExpr.ofJson?_toJson : ∀ e : FieldExpr, FieldExpr.ofJson? e.toJson = some e
  | .number v => by
    simp [FieldExpr.toJson, Scalar.toJson, FieldExpr.ofJson?, Scalar.ofMembers?, Json.string?]
  | .ident x => by simp [FieldExpr.toJson, FieldExpr.ofJson?, Json.string?]
  | .binary op a b => by
    simp [FieldExpr.toJson, FieldExpr.ofJson?, FieldExpr.at?, Json.string?, a.ofJson?_toJson,
      b.ofJson?_toJson]
  | .ifElse c a b => by
    simp [FieldExpr.toJson, FieldExpr.ofJson?, FieldExpr.at?, BoolExpr.at?, c.ofJson?_toJson,
      a.ofJson?_toJson, b.ofJson?_toJson]
  | .call f args => by
    simp [FieldExpr.toJson, FieldExpr.ofJson?, Expr.listAt?, Json.string?, Expr.ofJsons?_toJsons args]

theorem BoolExpr.ofJson?_toJson : ∀ e : BoolExpr, BoolExpr.ofJson? e.toJson = some e
  | .value b => by simp [BoolExpr.toJson, BoolExpr.ofJson?, Json.bool?]
  | .ident x => by simp [BoolExpr.toJson, BoolExpr.ofJson?, Json.string?]
  | .comparison op a b => by
    simp [BoolExpr.toJson, BoolExpr.ofJson?, FieldExpr.at?, Json.string?, a.ofJson?_toJson,
      b.ofJson?_toJson]

theorem Expr.either?_toJson : ∀ e : Expr,
    Expr.either? (FieldExpr.ofJson? e.toJson) (BoolExpr.ofJson? e.toJson) = some e
  | .field e => by
    rw [Expr.toJson, e.ofJson?_toJson]
    rfl
  | .bool e => by
    rw [Expr.toJson, FieldExpr.ofJson?_bool, e.ofJson?_toJson]
    rfl

theorem Expr.ofJsons?_toJsons : ∀ es : List Expr, Expr.ofJsons? (Expr.toJsons es) = some es
  | [] => rfl
  | e :: es => by
    rw [Expr.toJsons, Expr.ofJsons?, e.either?_toJson, Expr.ofJsons?_toJsons es]
    rfl

end

theorem Expr.ofJson?_toJson (e : Expr) : Expr.ofJson? e.toJson = some e := e.either?_toJson

/-- Reading undoes writing on a list if it does on each item. -/
theorem mapM_map {α : Type} {write : α → Json} {read? : Json → Option α}
    (h : ∀ a, read? (write a) = some a) (l : List α) : (l.map write).mapM read? = some l := by
  induction l with
  | nil => rfl
  | cons a l ih =>
    rw [List.map_cons, List.mapM_cons, h, ih]
    rfl

theorem CallList.ofJson?_toJson (c : CallList) : CallList.ofJson? c.toJson = some c := by
  simp [CallList.toJson, CallList.ofJson?, Json.object?, Json.string?, Json.array?, Expr.listAt?,
    Expr.ofJsons?_toJsons, mapM_map Kind.ofJson?_toJson]

/-! ## Statements -/

theorem kindsAgree_nil : KindsAgree [] := by
  intro d hd
  cases hd

theorem kindsAgree_singleton (v : Variable) (e : Expr) : KindsAgree [(v, e)] ↔ v.kind = e.kind :=
  List.forall_mem_singleton

theorem kindsAgree_append (ds es : List (Variable × Expr)) :
    KindsAgree (ds ++ es) ↔ KindsAgree ds ∧ KindsAgree es :=
  List.forall_mem_append

/-- A row is read back if its first item and the others are, which they are if the kinds in all agree. -/
theorem read_cons_of_kinds {α : Type} (ds es : List (Variable × Expr)) (a : α) (l : List α) :
    ((if KindsAgree ds then some a else none).bind fun b =>
      (if KindsAgree es then some l else none).bind fun m => some (b :: m)) =
      if KindsAgree (ds ++ es) then some (a :: l) else none := by
  by_cases hds : KindsAgree ds
  · by_cases hes : KindsAgree es
    · simp [kindsAgree_append, hds, hes]
    · simp [kindsAgree_append, hds, hes]
  · simp [kindsAgree_append, hds]

mutual

/-- A statement is read back exactly if the kinds in it agree. -/
theorem Stmt.ofJson?_toJson : ∀ s : Stmt,
    Stmt.ofJson? s.toJson = if KindsAgree s.definitions then some s else none
  | .declare v => by
    simp [Stmt.toJson, Stmt.ofJson?, Stmt.definitions, kindsAgree_nil]
  | .define v e => by
    -- the one node whose reading compares two of its fields
    simp [Stmt.toJson, Stmt.ofJson?, Stmt.definitions, kindsAgree_singleton,
      e.ofJson?_toJson]
  | .defineMany vs c => by
    simp [Stmt.toJson, Stmt.ofJson?, Stmt.definitions, kindsAgree_nil,
      Json.array?, mapM_map Variable.ofJson?_toJson, c.ofJson?_toJson]
  | .ret es => by
    simp [Stmt.toJson, Stmt.ofJson?, Stmt.definitions, kindsAgree_nil, Expr.listAt?,
      Expr.ofJsons?_toJsons]
  | .require a b => by
    simp [Stmt.toJson, Stmt.ofJson?, Stmt.definitions, kindsAgree_nil,
      a.ofJson?_toJson, b.ofJson?_toJson]
  | .loop v first last body => by
    have hbody := Stmt.ofJsons?_toJsons body
    by_cases hkinds : KindsAgree (Stmt.definitionsIn body)
    · simp [Stmt.toJson, Stmt.ofJson?, Stmt.definitions, Stmt.listAt?, hbody,
        hkinds]
    · simp [Stmt.toJson, Stmt.ofJson?, Stmt.definitions, Stmt.listAt?, hbody,
        hkinds]

theorem Stmt.ofJsons?_toJsons : ∀ body : List Stmt,
    Stmt.ofJsons? (Stmt.toJsons body) = if KindsAgree (Stmt.definitionsIn body) then some body else none
  | [] => by simp [Stmt.toJsons, Stmt.ofJsons?, Stmt.definitionsIn, kindsAgree_nil]
  | s :: rest => by
    rw [Stmt.toJsons, Stmt.ofJsons?, s.ofJson?_toJson, Stmt.ofJsons?_toJsons rest, Stmt.definitionsIn]
    exact read_cons_of_kinds s.definitions (Stmt.definitionsIn rest) s rest

end

/-! ## Functions and programs -/

/-- The layout told by an object's members is well-formed if the object has all its own fields. -/
theorem Slot.wellFormed_layout {φ : Type} {key : φ → Text} {own? : Text → Option φ}
    (hown : ∀ field, own? (key field) = some field) {members : List (Text × Json)}
    (h : ∀ field, key field ∈ members.map Prod.fst) : WellFormed key (Slot.layout own? members) where
  own field := by
    obtain ⟨member, hmember, hkey⟩ := List.mem_map.1 (h field)
    refine List.mem_map.2 ⟨member, hmember, ?_⟩
    simp only [hkey, hown]
  extra k v hslot field hk := by
    obtain ⟨⟨k', v'⟩, -, hmember⟩ := List.mem_map.1 hslot
    cases hfield : own? k' with
    | some other =>
      simp only [hfield] at hmember
      cases hmember
    | none =>
      simp only [hfield] at hmember
      cases hmember
      rw [hk, hown] at hfield
      cases hfield

/-- Each own field of a well-formed object is found in what is read back. -/
theorem Slot.WellFormed.lookup_reread {φ : Type} {key : φ → Text} {layout : List (Slot φ)}
    (h : WellFormed key layout) (hkey : ∀ a b, key a = key b → a = b) (value : φ → Json) (field : φ) :
    (Keyed.ofPairs (Json.rereadMembers (layout.map (Slot.member key value)))).lookup (key field) =
      some (value field).reread := by
  rw [Json.rereadMembers_eq_map, List.map_map]
  apply Keyed.lookup_ofPairs
  · exact List.mem_map.2 ⟨.own field, h.own field, rfl⟩
  · rintro pair hpair hfield
    obtain ⟨slot, hslot, rfl⟩ := List.mem_map.1 hpair
    cases slot with
    | own other => rw [show other = field from hkey _ _ hfield]; rfl
    | extra k v => exact absurd hfield (h.extra k v hslot field)

theorem FuncField.key_injective : ∀ a b : FuncField, a.key = b.key → a = b := by
  intro a b
  cases a <;> cases b <;> decide

theorem Func.stable_fieldJson (f : Func) (field : FuncField) : (f.fieldJson field).Stable := by
  cases field with
  | name => exact Json.stable_string f.name
  | parameters => exact Variable.stable_toJsons f.parameters
  | returnKinds => exact Kind.stable_toJsons f.returnKinds
  | statements => exact Json.stable_array (Stmt.stable_toJsons f.statements)

theorem Stmt.listAt?_eq (key : Text) (members : List (Text × Json)) :
    Stmt.listAt? key members = (Json.readAt? Json.array? key members).bind Stmt.ofJsons? := by
  induction members with
  | nil => rfl
  | cons member members ih =>
    obtain ⟨k, j⟩ := member
    rw [Json.readAt?_cons]
    by_cases hkey : key = k
    · cases j <;> simp [Stmt.listAt?, hkey, Json.array?]
    · cases j <;> simp [Stmt.listAt?, hkey, ih]

theorem Func.ofJson?_reread (f : Func) (h : Slot.WellFormed FuncField.key f.layout) :
    Func.ofJson? f.toJson.reread =
      if KindsAgree (Stmt.definitionsIn f.statements) then some f.bare else none := by
  rw [Func.toJson, Json.reread]
  generalize hmembers : Keyed.ofPairs (Json.rereadMembers _) = members
  have hfield (field : FuncField) {α : Type} (read? : Json → Option α) :
      Json.readAt? read? field.key members = read? (f.fieldJson field) := by
    rw [Json.readAt?, ← hmembers, h.lookup_reread FuncField.key_injective, f.stable_fieldJson, Option.bind_some]
  have hname : Json.stringAt? "name" members = some f.name := hfield .name Json.string?
  have hparameters : Json.readAt? Json.array? "parameters" members = some (f.parameters.map Variable.toJson) :=
    hfield .parameters Json.array?
  have hkinds : Json.readAt? Json.array? "returnKinds" members = some (f.returnKinds.map Kind.toJson) :=
    hfield .returnKinds Json.array?
  have hstatements : Json.readAt? Json.array? "statements" members = some (Stmt.toJsons f.statements) :=
    hfield .statements Json.array?
  simp only [Func.ofJson?, Json.object?, Json.listAt?, Stmt.listAt?_eq, hname, hparameters, hkinds, hstatements,
    Option.bind_some, mapM_map Variable.ofJson?_toJson, mapM_map Kind.ofJson?_toJson, Stmt.ofJsons?_toJsons,
    Option.bind_eq_bind]
  split <;> rfl

theorem Func.mapM_ofJson?_reread (fs : List Func) (h : ∀ f ∈ fs, Slot.WellFormed FuncField.key f.layout) :
    (Json.rereadItems (fs.map Func.toJson)).mapM Func.ofJson? =
      if KindsAgree (fs.flatMap fun f => Stmt.definitionsIn f.statements) then some (fs.map Func.bare)
      else none := by
  induction fs with
  | nil => rfl
  | cons f fs ih =>
    obtain ⟨hf, hfs⟩ := List.forall_mem_cons.1 h
    rw [List.map_cons, Json.rereadItems, List.mapM_cons, f.ofJson?_reread hf, ih hfs, List.flatMap_cons]
    exact read_cons_of_kinds (Stmt.definitionsIn f.statements) _ f.bare (fs.map Func.bare)

/-- The document of a program is read back as the program without its extra fields if the kinds in it agree,
and is refused otherwise. -/
theorem Program.deserialize?_serialize (p : Program) (h : p.WellFormed) :
    Program.deserialize? p.serialize = if KindsAgree p.definitions then some p.bare else none := by
  rw [Program.deserialize?, Program.serialize, Json.parse?_text, Option.bind_some, Program.toJson,
    Json.reread]
  have hfunctions := h.layout.lookup_reread (fun _ _ _ => rfl) p.fieldJson .functions
  rw [Program.fieldJson, Json.reread, ProgramField.key] at hfunctions
  simp only [Program.ofJson?, Json.object?, Json.listAt?, Json.readAt?, hfunctions, Json.array?, Option.bind_some,
    Func.mapM_ofJson?_reread p.functions h.functions, Option.bind_eq_bind]
  rw [Program.definitions]
  split <;> rfl

/-- The document of a program is a row of characters, whatever its names are. -/
theorem Program.isUnicode_serialize (p : Program) : p.serialize.IsUnicode :=
  (Json.isUnicode_textAt 0 p.toJson).append (.ofString _)

/-- A program with extra fields and a definition inside two loops, whose names need escapes. -/
def annotated (target : Kind) : Program where
  functions := [{
    name := "naïve\n\"f\""
    parameters := [⟨"𝔽", .field⟩]
    returnKinds := [.field]
    statements := [
      .loop ⟨"i", .field⟩ (.ofNat 0) (.ofNat 3) [
        .loop ⟨"j", .field⟩ (.ofNat 1) (.ofNat 2) [
          .define ⟨"\x01", target⟩ (.field (.binary .mul (.ident "𝔽") (.number (.ofNat 7))))]],
      .ret [.field (.ident "𝔽")]]
    layout := Slot.layout FuncField.ofKey?
      [("line", .number 1e21), ("statements", .null), ("name", .null), ("parameters", .null),
        ("notes", .array [.object [("a", .null), ("a", .bool true)]]), ("returnKinds", .null)] }]
  layout := Slot.layout ProgramField.ofKey? [("functions", .null), ("name", .number (-0.5))]

theorem annotated_wellFormed (target : Kind) : (annotated target).WellFormed where
  layout := Slot.wellFormed_layout (by intro field; cases field; decide)
    (by intro field; cases field; decide)
  functions f hf := by
    rw [List.mem_singleton.1 hf]
    exact Slot.wellFormed_layout (by intro field; cases field <;> decide)
      (by intro field; cases field <;> decide)

theorem annotated_deserialize :
    Program.deserialize? (annotated .field).serialize = some (annotated .field).bare ∧
      Program.deserialize? (annotated .bool).serialize = none :=
  ⟨(Program.deserialize?_serialize _ (annotated_wellFormed .field)).trans (if_pos (by decide)),
    (Program.deserialize?_serialize _ (annotated_wellFormed .bool)).trans (if_neg (by decide))⟩

end ConstFold
