import ConstFold.Program

/-!
# The interchange format

Programs as JSON and back.  Every node is an object that starts with its tag, the word by which it says what it
is.  Expressions also say their kind.  Scalars are decimal strings.  Functions and programs write their fields,
extra ones included, in the order of their layout.

A node is told by its tag and read from the fields that its tag calls for.  All other fields and the order of
fields mean nothing.  A definition must bind an expression of its variable's kind, and the bounds of a loop must
be number nodes.
-/

namespace ConstFold

/-! ## Tags -/

inductive Tag where
  | number
  | fieldIdent
  | binary
  | ifElse
  | call
  | boolValue
  | boolIdent
  | comparison
  | callList
  | declare
  | define
  | defineMany
  | ret
  | require
  | loop
deriving DecidableEq, Repr

namespace Tag

/-- The key under which a node keeps its tag. -/
def key : Text := "__type__"

def text : Tag → Text
  | .number => "FieldElementNumberExpression"
  | .fieldIdent => "FieldElementIdentifierExpression"
  | .binary => "FieldElementBinaryExpression"
  | .ifElse => "FieldElementIfElseExpression"
  | .call => "FieldElementFunctionCallExpression"
  | .boolValue => "BooleanValueExpression"
  | .boolIdent => "BooleanIdentifierExpression"
  | .comparison => "BooleanComparisonExpression"
  | .callList => "TypedFunctionCallExpressionList"
  | .declare => "TypedDeclarationStatement"
  | .define => "TypedDefinitionStatement"
  | .defineMany => "TypedMultipleDefinitionStatement"
  | .ret => "TypedReturnStatement"
  | .require => "TypedConditionStatement"
  | .loop => "TypedForStatement"

def all : List Tag :=
  [.number, .fieldIdent, .binary, .ifElse, .call, .boolValue, .boolIdent, .comparison, .callList, .declare,
    .define, .defineMany, .ret, .require, .loop]

def ofText? (s : Text) : Option Tag := all.find? (·.text == s)

end Tag

/-! ## Writing -/

/-- A node with its tag in front. -/
def Json.node (tag : Tag) (members : List (Text × Json)) : Json :=
  .object ((Tag.key, .string tag.text) :: members)

/-- A node of an expression, which says its kind after its tag. -/
def Json.exprNode (tag : Tag) (kind : Kind) (members : List (Text × Json)) : Json :=
  .node tag (("kind", .string kind.text) :: members)

def Kind.toJson (k : Kind) : Json := .string k.text

def Variable.toJson (v : Variable) : Json :=
  .object [("name", .string v.name), ("kind", v.kind.toJson)]

def Scalar.toJson (a : Scalar) : Json := .exprNode .number .field [("value", .string a.text)]

/-! ### Expressions -/

mutual

def FieldExpr.toJson : FieldExpr → Json
  | .number v => v.toJson
  | .ident x => .exprNode .fieldIdent .field [("name", .string x)]
  | .binary op a b =>
    .exprNode .binary .field [("operator", .string op.symbol), ("e1", a.toJson), ("e2", b.toJson)]
  | .ifElse c a b =>
    .exprNode .ifElse .field [("condition", c.toJson), ("e1", a.toJson), ("e2", b.toJson)]
  | .call f args =>
    .exprNode .call .field
      [("functionName", .string f), ("functionArguments", .array (Expr.toJsons args))]

def BoolExpr.toJson : BoolExpr → Json
  | .value b => .exprNode .boolValue .bool [("value", .bool b)]
  | .ident x => .exprNode .boolIdent .bool [("name", .string x)]
  | .comparison op a b =>
    .exprNode .comparison .bool [("operator", .string op.symbol), ("e1", a.toJson), ("e2", b.toJson)]

def Expr.toJson : Expr → Json
  | .field e => e.toJson
  | .bool e => e.toJson

def Expr.toJsons : List Expr → List Json
  | [] => []
  | e :: es => e.toJson :: Expr.toJsons es

end

def CallList.toJson (c : CallList) : Json :=
  .node .callList
    [("functionName", .string c.callee), ("functionArguments", .array (Expr.toJsons c.args)),
      ("returnKinds", .array (c.returnKinds.map Kind.toJson))]

/-! ### Statements -/

mutual

def Stmt.toJson : Stmt → Json
  | .declare v => .node .declare [("variable", v.toJson)]
  | .define v e => .node .define [("variable", v.toJson), ("assignedExpression", e.toJson)]
  | .defineMany vs c =>
    .node .defineMany [("variables", .array (vs.map Variable.toJson)), ("expressionList", c.toJson)]
  | .ret es => .node .ret [("expressions", .array (Expr.toJsons es))]
  | .require a b => .node .require [("e1", a.toJson), ("e2", b.toJson)]
  | .loop v first last body =>
    .node .loop
      [("variable", v.toJson), ("from", first.toJson), ("to", last.toJson),
        ("statements", .array (Stmt.toJsons body))]

def Stmt.toJsons : List Stmt → List Json
  | [] => []
  | s :: rest => s.toJson :: Stmt.toJsons rest

end

/-! ### Functions and programs -/

/-- The member that stands in a slot, where `value` gives the object's own fields. -/
def Slot.member {φ : Type} (key : φ → Text) (value : φ → Json) : Slot φ → Text × Json
  | .own field => (key field, value field)
  | .extra k v => (k, v)

def Func.fieldJson (f : Func) : FuncField → Json
  | .name => .string f.name
  | .parameters => .array (f.parameters.map Variable.toJson)
  | .returnKinds => .array (f.returnKinds.map Kind.toJson)
  | .statements => .array (Stmt.toJsons f.statements)

def Func.toJson (f : Func) : Json := .object (f.layout.map (Slot.member FuncField.key f.fieldJson))

def Program.fieldJson (p : Program) : ProgramField → Json
  | .functions => .array (p.functions.map Func.toJson)

def Program.toJson (p : Program) : Json :=
  .object (p.layout.map (Slot.member ProgramField.key p.fieldJson))

/-- The document of a program. -/
def Program.serialize (p : Program) : Text := p.toJson.text ++ "\n"

/-! ## Reading -/

namespace Json

/-- What is read under a key. -/
def readAt? {α : Type} (read? : Json → Option α) (key : Text) (members : List (Text × Json)) : Option α :=
  (members.lookup key).bind read?

def stringAt? (key : Text) (members : List (Text × Json)) : Option Text := readAt? string? key members

/-- The tag of a node. -/
def tag? (members : List (Text × Json)) : Option Tag :=
  (stringAt? Tag.key members).bind Tag.ofText?

/-- The values under a key, each read in the same way. -/
def listAt? {α : Type} (read? : Json → Option α) (key : Text) (members : List (Text × Json)) :
    Option (List α) :=
  (readAt? array? key members).bind fun items => items.mapM read?

end Json

def Kind.ofJson? (j : Json) : Option Kind := j.string?.bind Kind.ofText?

def Variable.ofJson? (j : Json) : Option Variable := do
  let members ← j.object?
  let name ← Json.stringAt? "name" members
  let kind ← Json.readAt? Kind.ofJson? "kind" members
  return ⟨name, kind⟩

/-- The scalar of the members of a number node. -/
def Scalar.ofMembers? (members : List (Text × Json)) : Option Scalar :=
  (Json.stringAt? "value" members).bind Scalar.ofText?

/-- The scalar of a number node. -/
def Scalar.ofJson? (j : Json) : Option Scalar := do
  let members ← j.object?
  match Json.tag? members with
  | some .number => Scalar.ofMembers? members
  | _ => none

/-! ### Expressions -/

/-- The reading of a node as an expression of either kind.  No tag belongs to both kinds, so at most one of
the two readings succeeds. -/
def Expr.either? (field? : Option FieldExpr) (bool? : Option BoolExpr) : Option Expr :=
  (field?.map .field).or (bool?.map .bool)

mutual

def FieldExpr.ofJson? : Json → Option FieldExpr
  | .object members =>
    match Json.tag? members with
    | some .number => (Scalar.ofMembers? members).map .number
    | some .fieldIdent => (Json.stringAt? "name" members).map .ident
    | some .binary => do
      let op ← (Json.stringAt? "operator" members).bind ArithOp.ofSymbol?
      let a ← FieldExpr.at? "e1" members
      let b ← FieldExpr.at? "e2" members
      return .binary op a b
    | some .ifElse => do
      let c ← BoolExpr.at? "condition" members
      let a ← FieldExpr.at? "e1" members
      let b ← FieldExpr.at? "e2" members
      return .ifElse c a b
    | some .call => do
      let f ← Json.stringAt? "functionName" members
      let args ← Expr.listAt? "functionArguments" members
      return .call f args
    | _ => none
  | _ => none

def BoolExpr.ofJson? : Json → Option BoolExpr
  | .object members =>
    match Json.tag? members with
    | some .boolValue => (Json.readAt? Json.bool? "value" members).map .value
    | some .boolIdent => (Json.stringAt? "name" members).map .ident
    | some .comparison => do
      let op ← (Json.stringAt? "operator" members).bind CompareOp.ofSymbol?
      let a ← FieldExpr.at? "e1" members
      let b ← FieldExpr.at? "e2" members
      return .comparison op a b
    | _ => none
  | _ => none

def Expr.ofJsons? : List Json → Option (List Expr)
  | [] => some []
  | j :: js => do
    let e ← Expr.either? (FieldExpr.ofJson? j) (BoolExpr.ofJson? j)
    let es ← Expr.ofJsons? js
    return e :: es

/-- The field expression under a key. -/
def FieldExpr.at? (key : Text) : List (Text × Json) → Option FieldExpr
  | [] => none
  | (k, j) :: members => if key = k then FieldExpr.ofJson? j else FieldExpr.at? key members

/-- The boolean expression under a key. -/
def BoolExpr.at? (key : Text) : List (Text × Json) → Option BoolExpr
  | [] => none
  | (k, j) :: members => if key = k then BoolExpr.ofJson? j else BoolExpr.at? key members

/-- The expressions of the array under a key. -/
def Expr.listAt? (key : Text) : List (Text × Json) → Option (List Expr)
  | [] => none
  | (k, j) :: members =>
    if key = k then
      match j with
      | .array items => Expr.ofJsons? items
      | _ => none
    else Expr.listAt? key members

end

def Expr.ofJson? (j : Json) : Option Expr := Expr.either? (FieldExpr.ofJson? j) (BoolExpr.ofJson? j)

def CallList.ofJson? (j : Json) : Option CallList := do
  let members ← j.object?
  match Json.tag? members with
  | some .callList =>
    let callee ← Json.stringAt? "functionName" members
    let args ← Expr.listAt? "functionArguments" members
    let returnKinds ← Json.listAt? Kind.ofJson? "returnKinds" members
    return ⟨callee, args, returnKinds⟩
  | _ => none

/-! ### Statements -/

mutual

def Stmt.ofJson? : Json → Option Stmt
  | .object members =>
    match Json.tag? members with
    | some .declare => (Json.readAt? Variable.ofJson? "variable" members).map .declare
    | some .define => do
      let v ← Json.readAt? Variable.ofJson? "variable" members
      let e ← Json.readAt? Expr.ofJson? "assignedExpression" members
      if v.kind = e.kind then return .define v e else none
    | some .defineMany => do
      let vs ← Json.listAt? Variable.ofJson? "variables" members
      let c ← Json.readAt? CallList.ofJson? "expressionList" members
      return .defineMany vs c
    | some .ret => (Expr.listAt? "expressions" members).map .ret
    | some .require => do
      let a ← Json.readAt? Expr.ofJson? "e1" members
      let b ← Json.readAt? Expr.ofJson? "e2" members
      return .require a b
    | some .loop => do
      let v ← Json.readAt? Variable.ofJson? "variable" members
      let first ← Json.readAt? Scalar.ofJson? "from" members
      let last ← Json.readAt? Scalar.ofJson? "to" members
      let body ← Stmt.listAt? "statements" members
      return .loop v first last body
    | _ => none
  | _ => none

def Stmt.ofJsons? : List Json → Option (List Stmt)
  | [] => some []
  | j :: js => do
    let s ← Stmt.ofJson? j
    let rest ← Stmt.ofJsons? js
    return s :: rest

/-- The statements of the array under a key. -/
def Stmt.listAt? (key : Text) : List (Text × Json) → Option (List Stmt)
  | [] => none
  | (k, j) :: members =>
    if key = k then
      match j with
      | .array items => Stmt.ofJsons? items
      | _ => none
    else Stmt.listAt? key members

end

/-! ### Functions and programs -/

def Func.ofJson? (j : Json) : Option Func := do
  let members ← j.object?
  let name ← Json.stringAt? "name" members
  let parameters ← Json.listAt? Variable.ofJson? "parameters" members
  let returnKinds ← Json.listAt? Kind.ofJson? "returnKinds" members
  let statements ← Stmt.listAt? "statements" members
  return { name, parameters, returnKinds, statements }

def Program.ofJson? (j : Json) : Option Program := do
  let members ← j.object?
  let functions ← Json.listAt? Func.ofJson? "functions" members
  return { functions }

/-- The program of a document, if it is one of a program. -/
def Program.deserialize? (source : Text) : Option Program :=
  (Json.parse? source).bind Program.ofJson?

end ConstFold
