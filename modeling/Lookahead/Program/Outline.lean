import Lookahead.Program.Basic

/-! Outlines: a program as one row for each node, in order of the text, with the depth of the node, its
role in its parent, its kind, and what it holds besides its children. Programs are told apart by their
outlines. -/
namespace Lookahead

inductive NodeKind where
  | program
  | varDeclaration
  | functionDeclaration
  | ifStatement
  | whileStatement
  | forStatement
  | returnStatement
  | breakStatement
  | continueStatement
  | expressionStatement
  | assignmentExpr
  | binaryExpr
  | unaryExpr
  | callExpr
  | memberExpr
  | identifier
  | numericLiteral
  | stringLiteral
  | objectLiteral
  | arrayLiteral
  | property
deriving DecidableEq

namespace NodeKind

def all : List NodeKind :=
  [program, varDeclaration, functionDeclaration, ifStatement, whileStatement, forStatement, returnStatement,
    breakStatement, continueStatement, expressionStatement, assignmentExpr, binaryExpr, unaryExpr, callExpr,
    memberExpr, identifier, numericLiteral, stringLiteral, objectLiteral, arrayLiteral, property]

def name : NodeKind → String
  | program => "PROGRAM"
  | varDeclaration => "VAR_DECLARATION"
  | functionDeclaration => "FUNCTION_DECLARATION"
  | ifStatement => "IF_STATEMENT"
  | whileStatement => "WHILE_STATEMENT"
  | forStatement => "FOR_STATEMENT"
  | returnStatement => "RETURN_STATEMENT"
  | breakStatement => "BREAK_STATEMENT"
  | continueStatement => "CONTINUE_STATEMENT"
  | expressionStatement => "EXPRESSION_STATEMENT"
  | assignmentExpr => "ASSIGNMENT_EXPR"
  | binaryExpr => "BINARY_EXPR"
  | unaryExpr => "UNARY_EXPR"
  | callExpr => "CALL_EXPR"
  | memberExpr => "MEMBER_EXPR"
  | identifier => "IDENTIFIER"
  | numericLiteral => "NUMERIC_LITERAL"
  | stringLiteral => "STRING_LITERAL"
  | objectLiteral => "OBJECT_LITERAL"
  | arrayLiteral => "ARRAY_LITERAL"
  | property => "PROPERTY"

def value : NodeKind → String
  | program => "Program"
  | varDeclaration => "VarDeclaration"
  | functionDeclaration => "FunctionDeclaration"
  | ifStatement => "IfStatement"
  | whileStatement => "WhileStatement"
  | forStatement => "ForStatement"
  | returnStatement => "ReturnStatement"
  | breakStatement => "BreakStatement"
  | continueStatement => "ContinueStatement"
  | expressionStatement => "ExpressionStatement"
  | assignmentExpr => "AssignmentExpr"
  | binaryExpr => "BinaryExpr"
  | unaryExpr => "UnaryExpr"
  | callExpr => "CallExpr"
  | memberExpr => "MemberExpr"
  | identifier => "Identifier"
  | numericLiteral => "NumericLiteral"
  | stringLiteral => "StringLiteral"
  | objectLiteral => "ObjectLiteral"
  | arrayLiteral => "ArrayLiteral"
  | property => "Property"

end NodeKind

inductive Role where
  | root
  | field (name : String)
  | member (name : String) (i : Nat)
deriving DecidableEq

def Role.text : Role → String
  | root => "root"
  | field name => name
  | member name i => name ++ "[" ++ toString i ++ "]"

inductive Attribute where
  | text (s : String)
  | flag (b : Bool)
  | names (l : List String)
  | value (v : Value)
  | count (n : Nat)
  | absent
deriving DecidableEq

structure OutlineRow where
  depth : Nat
  role : Role
  kind : NodeKind
  attributes : List (String × Attribute)
deriving DecidableEq

/-! ## Expressions -/

mutual

def Expr.outline (depth : Nat) (role : Role) : Expr → List OutlineRow
  | .assign assignee value =>
    ⟨depth, role, .assignmentExpr, []⟩ ::
      assignee.outline (depth + 1) (.field "assignee") ++ value.outline (depth + 1) (.field "value")
  | .binary left operator right =>
    ⟨depth, role, .binaryExpr, [("operator", .text operator)]⟩ ::
      left.outline (depth + 1) (.field "left") ++ right.outline (depth + 1) (.field "right")
  | .unary operator argument =>
    ⟨depth, role, .unaryExpr, [("operator", .text operator)]⟩ :: argument.outline (depth + 1) (.field "argument")
  | .call caller args =>
    ⟨depth, role, .callExpr, []⟩ ::
      caller.outline (depth + 1) (.field "caller") ++ Expr.outlines (depth + 1) "args" 0 args
  | .member object property computed =>
    ⟨depth, role, .memberExpr, [("computed", .flag computed)]⟩ ::
      object.outline (depth + 1) (.field "object") ++ property.outline (depth + 1) (.field "property")
  | .identifier symbol => [⟨depth, role, .identifier, [("symbol", .text symbol)]⟩]
  | .number value => [⟨depth, role, .numericLiteral, [("value", .value value)]⟩]
  | .string value => [⟨depth, role, .stringLiteral, [("value", .value value)]⟩]
  | .object properties => ⟨depth, role, .objectLiteral, []⟩ :: Property.outlines (depth + 1) 0 properties
  | .array elements => ⟨depth, role, .arrayLiteral, []⟩ :: Expr.outlines (depth + 1) "elements" 0 elements

def Expr.outlines (depth : Nat) (name : String) (i : Nat) : List Expr → List OutlineRow
  | [] => []
  | e :: es => e.outline depth (.member name i) ++ Expr.outlines depth name (i + 1) es

def Property.outline (depth : Nat) (role : Role) : Property → List OutlineRow
  | .entry key none => [⟨depth, role, .property, [("key", .text key), ("value", .absent)]⟩]
  | .entry key (some value) =>
    ⟨depth, role, .property, [("key", .text key)]⟩ :: value.outline (depth + 1) (.field "value")

def Property.outlines (depth : Nat) (i : Nat) : List Property → List OutlineRow
  | [] => []
  | p :: ps => p.outline depth (.member "properties" i) ++ Property.outlines depth (i + 1) ps

end

/-! ## Statements -/

/-- A part that may be missing is a row if it is there, and an attribute of its parent if not. -/
def absence {α : Type} (name : String) (part : Option α) : List (String × Attribute) :=
  if part.isNone then [(name, .absent)] else []

def optionOutline (depth : Nat) (name : String) : Option Expr → List OutlineRow
  | none => []
  | some e => e.outline depth (.field name)

mutual

def Stmt.outline (depth : Nat) (role : Role) : Stmt → List OutlineRow
  | .varDecl constant identifier value =>
    ⟨depth, role, .varDeclaration,
        ("constant", .flag constant) :: ("identifier", .text identifier) :: absence "value" value⟩ ::
      optionOutline (depth + 1) "value" value
  | .fnDecl name parameters body =>
    ⟨depth, role, .functionDeclaration, [("name", .text name), ("parameters", .names parameters)]⟩ ::
      Stmt.outlines (depth + 1) "body" 0 body
  | .ifElse condition thenBody none =>
    ⟨depth, role, .ifStatement, [("else_body", .absent)]⟩ ::
      condition.outline (depth + 1) (.field "condition") ++ Stmt.outlines (depth + 1) "then_body" 0 thenBody
  | .ifElse condition thenBody (some elseBody) =>
    ⟨depth, role, .ifStatement, [("else_body", .count elseBody.length)]⟩ ::
      condition.outline (depth + 1) (.field "condition") ++ Stmt.outlines (depth + 1) "then_body" 0 thenBody ++
      Stmt.outlines (depth + 1) "else_body" 0 elseBody
  | .whileLoop condition body =>
    ⟨depth, role, .whileStatement, []⟩ ::
      condition.outline (depth + 1) (.field "condition") ++ Stmt.outlines (depth + 1) "body" 0 body
  | .forLoop none condition update body =>
    ⟨depth, role, .forStatement,
        ("init", .absent) :: absence "condition" condition ++ absence "update" update⟩ ::
      optionOutline (depth + 1) "condition" condition ++ optionOutline (depth + 1) "update" update ++
      Stmt.outlines (depth + 1) "body" 0 body
  | .forLoop (some init) condition update body =>
    ⟨depth, role, .forStatement, absence "condition" condition ++ absence "update" update⟩ ::
      init.outline (depth + 1) (.field "init") ++ optionOutline (depth + 1) "condition" condition ++
      optionOutline (depth + 1) "update" update ++ Stmt.outlines (depth + 1) "body" 0 body
  | .returning value =>
    ⟨depth, role, .returnStatement, absence "value" value⟩ :: optionOutline (depth + 1) "value" value
  | .breaking => [⟨depth, role, .breakStatement, []⟩]
  | .continuing => [⟨depth, role, .continueStatement, []⟩]
  | .expression e => ⟨depth, role, .expressionStatement, []⟩ :: e.outline (depth + 1) (.field "expression")
  | .bare e => e.outline depth role

def Stmt.outlines (depth : Nat) (name : String) (i : Nat) : List Stmt → List OutlineRow
  | [] => []
  | s :: ss => s.outline depth (.member name i) ++ Stmt.outlines depth name (i + 1) ss

end

/-! ## Programs -/

namespace Program

def outline (p : Program) : List OutlineRow := ⟨0, .root, .program, []⟩ :: Stmt.outlines 1 "body" 0 p.body

instance : BEq Program := ⟨fun p q => p.outline == q.outline⟩

end Program
end Lookahead
