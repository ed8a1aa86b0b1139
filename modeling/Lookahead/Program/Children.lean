import Lookahead.Program.Outline

/-! The nodes of a program, each with its children in order of the text. -/
namespace Lookahead

inductive AstNode where
  | program (p : Program)
  | stmt (s : Stmt)
  | expr (e : Expr)
  | property (p : Property)

def Expr.kind : Expr → NodeKind
  | .assign .. => .assignmentExpr
  | .binary .. => .binaryExpr
  | .unary .. => .unaryExpr
  | .call .. => .callExpr
  | .member .. => .memberExpr
  | .identifier _ => .identifier
  | .number _ => .numericLiteral
  | .string _ => .stringLiteral
  | .object _ => .objectLiteral
  | .array _ => .arrayLiteral

def Stmt.kind : Stmt → NodeKind
  | .varDecl .. => .varDeclaration
  | .fnDecl .. => .functionDeclaration
  | .ifElse .. => .ifStatement
  | .whileLoop .. => .whileStatement
  | .forLoop .. => .forStatement
  | .returning _ => .returnStatement
  | .breaking => .breakStatement
  | .continuing => .continueStatement
  | .expression _ => .expressionStatement
  | .bare e => e.kind

def Expr.children : Expr → List AstNode
  | .assign a v => [.expr a, .expr v]
  | .binary l _ r => [.expr l, .expr r]
  | .unary _ a => [.expr a]
  | .call c args => .expr c :: args.map .expr
  | .member o p _ => [.expr o, .expr p]
  | .identifier _ | .number _ | .string _ => []
  | .object ps => ps.map .property
  | .array es => es.map .expr

def Property.children : Property → List AstNode
  | .entry _ value => value.toList.map .expr

def Stmt.children : Stmt → List AstNode
  | .varDecl _ _ value => value.toList.map .expr
  | .fnDecl _ _ body => body.map .stmt
  | .ifElse condition thenBody elseBody =>
    .expr condition :: (thenBody.map .stmt ++ (elseBody.getD []).map .stmt)
  | .whileLoop condition body => .expr condition :: body.map .stmt
  | .forLoop init condition update body =>
    init.toList.map .stmt ++ condition.toList.map .expr ++ update.toList.map .expr ++ body.map .stmt
  | .returning value => value.toList.map .expr
  | .breaking | .continuing => []
  | .expression e => [.expr e]
  | .bare e => e.children

namespace AstNode

def kind : AstNode → NodeKind
  | program _ => .program
  | stmt s => s.kind
  | expr e => e.kind
  | property _ => .property

def children : AstNode → List AstNode
  | program p => p.body.map stmt
  | stmt s => s.children
  | expr e => e.children
  | property p => p.children

@[simp] theorem kind_stmt (s : Stmt) : (stmt s).kind = s.kind := rfl

@[simp] theorem kind_expr (e : Expr) : (expr e).kind = e.kind := rfl

@[simp] theorem kind_property (p : Property) : (property p).kind = .property := rfl

@[simp] theorem children_stmt (s : Stmt) : (stmt s).children = s.children := rfl

@[simp] theorem children_expr (e : Expr) : (expr e).children = e.children := rfl

@[simp] theorem children_property (p : Property) : (property p).children = p.children := rfl

/-! ## Sizes -/

section Sizes
variable {α : Type} [SizeOf α] {f : α → AstNode} {n : Nat}

/-- Nodes made of the items of a list, where the list is smaller. -/
theorem sizeOf_map_lt (hf : ∀ a, sizeOf (f a) = 1 + sizeOf a) {l : List α} (hn : sizeOf l ≤ n) :
    ∀ c ∈ l.map f, sizeOf c < 1 + n := by
  refine List.forall_mem_map.mpr fun a ha => ?_
  have hlt := List.sizeOf_lt_of_mem ha
  rw [hf]
  omega

theorem sizeOf_option_lt (hf : ∀ a, sizeOf (f a) = 1 + sizeOf a) {o : Option α} (hn : sizeOf o ≤ n) :
    ∀ c ∈ o.toList.map f, sizeOf c < 1 + n := by
  cases o with
  | none => exact List.forall_mem_nil _
  | some a =>
    rw [Option.some.sizeOf_spec] at hn
    refine List.forall_mem_singleton.mpr ?_
    rw [hf]
    omega

end Sizes

theorem sizeOf_child_expr (e : Expr) : ∀ c ∈ e.children, sizeOf c < 1 + sizeOf e := by
  cases e with
  | call f args =>
    exact List.forall_mem_cons.mpr ⟨by simp; omega, sizeOf_map_lt (fun _ => rfl) (by simp)⟩
  | object ps => exact sizeOf_map_lt (fun _ => rfl) (by simp)
  | array es => exact sizeOf_map_lt (fun _ => rfl) (by simp)
  | _ => simp [Expr.children] <;> omega

theorem sizeOf_child_stmt (s : Stmt) : ∀ c ∈ s.children, sizeOf c < 1 + sizeOf s := by
  cases s with
  | varDecl constant x value => exact sizeOf_option_lt (fun _ => rfl) (by simp)
  | fnDecl f parameters body => exact sizeOf_map_lt (fun _ => rfl) (by simp)
  | ifElse e body orElse =>
    refine List.forall_mem_cons.mpr ⟨by simp; omega, List.forall_mem_append.mpr ⟨?_, ?_⟩⟩
    · exact sizeOf_map_lt (fun _ => rfl) (by simp; omega)
    · refine sizeOf_map_lt (fun _ => rfl) ?_
      cases orElse with
      | none => simp
      | some alternative => simp; omega
  | whileLoop e body =>
    exact List.forall_mem_cons.mpr ⟨by simp; omega, sizeOf_map_lt (fun _ => rfl) (by simp)⟩
  | forLoop init e update body =>
    simp only [Stmt.children, List.forall_mem_append]
    refine ⟨⟨⟨?_, ?_⟩, ?_⟩, ?_⟩
    · exact sizeOf_option_lt (fun _ => rfl) (by simp; omega)
    · exact sizeOf_option_lt (fun _ => rfl) (by simp; omega)
    · exact sizeOf_option_lt (fun _ => rfl) (by simp; omega)
    · exact sizeOf_map_lt (fun _ => rfl) (by simp)
  | returning value => exact sizeOf_option_lt (fun _ => rfl) (by simp)
  | breaking => exact List.forall_mem_nil _
  | continuing => exact List.forall_mem_nil _
  | expression e => exact List.forall_mem_singleton.mpr (by simp)
  | bare e =>
    intro c hc
    have hlt := sizeOf_child_expr e c hc
    simp; omega

theorem sizeOf_child {c n : AstNode} (h : c ∈ n.children) : sizeOf c < sizeOf n := by
  cases n with
  | program p => exact sizeOf_map_lt (fun _ => rfl) (by cases p; simp) c h
  | stmt s => exact sizeOf_child_stmt s c h
  | expr e => exact sizeOf_child_expr e c h
  | property p =>
    cases p with
    | entry key value => exact sizeOf_option_lt (fun _ => rfl) (by simp) c h

/-- A node and all below it, each before its children. -/
def walk (n : AstNode) : List AstNode := n :: n.children.attach.flatMap fun c => c.1.walk
termination_by sizeOf n
decreasing_by exact sizeOf_child c.2

theorem walk_eq (n : AstNode) : n.walk = n :: n.children.flatMap walk := by
  rw [walk, List.flatMap_subtype fun _ _ => rfl, List.unattach_attach]

end AstNode

/-- The kinds of all nodes, each before those below it. -/
def Program.walk (p : Program) : List NodeKind := (AstNode.program p).walk.map AstNode.kind

end Lookahead
