import Lookahead.Program.Children
import Lookahead.Proofs.Program.Contents

/-! Outlines and contents against the children of nodes: both list a program in the order in which its nodes list
their children. -/
namespace Lookahead

/-! ## Outlines -/

/-- The kinds of a node and all below it. -/
def AstNode.kinds (n : AstNode) : List NodeKind := n.walk.map kind

theorem AstNode.kinds_eq (n : AstNode) : n.kinds = n.kind :: n.children.flatMap kinds := by
  rw [kinds, walk_eq, List.map_cons, List.map_flatMap]
  rfl

section Outlines
open AstNode

mutual

theorem Expr.map_outline (depth : ℕ) (role : Role) (e : Expr) :
    (e.outline depth role).map (·.kind) = (AstNode.expr e).kinds := by
  rw [kinds_eq]
  cases e with
  | assign a v => simp [Expr.outline, Expr.children, Expr.kind, Expr.map_outline _ _ a, Expr.map_outline _ _ v]
  | binary l o r => simp [Expr.outline, Expr.children, Expr.kind, Expr.map_outline _ _ l, Expr.map_outline _ _ r]
  | unary o a => simp [Expr.outline, Expr.children, Expr.kind, Expr.map_outline _ _ a]
  | call f args => simp [Expr.outline, Expr.children, Expr.kind, Expr.map_outline _ _ f, Expr.map_outlines _ _ _ args]
  | member o p c => simp [Expr.outline, Expr.children, Expr.kind, Expr.map_outline _ _ o, Expr.map_outline _ _ p]
  | object ps => simp [Expr.outline, Expr.children, Expr.kind, Property.map_outlines _ _ ps]
  | array es => simp [Expr.outline, Expr.children, Expr.kind, Expr.map_outlines _ _ _ es]
  | identifier | number | string => rfl

theorem Expr.map_outlines (depth : ℕ) (name : String) (i : ℕ) (es : List Expr) :
    (Expr.outlines depth name i es).map (·.kind) = (es.map AstNode.expr).flatMap kinds := by
  cases es with
  | nil => rfl
  | cons e es => simp [Expr.outlines, Expr.map_outline depth _ e, Expr.map_outlines depth name _ es]

theorem Property.map_outline (depth : ℕ) (role : Role) (p : Property) :
    (p.outline depth role).map (·.kind) = (AstNode.property p).kinds := by
  rw [kinds_eq]
  cases p with
  | entry key value =>
    cases value with
    | none => rfl
    | some e => simp [Property.outline, Property.children, Expr.map_outline _ _ e]

theorem Property.map_outlines (depth : ℕ) (i : ℕ) (ps : List Property) :
    (Property.outlines depth i ps).map (·.kind) = (ps.map AstNode.property).flatMap kinds := by
  cases ps with
  | nil => rfl
  | cons p ps => simp [Property.outlines, Property.map_outline depth _ p, Property.map_outlines depth _ ps]

end

theorem map_optionOutline (depth : ℕ) (name : String) (o : Option Expr) :
    (optionOutline depth name o).map (·.kind) = (o.toList.map AstNode.expr).flatMap kinds := by
  cases o with
  | none => rfl
  | some e => simp [optionOutline, Expr.map_outline]

mutual

theorem Stmt.map_outline (depth : ℕ) (role : Role) (s : Stmt) :
    (s.outline depth role).map (·.kind) = (AstNode.stmt s).kinds := by
  rw [kinds_eq]
  cases s with
  | varDecl constant x value => simp [Stmt.outline, Stmt.children, Stmt.kind, map_optionOutline]
  | fnDecl f parameters body => simp [Stmt.outline, Stmt.children, Stmt.kind, Stmt.map_outlines _ _ _ body]
  | ifElse e body orElse =>
    cases orElse with
    | none => simp [Stmt.outline, Stmt.children, Stmt.kind, Expr.map_outline, Stmt.map_outlines _ _ _ body]
    | some orElse =>
      simp [Stmt.outline, Stmt.children, Stmt.kind, Expr.map_outline, Stmt.map_outlines _ _ _ body,
        Stmt.map_outlines _ _ _ orElse]
  | whileLoop e body =>
    simp [Stmt.outline, Stmt.children, Stmt.kind, Expr.map_outline, Stmt.map_outlines _ _ _ body]
  | forLoop init e update body =>
    cases init with
    | none =>
      simp [Stmt.outline, Stmt.children, Stmt.kind, map_optionOutline, Stmt.map_outlines _ _ _ body]
    | some init =>
      simp [Stmt.outline, Stmt.children, Stmt.kind, map_optionOutline, Stmt.map_outlines _ _ _ body,
        Stmt.map_outline _ _ init]
  | returning value => simp [Stmt.outline, Stmt.children, Stmt.kind, map_optionOutline]
  | expression e => simp [Stmt.outline, Stmt.children, Stmt.kind, Expr.map_outline]
  | bare e => exact (Expr.map_outline depth role e).trans (kinds_eq (.expr e))
  | breaking | continuing => rfl

theorem Stmt.map_outlines (depth : ℕ) (name : String) (i : ℕ) (ss : List Stmt) :
    (Stmt.outlines depth name i ss).map (·.kind) = (ss.map AstNode.stmt).flatMap kinds := by
  cases ss with
  | nil => rfl
  | cons s ss => simp [Stmt.outlines, Stmt.map_outline depth _ s, Stmt.map_outlines depth name _ ss]

end

/-- The rows of an outline are the nodes that a walk comes by. -/
theorem Program.map_outline (p : Program) : p.outline.map (·.kind) = p.walk := by
  rw [outline, List.map_cons, Stmt.map_outlines]
  exact (kinds_eq (.program p)).symm

end Outlines

/-! ## Contents -/

theorem Expr.contentsOf_eq (es : List Expr) : Expr.contentsOf es = es.flatMap contents := by
  induction es with
  | nil => rfl
  | cons e es ih => rw [contentsOf, ih, List.flatMap_cons]

theorem Property.contentsOf_eq (ps : List Property) : Property.contentsOf ps = ps.flatMap contents := by
  induction ps with
  | nil => rfl
  | cons p ps ih => rw [contentsOf, ih, List.flatMap_cons]

theorem Stmt.contentsOf_eq (ss : List Stmt) : Stmt.contentsOf ss = ss.flatMap contents := by
  induction ss with
  | nil => rfl
  | cons s ss ih => rw [contentsOf, ih, List.flatMap_cons]

theorem Expr.optionContents_eq (o : Option Expr) : Expr.optionContents o = o.toList.flatMap contents := by
  cases o <;> simp [optionContents]

/-- What a node itself adds to the contents of its children. -/
def Expr.own : Expr → List Content
  | .binary _ o _ | .unary o _ => [.lexeme o]
  | .identifier x => [.lexeme x]
  | .number v | .string v => [.value v]
  | _ => []

def Stmt.own : Stmt → List Content
  | .varDecl _ x _ => [.lexeme x]
  | .fnDecl f parameters _ => .lexeme f :: parameters.map .lexeme
  | .bare e => e.own
  | _ => []

namespace AstNode

def own : AstNode → List Content
  | program _ => []
  | stmt s => s.own
  | expr e => e.own
  | property (.entry key _) => [.lexeme key]

def contents : AstNode → List Content
  | program p => p.contents
  | stmt s => s.contents
  | expr e => e.contents
  | property p => p.contents

@[simp] theorem contents_stmt (s : Stmt) : (stmt s).contents = s.contents := rfl

@[simp] theorem contents_expr (e : Expr) : (expr e).contents = e.contents := rfl

@[simp] theorem contents_property (p : Property) : (property p).contents = p.contents := rfl

/-- How many children come before what the node itself adds: one for binary operators. -/
def lead (n : AstNode) : ℕ := if n.kind = .binaryExpr then 1 else 0

/-- A node has the contents of its children and its own, in order. -/
def Lists (n : AstNode) : Prop := n.contents =
  (n.children.take n.lead).flatMap contents ++ n.own ++ (n.children.drop n.lead).flatMap contents

theorem lists_expr (e : Expr) : (expr e).Lists := by
  cases e <;> simp [Lists, lead, own, Expr.kind, Expr.children, Expr.own, Expr.contents, Expr.contentsOf_eq,
    Property.contentsOf_eq, List.flatMap_map]

theorem lists_stmt (s : Stmt) : (stmt s).Lists := by
  cases s with
  | bare e => exact lists_expr e
  | ifElse e body orElse =>
    cases orElse <;> simp [Lists, lead, own, Stmt.kind, Stmt.children, Stmt.own, Stmt.contents, Stmt.contentsOf_eq,
      List.flatMap_map]
  | forLoop init e update body =>
    cases init <;> simp [Lists, lead, own, Stmt.kind, Stmt.children, Stmt.own, Stmt.contents, Stmt.contentsOf_eq,
      Expr.optionContents_eq, List.flatMap_map]
  | _ => simp [Lists, lead, own, Stmt.kind, Stmt.children, Stmt.own, Stmt.contents, Stmt.contentsOf_eq,
    Expr.optionContents_eq, List.flatMap_map]

/-- What any node holds, in terms of its children. -/
theorem contents_eq (n : AstNode) : n.contents =
    (n.children.take n.lead).flatMap contents ++ n.own ++ (n.children.drop n.lead).flatMap contents := by
  cases n with
  | program p => simp [lead, own, contents, kind, children, Program.contents, Stmt.contentsOf_eq, List.flatMap_map]
  | stmt s => exact lists_stmt s
  | expr e => exact lists_expr e
  | property p =>
    cases p with
    | entry key value => cases value <;> simp [lead, own, Property.contents, Property.children]

end AstNode
end Lookahead
