import Lookahead.Token.Basic

/-! Programs of the script language as abstract syntax. -/
namespace Lookahead

mutual

/-- `member` with `computed` is the bracket form, whose property may be any expression. -/
inductive Expr where
  | assign (assignee value : Expr)
  | binary (left : Expr) (operator : String) (right : Expr)
  | unary (operator : String) (argument : Expr)
  | call (caller : Expr) (args : List Expr)
  | member (object property : Expr) (computed : Bool)
  | identifier (symbol : String)
  | number (value : Value)
  | string (value : Value)
  | object (properties : List Property)
  | array (elements : List Expr)

/-- A property without a value stands for the variable of the same name. -/
inductive Property where
  | entry (key : String) (value : Option Expr)

end

/-- `bare` is an expression where a statement is due; only trees made by hand lead to one. -/
inductive Stmt where
  | varDecl (constant : Bool) (identifier : String) (value : Option Expr)
  | fnDecl (name : String) (parameters : List String) (body : List Stmt)
  | ifElse (condition : Expr) (thenBody : List Stmt) (elseBody : Option (List Stmt))
  | whileLoop (condition : Expr) (body : List Stmt)
  | forLoop (init : Option Stmt) (condition update : Option Expr) (body : List Stmt)
  | returning (value : Option Expr)
  | breaking
  | continuing
  | expression (e : Expr)
  | bare (e : Expr)

structure Program where
  body : List Stmt

end Lookahead
