import Lookahead.Program.Basic
import Lookahead.Program.Spine

/-! Conversions of single nodes into statements. Each is given the conversions of the trees below it. -/
namespace Lookahead

open Script

namespace Stmt

/-- The conversions of what a statement is made of. -/
structure Parts where
  expr : Tree → Conversion Expr
  optional : Tree → Conversion (Option Expr)
  stmt : Tree → Conversion Stmt
  block : Tree → Conversion (List Stmt)

def ofStmt (c : Parts) (t : Tree) : Conversion Stmt :=
  match t.children with
  | [a] => c.stmt a
  | _ => .error t.unexpected

/-- The value that a variable starts with. -/
def ofInit (c : Parts) (t : Tree) : Conversion (Option Expr) :=
  match t.split? [.equals, .expr, .semicolon] with
  | some [_, e, _] => return some (← c.expr e)
  | _ => if t.hasShape [.semicolon] then .ok none else .error (t.malformed [.semicolon])

def ofVarDecl (c : Parts) (t : Tree) : Conversion Stmt :=
  match t.split? [.letWord, .identifier, .varInit] with
  | some [_, name, init] => do
    let value ← ofInit c init
    return .varDecl false (← name.lexeme) value
  | _ =>
    match t.split? [.constWord, .identifier, .equals, .expr, .semicolon] with
    | some [_, name, _, e, _] => return .varDecl true (← name.lexeme) (some (← c.expr e))
    | _ => .error t.unexpected

def ofParams (t : Tree) : Conversion (List String) :=
  if t.isLeaf then .ok []
  else
    match t.split? [.identifier, .paramTail] with
    | some [a, tail] => do
      let first ← a.lexeme
      let rest ← (tail.afterComma .identifier .paramTail).mapM Tree.lexeme
      return first :: rest
    | _ => .error (t.malformed [.identifier, .paramTail])

def fnShape : List Symbol :=
  [.fnWord, .identifier, .leftParen, .params, .rightParen, .leftBrace, .block, .rightBrace]

def ofFnDecl (c : Parts) (t : Tree) : Conversion Stmt :=
  match t.split? fnShape with
  | some [_, name, _, params, _, _, block, _] => do
    let parameters ← ofParams params
    return .fnDecl (← name.lexeme) parameters (← c.block block)
  | _ => .error (t.malformed fnShape)

def ofElse (c : Parts) (t : Tree) : Conversion (Option (List Stmt)) :=
  if t.isLeaf then .ok none
  else
    match t.split? [.elseWord, .leftBrace, .block, .rightBrace] with
    | some [_, _, block, _] => return some (← c.block block)
    | _ => .error (t.malformed [.elseWord, .leftBrace, .block, .rightBrace])

def ifShape : List Symbol :=
  [.ifWord, .leftParen, .expr, .rightParen, .leftBrace, .block, .rightBrace, .elseClause]

/-- The part after the condition is converted before the condition, so that its faults come first. -/
def ofIf (c : Parts) (t : Tree) : Conversion Stmt :=
  match t.split? ifShape with
  | some [_, _, condition, _, _, block, _, clause] => do
    let elseBody ← ofElse c clause
    return .ifElse (← c.expr condition) (← c.block block) elseBody
  | _ => .error (t.malformed ifShape)

def whileShape : List Symbol :=
  [.whileWord, .leftParen, .expr, .rightParen, .leftBrace, .block, .rightBrace]

def ofWhile (c : Parts) (t : Tree) : Conversion Stmt :=
  match t.split? whileShape with
  | some [_, _, condition, _, _, block, _] => return .whileLoop (← c.expr condition) (← c.block block)
  | _ => .error (t.malformed whileShape)

def ofForInit (c : Parts) (t : Tree) : Conversion (Option Stmt) :=
  match t.children with
  | [a] =>
    if a.symbol = Symbol.semicolon.name then return none
    else if a.symbol = Symbol.varDecl.name ∨ a.symbol = Symbol.exprStmt.name then return some (← c.stmt a)
    else .error t.unexpected
  | _ => .error t.unexpected

def forShape : List Symbol :=
  [.forWord, .leftParen, .forInit, .optExpr, .semicolon, .optExpr, .rightParen, .leftBrace, .block, .rightBrace]

def ofFor (c : Parts) (t : Tree) : Conversion Stmt :=
  match t.split? forShape with
  | some [_, _, init, condition, _, update, _, _, block, _] => do
    let init ← ofForInit c init
    return .forLoop init (← c.optional condition) (← c.optional update) (← c.block block)
  | _ => .error (t.malformed forShape)

def ofReturn (c : Parts) (t : Tree) : Conversion Stmt :=
  match t.split? [.returnWord, .optExpr, .semicolon] with
  | some [_, value, _] => return .returning (← c.optional value)
  | _ => .error (t.malformed [.returnWord, .optExpr, .semicolon])

def ofBreak (t : Tree) : Conversion Stmt :=
  if t.hasShape [.breakWord, .semicolon] then .ok .breaking else .error (t.malformed [.breakWord, .semicolon])

def ofContinue (t : Tree) : Conversion Stmt :=
  if t.hasShape [.continueWord, .semicolon] then .ok .continuing
  else .error (t.malformed [.continueWord, .semicolon])

def ofExprStmt (c : Parts) (t : Tree) : Conversion Stmt :=
  match t.split? [.expr, .semicolon] with
  | some [e, _] => return .expression (← c.expr e)
  | _ => .error (t.malformed [.expr, .semicolon])

end Stmt

end Lookahead
