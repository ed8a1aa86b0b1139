import Lookahead.Decimal.Numeral
import Lookahead.Program.Basic
import Lookahead.Program.Spine

/-! Conversions of single nodes into expressions. Each is given the conversion of the trees below it. -/
namespace Lookahead

open Script

namespace Expr

/-- The left fold of a chain of operators. -/
def fold (first : Expr) (operations : List (String × Expr)) : Expr :=
  operations.foldl (fun left o => .binary left o.1 o.2) first

def ofWrapped (convert : Tree → Conversion Expr) (t : Tree) : Conversion Expr :=
  match t.split? [.assignExpr] with
  | some [a] => convert a
  | _ => .error (t.malformed [.assignExpr])

def ofAssign (convert : Tree → Conversion Expr) (t : Tree) : Conversion Expr :=
  match t.split? [.compExpr, .assignTail] with
  | some [comp, tail] => do
    let left ← convert comp
    if tail.isLeaf then return left
    match tail.split? [.equals, .assignExpr] with
    | some [_, rest] => return .assign left (← convert rest)
    | _ => .error (tail.malformed [.equals, .assignExpr])
  | _ => .error (t.malformed [.compExpr, .assignTail])

def ofChain (convert : Tree → Conversion Expr) (l : Level) (t : Tree) : Conversion Expr :=
  match t.split? [l.operand, l.tail] with
  | some [operand, tail] => do
    let first ← convert operand
    let operations ← (tail.operations l).mapM fun (o, a) => return (← o.lexeme, ← convert a)
    return fold first operations
  | _ => .error (t.malformed [l.operand, l.tail])

def ofUnary (convert : Tree → Conversion Expr) (t : Tree) : Conversion Expr :=
  match t.children with
  | [operator, argument] =>
    if argument.symbol = Symbol.unaryExpr.name then return .unary (← operator.lexeme) (← convert argument)
    else .error t.unexpected
  | _ => .error t.unexpected

def ofArgs (convert : Tree → Conversion Expr) (t : Tree) : Conversion (List Expr) :=
  if t.isLeaf then .ok []
  else
    match t.split? [.expr, .argsTail] with
    | some [a, tail] => do
      let first ← convert a
      let rest ← (tail.afterComma .expr .argsTail).mapM convert
      return first :: rest
    | _ => .error (t.malformed [.expr, .argsTail])

def ofCall (convert : Tree → Conversion Expr) (convertArgs : Tree → Conversion (List Expr)) (t : Tree) :
    Conversion Expr :=
  match t.split? [.memberExpr, .callTail] with
  | some [callee, tail] => do
    let caller ← convert callee
    let calls ← tail.calls.mapM convertArgs
    return calls.foldl .call caller
  | _ => .error (t.malformed [.memberExpr, .callTail])

/-- The property that an access names, and whether it is computed. -/
def ofAccess (convert : Tree → Conversion Expr) : Access → Conversion (Expr × Bool)
  | .named leaf => return (.identifier (← leaf.lexeme), false)
  | .computed index => return (← convert index, true)

def ofMember (convert : Tree → Conversion Expr) (t : Tree) : Conversion Expr :=
  match t.split? [.primaryExpr, .memberTail] with
  | some [primary, tail] => do
    let base ← convert primary
    let accesses ← tail.accesses.mapM (ofAccess convert)
    return accesses.foldl (fun base a => .member base a.1 a.2) base
  | _ => .error (t.malformed [.primaryExpr, .memberTail])

/-- The value of a number leaf is that of its token or, failing that, of its lexeme. -/
def numberValue (k : Token) : Conversion Value :=
  match k.value with
  | some v => .ok v
  | none =>
    match Numeral.read? k.lexeme with
    | some x => .ok (.number x)
    | none => .error (.unreadable k.lexeme)

def stringValue (k : Token) : Value := k.value.getD (.text k.lexeme)

def ofPrimary (convert : Tree → Conversion Expr) (t : Tree) : Conversion Expr :=
  match t.children with
  | [a] =>
    if a.symbol = Symbol.identifier.name then return .identifier (← a.lexeme)
    else if a.symbol = Symbol.number.name then
      match a.token with
      | some k => return .number (← numberValue k)
      | none => .error t.unexpected
    else if a.symbol = Symbol.string.name then
      match a.token with
      | some k => return .string (stringValue k)
      | none => .error t.unexpected
    else if a.symbol = Symbol.objLiteral.name ∨ a.symbol = Symbol.arrayLiteral.name then convert a
    else .error t.unexpected
  | _ => .error t.unexpected

def ofProperty (convert : Tree → Conversion Expr) (t : Tree) : Conversion Property :=
  match t.split? [.identifier, .propValue] with
  | some [key, value] =>
    if value.isLeaf then return .entry (← key.lexeme) none
    else
      match value.split? [.colon, .expr] with
      | some [_, e] => return .entry (← key.lexeme) (some (← convert e))
      | _ => .error (value.malformed [.colon, .expr])
  | _ => .error (t.malformed [.identifier, .propValue])

def ofObject (convert : Tree → Conversion Expr) (t : Tree) : Conversion Expr :=
  match t.split? [.leftBrace, .propList, .rightBrace] with
  | some [_, list, _] => return .object (← (list.entries .propList .prop .propTail).mapM (ofProperty convert))
  | _ => .error (t.malformed [.leftBrace, .propList, .rightBrace])

def ofArray (convert : Tree → Conversion Expr) (t : Tree) : Conversion Expr :=
  match t.split? [.leftBracket, .elements, .rightBracket] with
  | some [_, list, _] => return .array (← (list.entries .elements .expr .elementsTail).mapM convert)
  | _ => .error (t.malformed [.leftBracket, .elements, .rightBracket])

/-- An optional expression, absent where the node is empty. -/
def ofOptional (convert : Tree → Conversion Expr) (t : Tree) : Conversion (Option Expr) :=
  if t.isLeaf then .ok none
  else
    match t.split? [.expr] with
    | some [e] => return some (← convert e)
    | _ => .error (t.malformed [.expr])

end Expr

end Lookahead
