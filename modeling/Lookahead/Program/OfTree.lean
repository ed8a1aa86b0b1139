import Lookahead.Log
import Lookahead.Program.OfTree.Expr
import Lookahead.Program.OfTree.Stmt
import Lookahead.Program.Wrapper

/-! Programs of parse trees. The conversions of single nodes are tied together here, with a limit on how
many may be under way at once. -/
namespace Lookahead

open Script

/-- Nodes with a conversion into a statement. -/
def isStatement : Symbol → Bool
  | .stmt | .varDecl | .fnDecl | .ifStmt | .whileStmt | .forStmt | .returnStmt | .breakStmt | .continueStmt
  | .exprStmt => true
  | _ => false

def tooDeep : ConversionFailure := .fault .tooDeep

mutual

/-- The expression of a tree, found under its wrappers. -/
def Expr.ofTree : Nat → Tree → Conversion Expr
  | 0, _ => .error tooDeep
  | n + 1, t => Expr.ofNode n t.core

def Expr.ofNode : Nat → Tree → Conversion Expr
  | 0, _ => .error tooDeep
  | n + 1, t =>
    match Symbol.ofNonterminal? t.symbol with
    | some .expr => Expr.ofWrapped (Expr.ofTree n) t
    | some .assignExpr => Expr.ofAssign (Expr.ofTree n) t
    | some .compExpr => Expr.ofChain (Expr.ofTree n) .comparison t
    | some .addExpr => Expr.ofChain (Expr.ofTree n) .additive t
    | some .mulExpr => Expr.ofChain (Expr.ofTree n) .multiplicative t
    | some .unaryExpr => Expr.ofUnary (Expr.ofTree n) t
    | some .callExpr => Expr.ofCall (Expr.ofTree n) (Expr.ofArgList n) t
    | some .memberExpr => Expr.ofMember (Expr.ofTree n) t
    | some .primaryExpr => Expr.ofPrimary (Expr.ofTree n) t
    | some .objLiteral => Expr.ofObject (Expr.ofTree n) t
    | some .arrayLiteral => Expr.ofArray (Expr.ofTree n) t
    | _ => .error (.fault (.noConversion t.symbol))

def Expr.ofArgList : Nat → Tree → Conversion (List Expr)
  | 0, _ => .error tooDeep
  | n + 1, t => Expr.ofArgs (Expr.ofTree n) t

end

def Expr.ofOptExpr : Nat → Tree → Conversion (Option Expr)
  | 0, _ => .error tooDeep
  | n + 1, t => Expr.ofOptional (Expr.ofTree n) t

mutual

/-- The statement of a tree; where there is none, an expression takes its place. -/
def Stmt.ofTree : Nat → Tree → Conversion Stmt
  | 0, _ => .error tooDeep
  | n + 1, t =>
    match Symbol.ofNonterminal? t.core.symbol with
    | some s => if isStatement s then Stmt.ofNode n s t.core else .bare <$> Expr.ofNode n t.core
    | none => .error (.fault (.noConversion t.core.symbol))

def Stmt.ofNode : Nat → Symbol → Tree → Conversion Stmt
  | 0, _, _ => .error tooDeep
  | n + 1, s, t =>
    let parts : Stmt.Parts := ⟨Expr.ofTree n, Expr.ofOptExpr n, Stmt.ofTree n, Stmt.ofBlock n⟩
    match s with
    | .stmt => Stmt.ofStmt parts t
    | .varDecl => Stmt.ofVarDecl parts t
    | .fnDecl => Stmt.ofFnDecl parts t
    | .ifStmt => Stmt.ofIf parts t
    | .whileStmt => Stmt.ofWhile parts t
    | .forStmt => Stmt.ofFor parts t
    | .returnStmt => Stmt.ofReturn parts t
    | .breakStmt => Stmt.ofBreak t
    | .continueStmt => Stmt.ofContinue t
    | .exprStmt => Stmt.ofExprStmt parts t
    | _ => .error (.fault (.noConversion t.symbol))

def Stmt.ofBlock : Nat → Tree → Conversion (List Stmt)
  | 0, _ => .error tooDeep
  | n + 1, t =>
    match t.split? [.stmtList] with
    | some [list] => Stmt.ofList n list
    | _ => .error (t.malformed [.stmtList])

def Stmt.ofList : Nat → Tree → Conversion (List Stmt)
  | 0, _ => .error tooDeep
  | n + 1, t => t.statements.mapM (Stmt.ofTree n)

end

namespace Program

/-- How many conversions may be under way at once: what a stack of 1000 calls leaves to them, if 14 are taken by the
calls around the outermost conversion and by the helpers that the innermost one has under way. The helpers differ from
node to node and are not counted one by one, so the border is exact to within a few calls only. -/
def depthLimit : Nat := 986

/-- The program of a tree, with a limit on how many conversions may be under way at once. -/
def ofTreeWithin (limit : Nat) (t : Tree) : Conversion Program :=
  if t.symbol = Symbol.program.name then
    match t.split? [.stmtList] with
    | some [list] => return ⟨← Stmt.ofList limit list⟩
    | _ => .error (t.malformed [.stmtList])
  else .error (.fault (.notProgram t.symbol))

def ofTree (t : Tree) : Conversion Program := ofTreeWithin depthLimit t

def event (p : Program) : Event :=
  ⟨.conversion, .debug, "converted parse tree into " ++ toString p.body.length ++ " top-level statement(s)"⟩

end Program
end Lookahead
