import Lookahead.Grammar.Analysis
import Lookahead.Script.Symbol
import Lookahead.Token.Basic

/-! The grammar of the script language. Chains of binary operators are written with tails, which keeps
one token of lookahead enough; for the same reason operators stand as classes of equal precedence. -/
namespace Lookahead.Script

open Lookahead.Script.Symbol

/-- The rules in order; an empty right-hand side stands for the empty word. -/
def rules : List (Symbol × List Symbol) := [
  (program, [stmtList]),
  (stmtList, [stmt, stmtList]),
  (stmtList, []),
  (stmt, [varDecl]),
  (stmt, [fnDecl]),
  (stmt, [ifStmt]),
  (stmt, [whileStmt]),
  (stmt, [forStmt]),
  (stmt, [returnStmt]),
  (stmt, [breakStmt]),
  (stmt, [continueStmt]),
  (stmt, [exprStmt]),
  (varDecl, [letWord, identifier, varInit]),
  (varDecl, [constWord, identifier, equals, expr, semicolon]),
  (varInit, [equals, expr, semicolon]),
  (varInit, [semicolon]),
  (fnDecl, [fnWord, identifier, leftParen, params, rightParen, leftBrace, block, rightBrace]),
  (params, [identifier, paramTail]),
  (params, []),
  (paramTail, [comma, identifier, paramTail]),
  (paramTail, []),
  (ifStmt, [ifWord, leftParen, expr, rightParen, leftBrace, block, rightBrace, elseClause]),
  (elseClause, [elseWord, leftBrace, block, rightBrace]),
  (elseClause, []),
  (whileStmt, [whileWord, leftParen, expr, rightParen, leftBrace, block, rightBrace]),
  (forStmt, [forWord, leftParen, forInit, optExpr, semicolon, optExpr, rightParen, leftBrace, block, rightBrace]),
  (forInit, [varDecl]),
  (forInit, [exprStmt]),
  (forInit, [semicolon]),
  (optExpr, [expr]),
  (optExpr, []),
  (returnStmt, [returnWord, optExpr, semicolon]),
  (breakStmt, [breakWord, semicolon]),
  (continueStmt, [continueWord, semicolon]),
  (exprStmt, [expr, semicolon]),
  (block, [stmtList]),
  (expr, [assignExpr]),
  (assignExpr, [compExpr, assignTail]),
  (assignTail, [equals, assignExpr]),
  (assignTail, []),
  (compExpr, [addExpr, compTail]),
  (compTail, [compOp, compExpr]),
  (compTail, []),
  (addExpr, [mulExpr, addTail]),
  (addTail, [addOp, addExpr]),
  (addTail, []),
  (mulExpr, [unaryExpr, mulTail]),
  (mulTail, [mulOp, mulExpr]),
  (mulTail, []),
  (unaryExpr, [addOp, unaryExpr]),
  (unaryExpr, [notOp, unaryExpr]),
  (unaryExpr, [callExpr]),
  (callExpr, [memberExpr, callTail]),
  (callTail, [leftParen, args, rightParen, callTail]),
  (callTail, []),
  (memberExpr, [primaryExpr, memberTail]),
  (memberTail, [dot, identifier, memberTail]),
  (memberTail, [leftBracket, expr, rightBracket, memberTail]),
  (memberTail, []),
  (primaryExpr, [identifier]),
  (primaryExpr, [number]),
  (primaryExpr, [string]),
  (primaryExpr, [leftParen, expr, rightParen]),
  (primaryExpr, [objLiteral]),
  (primaryExpr, [arrayLiteral]),
  (args, [expr, argsTail]),
  (args, []),
  (argsTail, [comma, expr, argsTail]),
  (argsTail, []),
  (objLiteral, [leftBrace, propList, rightBrace]),
  (propList, [prop, propTail]),
  (propList, []),
  (propTail, [comma, propList]),
  (propTail, []),
  (prop, [identifier, propValue]),
  (propValue, [colon, expr]),
  (propValue, []),
  (arrayLiteral, [leftBracket, elements, rightBracket]),
  (elements, [expr, elementsTail]),
  (elements, []),
  (elementsTail, [comma, elements]),
  (elementsTail, [])]

/-- A rule as the grammar has it, with the empty word written out. -/
def ruleText (r : Symbol × List Symbol) : String × List String :=
  (r.1.name, if r.2.isEmpty then [epsilon] else r.2.map name)

def grammar : Grammar :=
  .ofRules program.name (rules.map ruleText) (Symbol.terminals.map name) (operatorClasses.map name)

def analysis : Except AnalysisFailure Analysis := grammar.analyze

/-! ## Terminals of tokens -/

/-- Stands for an operator outside every class; no rule has it. -/
def unknownOperator : String := "binary_operator"

def operatorClass (lexeme : String) : String :=
  if additiveOperators.contains lexeme then addOp.name
  else if multiplicativeOperators.contains lexeme then mulOp.name
  else if comparisonOperators.contains lexeme then compOp.name
  else if unaryOnlyOperators.contains lexeme then notOp.name
  else unknownOperator

/-- The terminal that a token stands for. A kind from outside the language gives its name in lower
case. -/
def terminalOf (t : Token) : String :=
  match t.kind with
  | .eof => endMarker
  | .number => Symbol.number.name
  | .string => Symbol.string.name
  | .identifier => Symbol.identifier.name
  | .letWord => Symbol.letWord.name
  | .constWord => Symbol.constWord.name
  | .fnWord => Symbol.fnWord.name
  | .ifWord => Symbol.ifWord.name
  | .elseWord => Symbol.elseWord.name
  | .whileWord => Symbol.whileWord.name
  | .forWord => Symbol.forWord.name
  | .returnWord => Symbol.returnWord.name
  | .breakWord => Symbol.breakWord.name
  | .continueWord => Symbol.continueWord.name
  | .operator => operatorClass t.lexeme
  | .equals => Symbol.equals.name
  | .comma => Symbol.comma.name
  | .dot => Symbol.dot.name
  | .colon => Symbol.colon.name
  | .semicolon => Symbol.semicolon.name
  | .leftParen => Symbol.leftParen.name
  | .rightParen => Symbol.rightParen.name
  | .leftBrace => Symbol.leftBrace.name
  | .rightBrace => Symbol.rightBrace.name
  | .leftBracket => Symbol.leftBracket.name
  | .rightBracket => Symbol.rightBracket.name
  | .other name => Text.lower name

end Lookahead.Script
