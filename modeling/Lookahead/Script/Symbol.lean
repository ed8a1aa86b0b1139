/-! The symbols of the script language. -/
namespace Lookahead.Script

inductive Symbol where
  | identifier
  | number
  | string
  | letWord
  | constWord
  | fnWord
  | ifWord
  | elseWord
  | whileWord
  | forWord
  | returnWord
  | breakWord
  | continueWord
  | equals
  | semicolon
  | leftParen
  | rightParen
  | leftBrace
  | rightBrace
  | leftBracket
  | rightBracket
  | comma
  | colon
  | dot
  | addOp
  | mulOp
  | compOp
  | notOp
  | program
  | stmtList
  | stmt
  | varDecl
  | varInit
  | fnDecl
  | params
  | paramTail
  | ifStmt
  | elseClause
  | whileStmt
  | forStmt
  | forInit
  | optExpr
  | returnStmt
  | breakStmt
  | continueStmt
  | exprStmt
  | block
  | expr
  | assignExpr
  | assignTail
  | compExpr
  | compTail
  | addExpr
  | addTail
  | mulExpr
  | mulTail
  | unaryExpr
  | callExpr
  | callTail
  | memberExpr
  | memberTail
  | primaryExpr
  | args
  | argsTail
  | objLiteral
  | propList
  | propTail
  | prop
  | propValue
  | arrayLiteral
  | elements
  | elementsTail
deriving DecidableEq

namespace Symbol

def name : Symbol → String
  | identifier => "identifier"
  | number => "number"
  | string => "string"
  | letWord => "let"
  | constWord => "const"
  | fnWord => "fn"
  | ifWord => "if"
  | elseWord => "else"
  | whileWord => "while"
  | forWord => "for"
  | returnWord => "return"
  | breakWord => "break"
  | continueWord => "continue"
  | equals => "="
  | semicolon => ";"
  | leftParen => "("
  | rightParen => ")"
  | leftBrace => "\x7b"
  | rightBrace => "\x7d"
  | leftBracket => "["
  | rightBracket => "]"
  | comma => ","
  | colon => ":"
  | dot => "."
  | addOp => "add_op"
  | mulOp => "mul_op"
  | compOp => "comp_op"
  | notOp => "not_op"
  | program => "Program"
  | stmtList => "StmtList"
  | stmt => "Stmt"
  | varDecl => "VarDecl"
  | varInit => "VarInit"
  | fnDecl => "FnDecl"
  | params => "Params"
  | paramTail => "ParamTail"
  | ifStmt => "IfStmt"
  | elseClause => "ElseClause"
  | whileStmt => "WhileStmt"
  | forStmt => "ForStmt"
  | forInit => "ForInit"
  | optExpr => "OptExpr"
  | returnStmt => "ReturnStmt"
  | breakStmt => "BreakStmt"
  | continueStmt => "ContinueStmt"
  | exprStmt => "ExprStmt"
  | block => "Block"
  | expr => "Expr"
  | assignExpr => "AssignExpr"
  | assignTail => "AssignTail"
  | compExpr => "CompExpr"
  | compTail => "CompTail"
  | addExpr => "AddExpr"
  | addTail => "AddTail"
  | mulExpr => "MulExpr"
  | mulTail => "MulTail"
  | unaryExpr => "UnaryExpr"
  | callExpr => "CallExpr"
  | callTail => "CallTail"
  | memberExpr => "MemberExpr"
  | memberTail => "MemberTail"
  | primaryExpr => "PrimaryExpr"
  | args => "Args"
  | argsTail => "ArgsTail"
  | objLiteral => "ObjLiteral"
  | propList => "PropList"
  | propTail => "PropTail"
  | prop => "Prop"
  | propValue => "PropValue"
  | arrayLiteral => "ArrayLiteral"
  | elements => "Elements"
  | elementsTail => "ElementsTail"

def terminals : List Symbol :=
  [identifier, number, string, letWord, constWord, fnWord, ifWord, elseWord, whileWord, forWord, returnWord,
    breakWord, continueWord, equals, semicolon, leftParen, rightParen, leftBrace, rightBrace, leftBracket,
    rightBracket, comma, colon, dot, addOp, mulOp, compOp, notOp]

def operatorClasses : List Symbol := [addOp, mulOp, compOp, notOp]

def nonterminals : List Symbol :=
  [program, stmtList, stmt, varDecl, varInit, fnDecl, params, paramTail, ifStmt, elseClause, whileStmt, forStmt,
    forInit, optExpr, returnStmt, breakStmt, continueStmt, exprStmt, block, expr, assignExpr, assignTail, compExpr,
    compTail, addExpr, addTail, mulExpr, mulTail, unaryExpr, callExpr, callTail, memberExpr, memberTail,
    primaryExpr, args, argsTail, objLiteral, propList, propTail, prop, propValue, arrayLiteral, elements,
    elementsTail]

def ofNonterminal? (name : String) : Option Symbol := nonterminals.find? fun s => s.name = name

end Symbol
end Lookahead.Script
