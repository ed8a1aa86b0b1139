/-! Kinds of tokens and the fixed vocabulary: keywords, punctuation and operators. -/
namespace Lookahead

/-- `other` is a kind from outside the language, known by its name only. -/
inductive Kind where
  | eof
  | number
  | string
  | identifier
  | letWord
  | constWord
  | fnWord
  | ifWord
  | elseWord
  | whileWord
  | forWord
  | returnWord
  | breakWord
  | continueWord
  | operator
  | equals
  | comma
  | dot
  | colon
  | semicolon
  | leftParen
  | rightParen
  | leftBrace
  | rightBrace
  | leftBracket
  | rightBracket
  | other (name : String)
deriving DecidableEq

namespace Kind

def name : Kind → String
  | eof => "EOF"
  | number => "NUMBER"
  | string => "STRING"
  | identifier => "IDENTIFIER"
  | letWord => "LET"
  | constWord => "CONST"
  | fnWord => "FN"
  | ifWord => "IF"
  | elseWord => "ELSE"
  | whileWord => "WHILE"
  | forWord => "FOR"
  | returnWord => "RETURN"
  | breakWord => "BREAK"
  | continueWord => "CONTINUE"
  | operator => "BINARY_OPERATOR"
  | equals => "EQUALS"
  | comma => "COMMA"
  | dot => "DOT"
  | colon => "COLON"
  | semicolon => "SEMICOLON"
  | leftParen => "LEFT_PAREN"
  | rightParen => "RIGHT_PAREN"
  | leftBrace => "LEFT_BRACE"
  | rightBrace => "RIGHT_BRACE"
  | leftBracket => "LEFT_BRACKET"
  | rightBracket => "RIGHT_BRACKET"
  | other name => name

/-- The kinds of the language. -/
def all : List Kind :=
  [eof, number, string, identifier, letWord, constWord, fnWord, ifWord, elseWord, whileWord, forWord,
    returnWord, breakWord, continueWord, operator, equals, comma, dot, colon, semicolon, leftParen,
    rightParen, leftBrace, rightBrace, leftBracket, rightBracket]

def ofName (s : String) : Kind := (all.find? fun k => k.name = s).getD (other s)

end Kind

/-! ## Vocabulary -/

/-- Reserved words; any other word is an identifier. -/
def keywords : List (String × Kind) :=
  [("let", .letWord), ("const", .constWord), ("fn", .fnWord), ("if", .ifWord), ("else", .elseWord),
    ("while", .whileWord), ("for", .forWord), ("return", .returnWord), ("break", .breakWord),
    ("continue", .continueWord)]

def punctuation : List (String × Kind) :=
  [("=", .equals), (",", .comma), (".", .dot), (":", .colon), (";", .semicolon), ("(", .leftParen),
    (")", .rightParen), ("\x7b", .leftBrace), ("\x7d", .rightBrace), ("[", .leftBracket),
    ("]", .rightBracket)]

def additiveOperators : List String := ["+", "-"]

def multiplicativeOperators : List String := ["*", "/", "%"]

def comparisonOperators : List String := ["<", ">", "<=", ">=", "==", "!="]

def unaryOnlyOperators : List String := ["!"]

def operators : List String :=
  additiveOperators ++ multiplicativeOperators ++ comparisonOperators ++ unaryOnlyOperators

end Lookahead
