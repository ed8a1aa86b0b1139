import Lookahead.Name.Set
import Lookahead.Text.Class

/-! Context-free grammars over named symbols. Nothing is required of a grammar here; what a grammar
fit for analysis must satisfy is said by its defects. -/
namespace Lookahead

/-- The empty word, as a symbol of its own. -/
def epsilon : String := "ε"

/-- The end of the input, as a terminal. -/
def endMarker : String := "$"

structure Production where
  id : Int
  lhs : String
  rhs : List String
deriving DecidableEq

namespace Production

def isEpsilon (p : Production) : Bool := p.rhs = [epsilon]

/-- The right-hand side as it appears in a tree, where the empty word leaves no node. -/
def body (p : Production) : List String := p.rhs.filter (· ≠ epsilon)

def text (p : Production) : String :=
  toString p.id ++ ": " ++ p.lhs ++ " -> " ++ " ".intercalate p.rhs

end Production

/-- `operators` are the terminals that a generic operator on the stack of a parser stands for. -/
structure Grammar where
  terminals : NameSet
  nonterminals : NameSet
  productions : List Production
  start : String
  operators : NameSet
deriving DecidableEq

namespace Grammar

def number (first : Int) : List (String × List String) → List Production
  | [] => []
  | (lhs, rhs) :: rules => ⟨first, lhs, rhs⟩ :: number (first + 1) rules

/-- The grammar of some rules: productions are numbered from one in the order given, and the
nonterminals are the left-hand sides. -/
def ofRules (start : String) (rules : List (String × List String)) (terminals operators : List String) : Grammar :=
  ⟨.ofList terminals, .ofList (rules.map (·.1)), number 1 rules, start, .ofList operators⟩

/-- The symbols of a right-hand side written as one text. -/
def symbolsOf (text : String) : List String := Text.words text

def productionsFor (g : Grammar) (nonterminal : String) : List Production :=
  g.productions.filter fun p => p.lhs = nonterminal

/-- The first production with the given number. -/
def production? (g : Grammar) (id : Int) : Option Production := g.productions.find? fun p => p.id = id

def text (g : Grammar) : String := "\n".intercalate (g.productions.map Production.text)

end Grammar
end Lookahead
