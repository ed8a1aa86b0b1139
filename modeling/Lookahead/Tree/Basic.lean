import Lookahead.Token.Basic

/-! Parse trees. A parser makes nodes that carry either the number of the production they were expanded
by or the token they stand for; a tree made by hand may carry any combination. -/
namespace Lookahead

inductive Tree where
  | node (symbol : String) (production : Option Int) (token : Option Token) (children : List Tree)
deriving Inhabited

namespace Tree

def symbol : Tree → String
  | node s _ _ _ => s

def production : Tree → Option Int
  | node _ p _ _ => p

def token : Tree → Option Token
  | node _ _ t _ => t

def children : Tree → List Tree
  | node _ _ _ cs => cs

/-- A node that nothing is known of but its symbol. -/
def bare (symbol : String) : Tree := node symbol none none []

def leaf (symbol : String) (t : Token) : Tree := node symbol none (some t) []

def isLeaf (t : Tree) : Bool := t.children.isEmpty

def isTerminal (t : Tree) : Bool := t.token.isSome

/-- The symbols of the children. -/
def shape (t : Tree) : List String := t.children.map symbol

/-! ## Listing -/

mutual

/-- The nodes of a tree with their depths, each before its children, followed by `rest`. -/
def listOnto (depth : Nat) : Tree → List (Nat × Tree) → List (Nat × Tree)
  | node s p t cs, rest => (depth, node s p t cs) :: listAllOnto (depth + 1) cs rest

def listAllOnto (depth : Nat) : List Tree → List (Nat × Tree) → List (Nat × Tree)
  | [], rest => rest
  | c :: cs, rest => c.listOnto depth (listAllOnto depth cs rest)

end

def nodes (t : Tree) : List (Nat × Tree) := t.listOnto 0 []

/-- The nodes that carry a token, in order. -/
def leaves (t : Tree) : List Tree := (t.nodes.map (·.2)).filter isTerminal

/-! ## Text -/

def label (t : Tree) : String :=
  match t.token with
  | some k => t.symbol ++ " '" ++ k.lexeme ++ "'"
  | none => t.symbol

/-- One line for each node, indented by two spaces a level; below level zero nothing is indented. -/
def pretty (t : Tree) (level : Int) : String :=
  "\n".intercalate (t.nodes.map fun n => String.ofList (List.replicate (2 * (level + n.1).toNat) ' ') ++ n.2.label)

end Tree
end Lookahead
