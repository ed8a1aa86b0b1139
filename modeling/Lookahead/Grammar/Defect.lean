import Lookahead.Diagnostic
import Lookahead.Grammar.Basic

/-! Defects of a grammar: everything that would make its analysis meaningless. -/
namespace Lookahead

inductive Defect where
  | startUndeclared (start : String)
  | declaredTwice (symbol : String)
  | idRepeated (id : Int)
  | leftUndeclared (id : Int) (symbol : String)
  | epsilonMixed (id : Int)
  | rightUndeclared (id : Int) (symbol : String)
deriving DecidableEq

namespace Grammar

def declares (g : Grammar) (s : String) : Bool := s ∈ g.terminals || s ∈ g.nonterminals || s = epsilon

/-- The defects of one production, given the numbers used before it. -/
def productionDefects (g : Grammar) (used : List Int) (p : Production) : List Defect :=
  (if used.contains p.id then [.idRepeated p.id] else []) ++
    (if p.lhs ∈ g.nonterminals then [] else [.leftUndeclared p.id p.lhs]) ++
    (if p.rhs.contains epsilon && p.rhs.length ≠ 1 then [.epsilonMixed p.id] else []) ++
    (p.rhs.filter fun s => !g.declares s).map (.rightUndeclared p.id)

def defectsFrom (g : Grammar) (used : List Int) : List Production → List Defect
  | [] => []
  | p :: ps => g.productionDefects used p ++ g.defectsFrom (p.id :: used) ps

def defects (g : Grammar) : List Defect :=
  (if g.start ∈ g.nonterminals then [] else [.startUndeclared g.start]) ++
    (g.terminals.filter (· ∈ g.nonterminals)).toList.map .declaredTwice ++
    g.defectsFrom [] g.productions

end Grammar

/-! ## Reports -/

/-- A defect as it is reported. -/
structure Issue where
  code : String
  message : String
  symbol : Option String
  production : Option Int
deriving DecidableEq

namespace Issue

def text (i : Issue) : String := "[" ++ i.code ++ "] " ++ i.message

def title? : String → Option String
  | "G001" => some "Undefined symbol in right-hand side"
  | "G002" => some "Start symbol is not a nonterminal"
  | "G003" => some "Symbol is both terminal and nonterminal"
  | "G004" => some "Epsilon mixed with other symbols"
  | "G005" => some "Duplicate production id"
  | "G006" => some "Left-hand side is not a nonterminal"
  | "G100" => some "LL(1) parse table conflict"
  | _ => none

/-- One diagnostic for all issues of a grammar, under the code of the first. -/
def diagnostic (issues : List Issue) : Diagnostic :=
  let code := issues.head?.map (·.code)
  { message := "Malformed grammar (" ++ toString issues.length ++ " issue(s)): " ++
      "; ".intercalate (issues.map (·.message))
    location := none
    severity := "error"
    code := code
    help := "Every right-hand-side symbol must be declared as a terminal or nonterminal."
    suggestions := issues.map text
    title := code.bind title? }

end Issue

def Defect.issue : Defect → Issue
  | startUndeclared s => ⟨"G002", "start symbol '" ++ s ++ "' is not a nonterminal", s, none⟩
  | declaredTwice s => ⟨"G003", "'" ++ s ++ "' is declared as both terminal and nonterminal", s, none⟩
  | idRepeated id => ⟨"G005", "production id " ++ toString id ++ " is used more than once", none, id⟩
  | leftUndeclared id s =>
    ⟨"G006", "production " ++ toString id ++ " has undeclared left-hand side '" ++ s ++ "'", s, id⟩
  | epsilonMixed id => ⟨"G004", "production " ++ toString id ++ " mixes epsilon with other symbols", epsilon, id⟩
  | rightUndeclared id s =>
    ⟨"G001", "production " ++ toString id ++ " references undefined symbol '" ++ s ++ "'", s, id⟩

end Lookahead
