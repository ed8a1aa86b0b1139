import Lookahead.Grammar.Basic
import Lookahead.Log
import Lookahead.Token.Basic

/-! Steps of a parser: what it does, and the situation it does it in. -/
namespace Lookahead

inductive Action where
  | expand (p : Production)
  | matched
  | accept
  | reject
deriving DecidableEq

namespace Action

def name : Action → String
  | expand _ => "EXPAND"
  | matched => "MATCH"
  | accept => "ACCEPT"
  | reject => "ERROR"

def value : Action → String
  | expand _ => "expand"
  | matched => "match"
  | accept => "accept"
  | reject => "error"

def production? : Action → Option Production
  | expand p => some p
  | _ => none

end Action

/-- The stack is as before the action, its top first. -/
structure Step where
  index : Nat
  action : Action
  stack : List String
  lookahead : String
  position : Nat
  token : Token
deriving DecidableEq

namespace Step

def text (s : Step) : String :=
  "step " ++ toString s.index ++ ": " ++ s.action.value ++ " [" ++ " ".intercalate s.stack.reverse ++
    "] lookahead=" ++ s.lookahead ++ "@" ++ toString s.position ++
    (s.action.production?.elim "" fun p => " using " ++ p.text)

def event (s : Step) : Event := ⟨.trace, .debug, s.text⟩

end Step
end Lookahead
