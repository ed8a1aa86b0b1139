import Lookahead.Location
import Lookahead.Text.Case

/-! Diagnostics: what every error of the library is reported as. -/
namespace Lookahead

structure Diagnostic where
  message : String
  location : Option Location
  severity : String
  code : Option String
  help : Option String
  suggestions : Option (List String)
  /-- What the code stands for. -/
  title : Option String
deriving DecidableEq

namespace Diagnostic

/-- A line made of a text that is there and not empty. -/
def line (before : String) (text : Option String) (after : String) : String :=
  match text with
  | some s => if s = "" then "" else before ++ s ++ after
  | none => ""

def listing (suggestions : List String) : String :=
  if suggestions.isEmpty then ""
  else "  suggestions:\n" ++ String.join (suggestions.map fun s => "    - " ++ s ++ "\n")

def render (d : Diagnostic) : String :=
  Text.upper d.severity ++ ": " ++ line "[" d.code "] " ++ d.message ++ "\n" ++
    line "  note: " d.title "\n" ++
    (d.location.elim "" fun l => "  --> " ++ l.text ++ "\n") ++
    line "  help: " d.help "\n" ++
    listing (d.suggestions.getD [])

end Diagnostic
end Lookahead
