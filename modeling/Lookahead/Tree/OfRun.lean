import Lookahead.Parse.Parser
import Lookahead.Tree.Basic

/-! The parse tree that the steps of a run tell: an expansion is a node over the next few trees, a match is a
leaf. Read from the last step back, the trees to the right of a step are ready when it is reached. -/
namespace Lookahead
namespace Tree

/-- The trees from a step on, given those from the next step on. Acceptance leaves what is still
expected as bare nodes. -/
def grow (s : Step) (forest : List Tree) : List Tree :=
  match s.action, s.stack with
  | .expand p, top :: _ =>
    node top (some p.id) none (forest.take p.body.length) :: forest.drop p.body.length
  | .matched, top :: _ => leaf top s.token :: forest
  | .accept, stack => stack.dropLast.map bare
  | _, _ => forest

def forest (steps : List Step) : List Tree := steps.foldr grow []

end Tree

inductive ParseFailure where
  | syntaxError (e : ParseError)
  | unfinished
deriving DecidableEq

/-- The tree of a run that accepts. -/
def Run.tree (r : Run) : Except ParseFailure Tree :=
  match r.outcome with
  | .accepted =>
    match Tree.forest r.steps with
    | t :: _ => .ok t
    | [] => .error .unfinished
  | .rejected e => .error (.syntaxError e)
  | .unfinished => .error .unfinished

end Lookahead
