import Lookahead.Tree.Draft
import Lookahead.Tree.OfRun

/-! Parsers that build a tree on the way. Beside the stack of symbols a parser keeps the stack of the nodes that
stand for them. Whatever it does to the one it does to the other, and it never looks at the steps that it has
recorded. -/
namespace Lookahead

/-- A parser at work, with the steps already taken latest first. -/
structure Builder extends Config where
  draft : Draft
  taken : List Step

/-- How a parser ends: with the nodes of the tree, with an error, or for want of a node that should be there. -/
inductive Verdict where
  | accepted (cells : Array Cell)
  | rejected (e : ParseError)
  | stuck
  /-- The bound on the steps was reached. -/
  | unfinished

/-- The steps taken, and how they ended. -/
structure Report where
  steps : List Step
  verdict : Verdict

namespace Parser

inductive Turn where
  | proceed (next : Builder)
  | halt (taken : List Step) (verdict : Verdict)

/-- One round of the parser. A pop, or a node on top that is not there, makes it stuck. -/
def turn (P : Parser) (b : Builder) : Turn :=
  match b.stack, b.rest with
  | [], _ => .halt b.taken (.rejected ⟨.unexpectedEof endMarker, b.position, none⟩)
  | top :: _, [] => .halt b.taken (.rejected ⟨.unexpectedEof top, b.position, none⟩)
  | top :: below, token :: rest =>
    let lookahead := P.terminalOf token
    let record (a : Action) : List Step := ⟨b.index, a, b.stack, lookahead, b.position, token⟩ :: b.taken
    if top = endMarker then
      if lookahead ≠ endMarker then .halt (record .reject) (.rejected ⟨.trailingInput, b.position, token⟩)
      else
        match rest with
        | extra :: _ => .halt b.taken (.rejected ⟨.trailingInput, b.position + 1, extra⟩)
        | [] =>
          match b.draft.pop with
          | some (_, d) => .halt (record .accept) (.accepted d.cells)
          | none => .halt (record .accept) .stuck
    else if top ∈ P.grammar.nonterminals then
      match P.predict top lookahead with
      | none =>
        .halt (record .reject) (.rejected ⟨.noProduction top lookahead (P.table.expected top), b.position, token⟩)
      | some p =>
        let children := p.body.map Cell.fresh
        match b.draft.expand p.id children with
        | some d =>
          .proceed ⟨⟨b.index + 1, b.position, children.map Cell.symbol ++ below, b.rest⟩, d, record (.expand p)⟩
        | none => .halt (record (.expand p)) .stuck
    else if P.admits top lookahead then
      match b.draft.matched token with
      | some d => .proceed ⟨⟨b.index + 1, b.position + 1, below, rest⟩, d, record .matched⟩
      | none => .halt (record .matched) .stuck
    else
      .halt (record .reject) (.rejected ⟨.terminalMismatch top lookahead, b.position, token⟩)

def buildFrom (P : Parser) : Nat → Builder → Report
  | 0, b => ⟨b.taken.reverse, .unfinished⟩
  | n + 1, b =>
    match P.turn b with
    | .proceed next => P.buildFrom n next
    | .halt taken verdict => ⟨taken.reverse, verdict⟩

def starting (P : Parser) (tokens : List Token) : Builder := ⟨P.initial tokens, .start P.grammar.start, []⟩

def build (P : Parser) (tokens : List Token) : Report := P.buildFrom (P.stepBound tokens.length) (P.starting tokens)

end Parser

/-- The tree under the root, whose nodes have to be there. -/
def Verdict.tree : Verdict → Except ParseFailure Tree
  | accepted cells =>
    match Draft.root cells with
    | some t => .ok t
    | none => .error .unfinished
  | rejected e => .error (.syntaxError e)
  | stuck => .error .unfinished
  | unfinished => .error .unfinished

def Parser.parseTree (P : Parser) (tokens : List Token) : Except ParseFailure Tree := (P.build tokens).verdict.tree

end Lookahead
