import Lookahead.Parse.Build
import Lookahead.Proofs.Parse.Run
import Lookahead.Proofs.Parse.Stack
import Lookahead.Proofs.Tree.Draft
import Mathlib.Logic.Relation

/-! A parser that builds a tree is never stuck: its two stacks stand side by side, a node for every symbol. So it takes
the moves of a run, and the tree that it returns is the one that the steps of the run tell. -/
namespace Lookahead

/-- The two stacks hold the same symbols, one as names and one as untouched nodes, over the end marker. -/
structure Builder.Parallel (b : Builder) (symbols : List String) (places : List ℕ) : Prop where
  stack_eq : b.stack = symbols ++ [endMarker]
  stands : b.draft.Stands symbols places

theorem Builder.Parallel.nodes_ne_nil {b : Builder} {symbols : List String} {places : List ℕ}
    (h : b.Parallel symbols places) : b.draft.nodes ≠ [] := by
  rw [h.stands.nodes_eq]
  exact List.append_ne_nil_of_right_ne_nil _ (List.cons_ne_nil _ _)

/-- How the end of a run is answered. -/
def Outcome.verdict (cells : Array Cell) : Outcome → Verdict
  | accepted => .accepted cells
  | rejected e => .rejected e
  | unfinished => .unfinished

namespace Parser
open Lookahead.Draft Lookahead.Tree
variable {P : Parser} {b : Builder} {c : Config} {d e : Draft} {s : Step} {o : Outcome} {taken : List Step}
  {symbols : List String} {places : List ℕ} {i k : ℕ} {top : String} {below : List String} {token : Token}
  {rest : List Token}

theorem parallel_starting (P : Parser) (tokens : List Token) :
    (P.starting tokens).Parallel [P.grammar.start] [0] := ⟨rfl, stands_start _⟩

/-! ## One round -/

theorem turn_of_halt {x : Option Step} (hmove : P.move b.toConfig = .halt x o) (hnodes : b.draft.nodes ≠ []) :
    P.turn b = .halt (x.toList ++ b.taken) (o.verdict b.draft.cells) := by
  obtain ⟨c, d, taken⟩ := b
  obtain ⟨n, nodes, hd⟩ := List.exists_cons_of_ne_nil hnodes
  have hpop := pop_eq hd
  have heff := P.move_effect c
  rw [hmove] at heff
  cases heff <;> simp_all [turn, Outcome.verdict]

theorem turn_of_expand {p : Production} (htop : top ≠ endMarker) (hn : top ∈ P.grammar.nonterminals)
    (hp : P.predict top (P.terminalOf token) = some p) (he : d.expand p.id (p.body.map Cell.fresh) = some e) :
    P.turn ⟨⟨i, k, top :: below, token :: rest⟩, d, taken⟩ =
      .proceed ⟨⟨i + 1, k, p.body ++ below, token :: rest⟩, e,
        ⟨i, .expand p, top :: below, P.terminalOf token, k, token⟩ :: taken⟩ := by
  have hsymbols : (p.body.map Cell.fresh).map Cell.symbol = p.body := by
    rw [List.map_map]
    exact List.map_id _
  rw [← hsymbols]
  simp [turn, htop, hn, hp, he]

theorem turn_of_matched (htop : top ≠ endMarker) (hn : top ∉ P.grammar.nonterminals)
    (hadmits : P.admits top (P.terminalOf token) = true) (he : d.matched token = some e) :
    P.turn ⟨⟨i, k, top :: below, token :: rest⟩, d, taken⟩ =
      .proceed ⟨⟨i + 1, k + 1, below, rest⟩, e,
        ⟨i, .matched, top :: below, P.terminalOf token, k, token⟩ :: taken⟩ := by
  simp [turn, htop, hn, hadmits, he]

/-- A move is a round that keeps the stacks side by side, and whatever the nodes on the later stack come to show, those
on the earlier one come to show what the step makes of it. -/
theorem turn_of_proceed (hb : b.Parallel symbols places) (hmove : P.move b.toConfig = .proceed s c) :
    ∃ (b' : Builder) (symbols' : List String) (places' : List ℕ), P.turn b = .proceed b' ∧ b'.toConfig = c ∧
      b'.taken = s :: b.taken ∧ b'.Parallel symbols' places' ∧
      Completes (grow s) b.draft places b'.draft places' := by
  obtain ⟨c, d, taken⟩ := b
  obtain ⟨hstack, hstands⟩ := hb
  have heff := P.move_effect c
  rw [hmove] at heff
  cases heff with
  | @expand _ _ _ _ _ _ p htop hn hp =>
    obtain ⟨τ, rfl, rfl⟩ := exists_of_cons_eq htop hstack
    cases hstands.fresh with
    | cons hcell hfresh =>
      obtain ⟨e, places', he, hstands', hcompletes⟩ := hstands.completes_expand p.id p.body
      exact ⟨_, _, _, turn_of_expand htop hn hp he, rfl, rfl, ⟨(List.append_assoc _ _ _).symm, hstands'⟩, hcompletes⟩
  | matched htop hn hadmits =>
    obtain ⟨τ, rfl, rfl⟩ := exists_of_cons_eq htop hstack
    cases hstands.fresh with
    | cons hcell hfresh =>
      obtain ⟨e, he, hstands', hcompletes⟩ := hstands.completes_matched _
      exact ⟨_, _, _, turn_of_matched htop hn hadmits he, rfl, rfl, ⟨rfl, hstands'⟩, hcompletes⟩

/-- The parser goes on from the one to the other. -/
def Rounds (P : Parser) (b b' : Builder) : Prop := P.turn b = .proceed b'

theorem Rounds.parallel (h : P.Rounds b b') (hb : b.Parallel symbols places) :
    ∃ symbols' places', b'.Parallel symbols' places' := by
  cases hmove : P.move b.toConfig with
  | halt x o => exact Turn.noConfusion (h.symm.trans (turn_of_halt hmove hb.nodes_ne_nil))
  | proceed s c =>
    obtain ⟨b'', symbols', places', hturn, -, -, hb'', -⟩ := turn_of_proceed hb hmove
    obtain rfl := Turn.proceed.inj (h.symm.trans hturn)
    exact ⟨symbols', places', hb''⟩

/-! ## Whole runs -/

/-- The stacks stay side by side as long as the parser goes on. -/
theorem parallel_of_rounds {tokens : List Token} (h : Relation.ReflTransGen P.Rounds (P.starting tokens) b) :
    ∃ symbols places, b.Parallel symbols places := by
  induction h with
  | refl => exact ⟨_, _, P.parallel_starting tokens⟩
  | tail _ hround ih =>
    obtain ⟨symbols, places, hb⟩ := ih
    exact hround.parallel hb

/-- The verdict on a run from a draft: the nodes on the stack come to show the forest that the steps tell. -/
inductive Concludes (d : Draft) (places : List ℕ) (steps : List Step) : Outcome → Verdict → Prop
  | accepted {cells : Array Cell} : d.Keeps places cells → List.Forall₂ (Shows cells) places (forest steps) →
      Concludes d places steps .accepted (.accepted cells)
  | rejected {x : ParseError} : Concludes d places steps (.rejected x) (.rejected x)
  | unfinished : Concludes d places steps .unfinished .unfinished

theorem concludes_of_halt {x : Option Step} (hb : b.Parallel symbols places) (hmove : P.move b.toConfig = .halt x o) :
    Concludes b.draft places x.toList o (o.verdict b.draft.cells) := by
  obtain ⟨c, d, taken⟩ := b
  obtain ⟨hstack, hstands⟩ := hb
  have heff := P.move_effect c
  rw [hmove] at heff
  cases heff with
  | accept hend =>
    refine .accepted (.refl _ _) ?_
    show List.Forall₂ _ _ ((endMarker :: _).dropLast.map bare)
    rw [show endMarker :: _ = symbols ++ [endMarker] from hstack, List.dropLast_concat]
    exact hstands.shows_bare
  | _ => exact .rejected

/-- The induction is on the bound, which counts the rounds of both. -/
theorem buildFrom_concludes (n : ℕ) (hb : b.Parallel symbols places) :
    ∃ steps o v, P.runFrom n b.taken b.toConfig = ⟨b.taken.reverse ++ steps, o⟩ ∧
      P.buildFrom n b = ⟨b.taken.reverse ++ steps, v⟩ ∧ Concludes b.draft places steps o v := by
  induction n generalizing b symbols places with
  | zero => exact ⟨[], _, _, by rw [runFrom, List.append_nil], by rw [buildFrom, List.append_nil], .unfinished⟩
  | succ n ih =>
    cases hmove : P.move b.toConfig with
    | halt x o =>
      refine ⟨x.toList, o, _, ?_, ?_, concludes_of_halt hb hmove⟩
      · rw [runFrom, hmove]
        cases x <;> simp
      · rw [buildFrom, turn_of_halt hmove hb.nodes_ne_nil]
        cases x <;> simp
    | proceed s c =>
      obtain ⟨b', symbols', places', hturn, hc, htaken, hb', hcompletes⟩ := turn_of_proceed hb hmove
      obtain ⟨steps, o, v, hrun, hbuild, hconcludes⟩ := ih hb'
      rw [hc, htaken, List.reverse_cons, List.append_assoc, List.singleton_append] at hrun
      rw [htaken, List.reverse_cons, List.append_assoc, List.singleton_append] at hbuild
      refine ⟨s :: steps, o, v, ?_, ?_, ?_⟩
      · rw [runFrom, hmove]
        exact hrun
      · rw [buildFrom, hturn]
        exact hbuild
      · cases hconcludes with
        | accepted hkeeps hshows =>
          obtain ⟨hkeeps', hshows'⟩ := hcompletes _ _ hkeeps hshows
          exact .accepted hkeeps' hshows'
        | rejected => exact .rejected
        | unfinished => exact .unfinished

theorem Concludes.ne_stuck {steps : List Step} {v : Verdict} (h : Concludes d places steps o v) : v ≠ .stuck := by
  cases h <;> exact Verdict.noConfusion

theorem build_concludes (P : Parser) (tokens : List Token) : (P.build tokens).steps = (P.run tokens).steps ∧
    Concludes (.start P.grammar.start) [0] (P.run tokens).steps (P.run tokens).outcome (P.build tokens).verdict := by
  obtain ⟨steps, o, v, hrun, hbuild, hconcludes⟩ :=
    buildFrom_concludes (P := P) (P.stepBound tokens.length) (P.parallel_starting tokens)
  have hsteps : (P.run tokens) = ⟨steps, o⟩ := hrun
  have hreport : (P.build tokens) = ⟨steps, v⟩ := hbuild
  rw [hsteps, hreport]
  exact ⟨rfl, hconcludes⟩

/-- The tree that is built is the one that the steps tell. -/
theorem parseTree_eq (P : Parser) (tokens : List Token) : P.parseTree tokens = (P.run tokens).tree := by
  obtain ⟨-, hconcludes⟩ := P.build_concludes tokens
  rw [parseTree, Run.tree]
  generalize (P.run tokens).outcome = o, (P.build tokens).verdict = v at hconcludes
  cases hconcludes with
  | accepted hkeeps hshows =>
    cases hF : forest (P.run tokens).steps with
    | nil =>
      rw [hF] at hshows
      cases hshows
    | cons T F =>
      rw [hF] at hshows
      obtain ⟨hroot, -⟩ := List.forall₂_cons.mp hshows
      have htree : Draft.root _ = some T := hroot _ (Nat.le_refl _)
      simp only [Verdict.tree, htree]
  | rejected => rfl
  | unfinished => rfl

end Parser
end Lookahead
