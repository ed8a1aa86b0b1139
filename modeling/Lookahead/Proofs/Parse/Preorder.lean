import Lookahead.Proofs.Parse.Soundness

/-! The steps of a run that accepts are the nodes of its tree, one by one: every step but the last makes the
next node in pre-order. Acceptance makes bare nodes of the symbols that it leaves over the bottom of the
stack. -/
namespace Lookahead
namespace Tree

@[simp] theorem symbol_node (s : String) (p : Option Int) (k : Option Token) (cs : List Tree) :
    (node s p k cs).symbol = s := rfl

@[simp] theorem symbol_leaf (s : String) (k : Token) : (leaf s k).symbol = s := rfl

@[simp] theorem subtrees_leaf (s : String) (k : Token) : (leaf s k).subtrees = [leaf s k] := by
  rw [leaf, subtrees_node, List.flatMap_nil]

@[simp] theorem subtrees_bare (s : String) : (bare s).subtrees = [bare s] := by
  rw [bare, subtrees_node, List.flatMap_nil]

theorem flatMap_subtrees_bare (l : List String) : (l.map bare).flatMap subtrees = l.map bare := by
  rw [List.flatMap_map]
  induction l with
  | nil => rfl
  | cons s l ih => rw [List.flatMap_cons, ih, subtrees_bare, List.map_cons, List.singleton_append]

end Tree

namespace Parser
open Lookahead.Tree
variable {P : Parser} {c : Config} {steps : List Step} {o : Outcome} {σ : List String}

/-- The node for the top of the stack: an inner node for the production, or a leaf with the token. -/
inductive Makes (P : Parser) : Step → Tree → Prop
  | expand {i p top below t k x cs} : top ∈ P.grammar.nonterminals →
      Makes P ⟨i, .expand p, top :: below, t, k, x⟩ (node top (some p.id) none cs)
  | matched {i top below t k x} : top ∉ P.grammar.nonterminals →
      Makes P ⟨i, .matched, top :: below, t, k, x⟩ (leaf top x)

/-- The trees of a run that accepts stand for the symbols on its stack. -/
theorem Runs.forest_symbols (hruns : P.Runs c steps o) (ho : o = .accepted) (hstack : c.stack = σ ++ [endMarker]) :
    (forest steps).map symbol = σ := by
  induction hruns generalizing σ with
  | @halt c s o hmove =>
    have heff := P.move_effect c
    rw [hmove, ho] at heff
    cases heff with
    | accept hend =>
      have hleft : ((σ ++ [endMarker]).dropLast.map bare).map symbol = σ := by
        rw [List.dropLast_concat, List.map_map]
        exact List.map_id σ
      rwa [← hstack] at hleft
  | @proceed c d s steps o hmove hruns ih =>
    have heff := P.move_effect c
    rw [hmove] at heff
    cases heff with
    | expand htop hn hp =>
      obtain ⟨τ, rfl, rfl⟩ := exists_of_cons_eq htop hstack
      have hsymbols := ih ho (List.append_assoc _ _ _).symm
      rw [forest_cons, grow, List.map_cons, List.map_drop, hsymbols, List.drop_left, symbol]
    | matched htop hn hadmits =>
      obtain ⟨τ, rfl, rfl⟩ := exists_of_cons_eq htop hstack
      rw [forest_cons, grow, List.map_cons, ih ho rfl, leaf, symbol]

/-- The induction is on the moves: what an expansion puts under its node was there before, in the same order. -/
theorem Runs.nodes (hruns : P.Runs c steps o) (ho : o = .accepted) :
    ∃ front last made, steps = front ++ [last] ∧ last.action = .accept ∧ List.Forall₂ P.Makes front made ∧
      (forest steps).flatMap subtrees = made ++ last.stack.dropLast.map bare := by
  induction hruns with
  | @halt c s o hmove =>
    have heff := P.move_effect c
    rw [hmove, ho] at heff
    cases heff with
    | accept hend => exact ⟨[], _, [], rfl, rfl, .nil, flatMap_subtrees_bare _⟩
  | @proceed c d s steps o hmove hruns ih =>
    obtain ⟨front, last, made, rfl, hlast, hmade, hforest⟩ := ih ho
    have heff := P.move_effect c
    rw [hmove] at heff
    cases heff with
    | @expand _ _ top _ _ _ p htop hn hp =>
      -- The first trees go under the new node and the others stay beside it, so the order is the same.
      let below := (forest (front ++ [last])).take p.body.length
      refine ⟨_ :: front, last, node top (some p.id) none below :: made, rfl, hlast, .cons (.expand hn) hmade, ?_⟩
      rw [forest_cons, grow, List.flatMap_cons, subtrees_node, List.cons_append, ← List.flatMap_append,
        List.take_append_drop, hforest, List.cons_append]
    | matched htop hn hadmits =>
      refine ⟨_ :: front, last, _ :: made, rfl, hlast, .cons (.matched hn) hmade, ?_⟩
      rw [forest_cons, grow, List.flatMap_cons, subtrees_leaf, hforest, List.singleton_append, List.cons_append]

/-- A run of a parser over a table that decides its grammar returns a tree, or the error that rejects it. -/
theorem parseTree_cases (h : P.grammar.Decides P.table) (tokens : List Token) :
    (∃ T, P.parseTree tokens = .ok T) ∨
      ∃ e, (P.run tokens).outcome = .rejected e ∧ P.parseTree tokens = .error (.syntaxError e) := by
  have hruns := runs_run h tokens
  cases ho : (P.run tokens).outcome with
  | accepted =>
    have hsymbols := hruns.forest_symbols ho (σ := [P.grammar.start]) rfl
    obtain ⟨T, F, hF, -⟩ := List.map_eq_cons_iff.mp hsymbols
    exact Or.inl ⟨T, parseTree_eq_ok.mpr ⟨ho, F, hF⟩⟩
  | rejected e => exact Or.inr ⟨e, rfl, by rw [parseTree_eq, Run.tree, ho]⟩
  | unfinished => exact absurd ho hruns.ne_unfinished

end Parser
end Lookahead
