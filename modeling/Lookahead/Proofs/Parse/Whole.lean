import Lookahead.Proofs.Parse.Preorder

/-! Which trees that a parser returns are whole, with every nonterminal expanded and every other node matched. A
parser accepts as soon as an end marker on top of its stack meets the end of the input. Whatever is still over
the end marker at the bottom is left in the tree as bare nodes. So a grammar in which the end marker is not
used as a symbol has whole trees only. -/
namespace Lookahead

namespace Tree

/-- Expanded by a production if it is a nonterminal, and matched by a token otherwise. -/
def Finished (g : Grammar) (t : Tree) : Prop :=
  (t.symbol ∈ g.nonterminals → t.production.isSome) ∧ (t.symbol ∉ g.nonterminals → t.token.isSome)

instance (g : Grammar) (t : Tree) : Decidable (t.Finished g) :=
  inferInstanceAs (Decidable ((t.symbol ∈ g.nonterminals → t.production.isSome) ∧
    (t.symbol ∉ g.nonterminals → t.token.isSome)))

def Whole (g : Grammar) (t : Tree) : Prop := ∀ u ∈ t.subtrees, u.Finished g

instance (g : Grammar) (t : Tree) : Decidable (t.Whole g) :=
  inferInstanceAs (Decidable (∀ u ∈ t.subtrees, u.Finished g))

/-- Neither expanded nor matched. -/
def untouched (t : Tree) : Bool := t.production.isNone && t.token.isNone

theorem not_finished_bare (g : Grammar) (s : String) : ¬ (bare s).Finished g := by
  rintro ⟨hproduction, htoken⟩
  by_cases hs : s ∈ g.nonterminals
  · exact Bool.false_ne_true (hproduction hs)
  · exact Bool.false_ne_true (htoken hs)

end Tree

/-- The start symbol is not the end marker, and no production has it on its right. -/
def Grammar.MarkerUnused (g : Grammar) : Prop := g.start ≠ endMarker ∧ ∀ p ∈ g.productions, endMarker ∉ p.rhs

instance (g : Grammar) : Decidable g.MarkerUnused :=
  inferInstanceAs (Decidable (g.start ≠ endMarker ∧ ∀ p ∈ g.productions, endMarker ∉ p.rhs))

theorem Grammar.MarksReserved.markerUnused {g : Grammar} (hg : g.WellFormed) (hm : g.MarksReserved) :
    g.MarkerUnused := by
  refine ⟨fun h => hm.marker_not_nonterminal (h ▸ hg.start_mem), fun p hp hmem => ?_⟩
  rcases hg.rhs_declared p hp endMarker hmem with ht | hn | hε
  · exact hm.marker_not_terminal ht
  · exact hm.marker_not_nonterminal hn
  · exact absurd hε (by decide)

namespace Parser
open Lookahead.Tree
variable {P : Parser}

/-! ## Nodes made by steps, and bare nodes -/

section Nodes
variable {s : Step} {front : List Step} {u : Tree} {made : List Tree} {left : List String}

theorem Makes.touched (h : P.Makes s u) : u.untouched = false := by
  cases h <;> rfl

theorem Makes.finished (h : P.Makes s u) : u.Finished P.grammar := by
  cases h with
  | expand hn => exact ⟨fun _ => rfl, fun hs => absurd hn hs⟩
  | matched hn => exact ⟨fun hs => absurd hs hn, fun _ => rfl⟩

theorem finished_of_makes (h : List.Forall₂ P.Makes front made) :
    ∀ u ∈ made, u.untouched = false ∧ u.Finished P.grammar := by
  induction h with
  | nil => exact fun u hu => absurd hu List.not_mem_nil
  | cons hmakes _ ih => exact List.forall_mem_cons.mpr ⟨⟨hmakes.touched, hmakes.finished⟩, ih⟩

theorem filter_untouched (h : List.Forall₂ P.Makes front made) :
    (made ++ left.map bare).filter untouched = left.map bare := by
  have hmade : made.filter untouched = [] := by
    rw [List.filter_eq_nil_iff]
    intro u hu
    rw [(finished_of_makes h u hu).1]
    exact Bool.false_ne_true
  have hleft : (left.map bare).filter untouched = left.map bare := by
    rw [List.filter_eq_self]
    intro u hu
    obtain ⟨x, -, rfl⟩ := List.mem_map.mp hu
    rfl
  rw [List.filter_append, hmade, hleft, List.nil_append]

theorem whole_iff {T : Tree} (h : List.Forall₂ P.Makes front made) (hT : T.subtrees = made ++ left.map bare) :
    T.Whole P.grammar ↔ left = [] := by
  rw [Whole, hT, List.forall_mem_append]
  constructor
  · rintro ⟨-, hbare⟩
    rw [List.eq_nil_iff_forall_not_mem]
    intro x hx
    exact not_finished_bare P.grammar x (hbare (bare x) (List.mem_map_of_mem hx))
  · rintro rfl
    exact ⟨fun u hu => (finished_of_makes h u hu).2, fun u hu => absurd hu List.not_mem_nil⟩

end Nodes

/-! ## The stack at acceptance -/

section Stack
variable {c d : Config} {s : Step} {steps : List Step} {o : Outcome}

theorem config_of_accept (hmove : (P.move c).step? = some s) (hs : s.action = .accept) :
    c.rest = [s.token] ∧ ∃ below, s.stack = endMarker :: below := by
  have heff := P.move_effect c
  generalize P.move c = m at hmove heff
  cases heff <;> cases hmove <;> first | exact ⟨rfl, _, rfl⟩ | exact Action.noConfusion hs

theorem dropLast_stack_eq_nil (hmove : (P.move c).step? = some s) (hs : s.action = .accept) :
    s.stack.dropLast = [] ↔ s.stack = [endMarker] := by
  obtain ⟨-, below, hbelow⟩ := config_of_accept hmove hs
  rw [hbelow]
  cases below with
  | nil => exact iff_of_true rfl rfl
  | cons x below => simp

/-- The end marker is at the bottom of the stack and nowhere else. -/
def Marked (c : Config) : Prop := ∃ σ, c.stack = σ ++ [endMarker] ∧ endMarker ∉ σ

theorem Marked.initial (hu : P.grammar.MarkerUnused) (tokens : List Token) : Marked (P.initial tokens) :=
  ⟨[P.grammar.start], rfl, fun h => hu.1 (List.mem_singleton.mp h).symm⟩

theorem Marked.next (h : P.grammar.Decides P.table) (hu : P.grammar.MarkerUnused) (hc : Marked c)
    (hmove : P.move c = .proceed s d) : Marked d := by
  obtain ⟨σ, hσ, hfree⟩ := hc
  have heff := P.move_effect c
  rw [hmove] at heff
  cases heff with
  | @expand _ _ _ _ _ _ p htop hn hp =>
    obtain ⟨τ, rfl, rfl⟩ := exists_of_cons_eq htop hσ
    refine ⟨p.body ++ τ, (List.append_assoc _ _ _).symm, fun hmem => ?_⟩
    rcases List.mem_append.mp hmem with hb | hτ
    · exact hu.2 p (predict_cases h hp).1 (Grammar.WellFormed.mem_rhs_of_mem_body hb)
    · exact hfree (List.mem_cons_of_mem _ hτ)
  | matched htop hn hadmits =>
    obtain ⟨τ, rfl, rfl⟩ := exists_of_cons_eq htop hσ
    exact ⟨τ, rfl, fun hτ => hfree (List.mem_cons_of_mem _ hτ)⟩

theorem Runs.stack_of_accept (hruns : P.Runs c steps o) (h : P.grammar.Decides P.table)
    (hu : P.grammar.MarkerUnused) (hc : Marked c) (hs : s ∈ steps) (haccept : s.action = .accept) :
    s.stack = [endMarker] := by
  obtain ⟨d, ⟨σ, hσ, hfree⟩, hmove⟩ :=
    hruns.exists_config hc (fun _ _ _ hc hmove => hc.next h hu hmove) s hs
  obtain ⟨-, below, hbelow⟩ := config_of_accept hmove haccept
  -- The marker on top can only be the one at the bottom.
  rw [← (takenAt_of_move hmove).stack_eq, hbelow] at hσ
  rw [hbelow, (eq_nil_of_cons_eq hfree hσ).2]

end Stack

/-! ## The tree that is returned -/

theorem exists_made {tokens : List Token} {T : Tree} (h : P.grammar.Decides P.table)
    (hT : P.parseTree tokens = .ok T) :
    ∃ front last made, (P.run tokens).steps = front ++ [last] ∧ last.action = .accept ∧
      List.Forall₂ P.Makes front made ∧ T.subtrees = made ++ last.stack.dropLast.map bare := by
  obtain ⟨ho, F, hF⟩ := parseTree_eq_ok.mp hT
  have hruns := runs_run h tokens
  have hsymbols := hruns.forest_symbols ho (σ := [P.grammar.start]) rfl
  rw [hF, List.map_cons, List.cons.injEq, List.map_eq_nil_iff] at hsymbols
  obtain ⟨front, last, made, hsteps, hlast, hmade, hnodes⟩ := hruns.nodes ho
  rw [hF, hsymbols.2, List.flatMap_singleton] at hnodes
  exact ⟨front, last, made, hsteps, hlast, hmade, hnodes⟩

theorem exists_sums_tree : ∃ (P : Parser) (T : Tree), P.grammar = sums ∧ P.operator = "op" ∧ P.Valid ∧
    P.parseTree (["a", "+", "a", "$"].map named) = .ok T := by
  obtain ⟨a, ha, hgrammar, hvalid⟩ := exists_sums
  have hrun : (sums.analyze.toOption.map fun a =>
      ((Parser.mk a.table Token.lexeme "op").parseTree (["a", "+", "a", "$"].map named)).isOk) = some true := by
    decide +kernel
  rw [ha] at hrun
  have hok : ((Parser.mk a.table Token.lexeme "op").parseTree (["a", "+", "a", "$"].map named)).isOk = true :=
    Option.some.inj hrun
  cases hT : (Parser.mk a.table Token.lexeme "op").parseTree (["a", "+", "a", "$"].map named) with
  | error e =>
    rw [hT] at hok
    cases hok
  | ok T => exact ⟨⟨a.table, Token.lexeme, "op"⟩, T, hgrammar, rfl, hvalid _ _, hT⟩

/-- The nodes of a returned tree that were neither expanded nor matched are the symbols over the bottom of the
stack at acceptance. So the tree is whole if and only if there are none, as always where the grammar does
not use the end marker. -/
theorem parseTree_whole (P : Parser) (hP : P.Valid) {tokens : List Token} {T : Tree}
    (hT : P.parseTree tokens = .ok T) :
    ∃ s, (P.run tokens).steps.getLast? = some s ∧ s.action = .accept ∧
      T.subtrees.filter untouched = s.stack.dropLast.map bare ∧
      (T.Whole P.grammar ↔ s.stack = [endMarker]) ∧ (P.grammar.MarkerUnused → T.Whole P.grammar) := by
  obtain ⟨front, last, made, hsteps, hlast, hmade, hnodes⟩ := exists_made hP.decides hT
  have hmem : last ∈ (P.run tokens).steps := hsteps ▸ List.mem_append_right front List.mem_cons_self
  have hruns := runs_run hP.decides tokens
  have hiff : T.Whole P.grammar ↔ last.stack = [endMarker] := by
    obtain ⟨d, -, hmove⟩ := hruns.exists_config (I := fun _ => True) trivial (fun _ _ _ _ _ => trivial) last hmem
    exact (whole_iff hmade hnodes).trans (dropLast_stack_eq_nil hmove hlast)
  refine ⟨last, ?_, hlast, ?_, hiff, fun hu => ?_⟩
  · rw [hsteps, List.getLast?_concat]
  · rw [hnodes, filter_untouched hmade]
  · exact hiff.mpr (hruns.stack_of_accept hP.decides hu (.initial hu tokens) hmem hlast)

theorem parseTree_whole_sums : ∃ (P : Parser) (T : Tree), P.grammar = sums ∧ P.Valid ∧
    P.parseTree (["a", "+", "a", "$"].map named) = .ok T ∧ T.Whole sums := by
  obtain ⟨P, T, hgrammar, -, hP, hT⟩ := exists_sums_tree
  obtain ⟨s, -, -, -, -, hwhole⟩ := parseTree_whole P hP hT
  rw [hgrammar] at hwhole
  exact ⟨P, T, hgrammar, hP, hT, hwhole (by decide +kernel)⟩

/-- The end marker in front of another symbol. -/
def marked : Grammar := .ofRules "S" [("S", ["$", "A"]), ("A", ["a"])] ["$", "a"] []

/-- A single token for the end of the input is accepted, although nothing was matched and `A` was never
expanded. -/
theorem parseTree_marked : marked.defects = [] ∧ ∃ (P : Parser) (T : Tree), P.grammar = marked ∧ P.Valid ∧
    P.parseTree [named "$"] = .ok T ∧ (T.subtrees.filter untouched).map symbol = ["$", "A"] ∧ ¬ T.Whole marked := by
  have hdefects : marked.defects = [] := by decide +kernel
  obtain ⟨a, ha, hparser⟩ := exists_valid hdefects
  have hrun : (marked.analyze.toOption.map fun a => (a.table.conflicts,
      ((Parser.mk a.table Token.lexeme "op").parseTree [named "$"]).toOption.map fun T =>
        ((T.subtrees.filter untouched).map symbol, decide (T.Whole marked)))) =
      some ([], some (["$", "A"], false)) := by
    decide +kernel
  rw [ha] at hrun
  simp only [Except.toOption, Option.map_some, Option.some.injEq, Prod.mk.injEq] at hrun
  obtain ⟨hconflicts, htree⟩ := hrun
  obtain ⟨-, hgrammar, hP⟩ := hparser hconflicts Token.lexeme "op"
  cases hT : (Parser.mk a.table Token.lexeme "op").parseTree [named "$"] with
  | error e =>
    rw [hT] at htree
    cases htree
  | ok T =>
    rw [hT] at htree
    simp only [Option.map_some, Option.some.injEq, Prod.mk.injEq, decide_eq_false_iff_not] at htree
    exact ⟨hdefects, ⟨a.table, Token.lexeme, "op"⟩, T, hgrammar, hP, hT, htree⟩

end Parser
end Lookahead
