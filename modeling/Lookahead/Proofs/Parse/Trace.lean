import Lookahead.Proofs.Parse.Whole
import Mathlib.Data.List.Chain

/-! The steps of a run as a record of it: a leftmost derivation with its stacks and positions, from which the tree
can be read. -/
namespace Lookahead

/-- What the next step shows: the stack and the position that the action of this one leaves. Nothing comes
after acceptance or an error. -/
def Step.Leads (s t : Step) : Prop :=
  match s.action with
  | .expand p => t.position = s.position ∧ t.stack = p.body ++ s.stack.tail
  | .matched => t.position = s.position + 1 ∧ t.stack = s.stack.tail
  | .accept => False
  | .reject => False

namespace Parser
variable {P : Parser} {c d : Config} {s t : Step} {steps front : List Step} {o : Outcome} {tokens : List Token}
  {T : Tree}

/-- The steps count from zero, start from the start symbol over the end marker, show the tokens they are taken
at, and expand the symbol on top by a production for it. -/
structure Traces (P : Parser) (tokens : List Token) (steps : List Step) : Prop where
  index_eq : steps.map Step.index = List.range steps.length
  eq_nil_iff : steps = [] ↔ tokens = []
  head : ∀ s ∈ steps.head?, s.stack = [P.grammar.start, endMarker] ∧ s.position = 0
  isChain : steps.IsChain Step.Leads
  token : ∀ s ∈ steps, tokens[s.position]? = some s.token ∧ s.lookahead = P.terminalOf s.token
  production : ∀ s ∈ steps, ∀ p, s.action = .expand p → p ∈ P.grammar.productions ∧ s.stack.head? = some p.lhs

/-- The steps of a run that accepts tell its tree, in pre-order. -/
structure Tells (P : Parser) (tokens : List Token) (steps : List Step) (T : Tree) : Prop where
  expansions : (steps.filterMap fun s => s.action.production?).map (fun p => some p.id) =
    (T.subtrees.filter fun u => u.symbol ∈ P.grammar.nonterminals).map Tree.production
  matches_eq : (steps.filter fun s => s.action = .matched).map (fun s => some s.token) = T.leaves.map Tree.token
  last : ∃ front last, steps = front ++ [last] ∧ last.action = .accept ∧ (∀ s ∈ front, s.action ≠ .accept) ∧
    last.stack = [endMarker] ∧ last.position + 1 = tokens.length

/-! ## One step and the next -/

theorem Runs.head (hruns : P.Runs c steps o) : ∀ s ∈ steps.head?, P.TakenAt c s := by
  intro s hs
  cases hruns with
  | @halt _ r _ hmove =>
    rw [Option.head?_toList] at hs
    exact takenAt_of_move (by rw [hmove]; exact hs)
  | proceed hmove _ =>
    obtain rfl := Option.some.inj hs
    exact takenAt_of_move (by rw [hmove]; rfl)

theorem leads_of_move (hmove : P.move c = .proceed s d) (ht : P.TakenAt d t) : s.Leads t := by
  have heff := P.move_effect c
  rw [hmove] at heff
  cases heff with
  | expand htop hn hp => exact ⟨ht.position_eq, ht.stack_eq⟩
  | matched htop hn hadmits => exact ⟨ht.position_eq, ht.stack_eq⟩

theorem Runs.isChain (hruns : P.Runs c steps o) : steps.IsChain Step.Leads := by
  induction hruns with
  | @halt c s o hmove => cases s <;> simp
  | proceed hmove hruns ih =>
    rw [List.isChain_cons]
    exact ⟨fun t ht => leads_of_move hmove (hruns.head t ht), ih⟩

theorem index_of_move (hmove : P.move c = .proceed s d) : s.index = c.index ∧ d.index = c.index + 1 := by
  have heff := P.move_effect c
  rw [hmove] at heff
  cases heff <;> exact ⟨rfl, rfl⟩

theorem Runs.map_index (hruns : P.Runs c steps o) : steps.map Step.index = List.range' c.index steps.length := by
  induction hruns with
  | @halt c s o hmove =>
    cases s with
    | none => rfl
    | some s =>
      have hindex := (takenAt_of_move (P := P) (c := c) (s := s) (by rw [hmove]; rfl)).index_eq
      simp [hindex]
  | proceed hmove _ ih =>
    obtain ⟨hs, hd⟩ := index_of_move hmove
    rw [List.map_cons, ih, hs, hd, List.length_cons, List.range'_succ]

/-- A run takes a step at once unless the tokens are over, or it expects that they are. -/
theorem Runs.eq_nil_iff {top : String} {below : List String} (hruns : P.Runs c steps o)
    (hstack : c.stack = top :: below) (htop : top ≠ endMarker) : steps = [] ↔ c.rest = [] := by
  cases hruns with
  | halt hmove =>
    have heff := P.move_effect c
    rw [hmove] at heff
    -- Tokens after the end of the input are refused without a step, but with the end marker on top.
    cases heff <;> simp_all
  | proceed hmove _ =>
    have heff := P.move_effect c
    rw [hmove] at heff
    cases heff <;> simp

/-! ## Tokens and productions -/

/-- The tokens still to come are the ones from the position on. -/
theorem drop_next (hc : tokens.drop c.position = c.rest) (hmove : P.move c = .proceed s d) :
    tokens.drop d.position = d.rest := by
  have heff := P.move_effect c
  rw [hmove] at heff
  cases heff with
  | expand htop hn hp => exact hc
  | matched htop hn hadmits => rw [← List.tail_drop, hc, List.tail_cons]

theorem drop_initial (P : Parser) (tokens : List Token) :
    tokens.drop (P.initial tokens).position = (P.initial tokens).rest := rfl

theorem Runs.reads (hruns : P.Runs c steps o) (hc : tokens.drop c.position = c.rest) (hs : s ∈ steps) :
    tokens[s.position]? = some s.token ∧ s.lookahead = P.terminalOf s.token ∧
      (s.action = .accept → s.position + 1 = tokens.length) := by
  obtain ⟨d, hd, hmove⟩ := hruns.exists_config hc (fun _ _ _ hc hmove => drop_next hc hmove) s hs
  have htaken := takenAt_of_move hmove
  refine ⟨?_, htaken.lookahead_eq, fun haccept => ?_⟩
  · rw [htaken.position_eq, ← List.head?_drop, hd, htaken.token_eq]
  · have hlength := congrArg List.length hd
    rw [(config_of_accept hmove haccept).1, List.length_drop, List.length_singleton] at hlength
    rw [htaken.position_eq]
    omega

theorem production_of_move (h : P.grammar.Decides P.table) (hmove : (P.move c).step? = some s) {p : Production}
    (hs : s.action = .expand p) : p ∈ P.grammar.productions ∧ s.stack.head? = some p.lhs := by
  have heff := P.move_effect c
  generalize P.move c = m at hmove heff
  cases heff <;> cases hmove <;> cases hs
  rename_i hp
  obtain ⟨hmem, hlhs, -⟩ := predict_cases h hp
  exact ⟨hmem, congrArg some hlhs.symm⟩

/-! ## Steps against nodes -/

section Nodes
variable {made : List Tree}

theorem expansions_eq (h : List.Forall₂ P.Makes front made) :
    (front.filterMap fun s => s.action.production?).map (fun p => some p.id) =
      (made.filter fun u => u.symbol ∈ P.grammar.nonterminals).map Tree.production := by
  induction h with
  | nil => rfl
  | @cons s u front made hmakes _ ih =>
    rw [List.filterMap_cons, List.filter_cons]
    cases hmakes with
    | expand hn =>
      rw [Tree.symbol_node, if_pos (decide_eq_true hn), List.map_cons, ← ih]
      rfl
    | matched hn =>
      rw [Tree.symbol_leaf, if_neg fun h => hn (of_decide_eq_true h), ← ih]
      rfl

theorem matches_eq (h : List.Forall₂ P.Makes front made) :
    (front.filter fun s => s.action = .matched).map (fun s => some s.token) =
      (made.filter Tree.isTerminal).map Tree.token := by
  induction h with
  | nil => rfl
  | @cons s u front made hmakes _ ih =>
    rw [List.filter_cons, List.filter_cons]
    cases hmakes with
    | expand hn => exact ih
    | matched hn => exact congrArg (some _ :: ·) ih

theorem ne_accept_of_makes (h : List.Forall₂ P.Makes front made) : ∀ s ∈ front, s.action ≠ .accept := by
  induction h with
  | nil => exact fun s hs => absurd hs List.not_mem_nil
  | cons hmakes _ ih =>
    refine List.forall_mem_cons.mpr ⟨?_, ih⟩
    cases hmakes <;> exact Action.noConfusion

end Nodes

/-! ## The record of a run -/

theorem traces_run (h : P.grammar.Decides P.table) (hu : P.grammar.MarkerUnused) (tokens : List Token) :
    P.Traces tokens (P.run tokens).steps := by
  have hruns := runs_run h tokens
  refine ⟨?_, hruns.eq_nil_iff rfl hu.1, fun s hs => ?_, hruns.isChain, fun s hs => ?_, fun s hs p hp => ?_⟩
  · rw [List.range_eq_range']
    exact hruns.map_index
  · exact ⟨(hruns.head s hs).stack_eq, (hruns.head s hs).position_eq⟩
  · obtain ⟨htoken, hlookahead, -⟩ := hruns.reads (P.drop_initial tokens) hs
    exact ⟨htoken, hlookahead⟩
  · obtain ⟨d, -, hmove⟩ := hruns.exists_config (I := fun _ => True) trivial (fun _ _ _ _ _ => trivial) s hs
    exact production_of_move h hmove hp

theorem tells_run (h : P.grammar.Decides P.table) (hu : P.grammar.MarkerUnused) (hT : P.parseTree tokens = .ok T) :
    P.Tells tokens (P.run tokens).steps T := by
  have hruns := runs_run h tokens
  obtain ⟨front, last, made, hsteps, hlast, hmade, hnodes⟩ := exists_made h hT
  have hmem : last ∈ (P.run tokens).steps := hsteps ▸ List.mem_append_right front List.mem_cons_self
  have hstack := hruns.stack_of_accept h hu (.initial hu tokens) hmem hlast
  have hsubtrees : T.subtrees = made := by
    rw [hnodes, hstack]
    exact List.append_nil made
  have hposition := (hruns.reads (P.drop_initial tokens) hmem).2.2 hlast
  refine ⟨?_, ?_, front, last, hsteps, hlast, ne_accept_of_makes hmade, hstack, hposition⟩
  · rw [hsubtrees, ← expansions_eq hmade, hsteps, List.filterMap_append]
    simp [hlast, Action.production?]
  · rw [Tree.leaves_eq, hsubtrees, ← matches_eq hmade, hsteps, List.filter_append]
    simp [hlast]

/-- A parser that builds a tree records a leftmost derivation step by step, with its two stacks side by side all the
time. If it accepts, its expansions and matches are the nodes and the leaves of the tree that it returns, and its last
step is the only acceptance. -/
theorem build_traced (P : Parser) (hP : P.Valid) (hm : P.grammar.MarksReserved) (tokens : List Token) :
    P.Traces tokens (P.build tokens).steps ∧ (P.build tokens).steps = (P.run tokens).steps ∧
      (P.build tokens).verdict ≠ .stuck ∧
      (∀ b, Relation.ReflTransGen P.Rounds (P.starting tokens) b → ∃ symbols places, b.Parallel symbols places) ∧
      ∀ T, P.parseTree tokens = .ok T → P.Tells tokens (P.build tokens).steps T := by
  have hu := hm.markerUnused hP.decides.wellFormed
  obtain ⟨hsteps, hconcludes⟩ := P.build_concludes tokens
  rw [hsteps]
  exact ⟨traces_run hP.decides hu tokens, rfl, hconcludes.ne_stuck, fun b hb => parallel_of_rounds hb,
    fun T hT => tells_run hP.decides hu hT⟩

theorem build_traced_sums : ∃ (P : Parser) (T : Tree), P.grammar = sums ∧ P.Valid ∧ P.grammar.MarksReserved ∧
    P.parseTree (["a", "+", "a", "$"].map named) = .ok T ∧
      P.Traces (["a", "+", "a", "$"].map named) (P.build (["a", "+", "a", "$"].map named)).steps ∧
      P.Tells (["a", "+", "a", "$"].map named) (P.build (["a", "+", "a", "$"].map named)).steps T := by
  obtain ⟨P, T, hgrammar, -, hP, hT⟩ := exists_sums_tree
  have hm : P.grammar.MarksReserved := hgrammar ▸ sums_marksReserved
  obtain ⟨htraces, -, -, -, htells⟩ := build_traced P hP hm (["a", "+", "a", "$"].map named)
  exact ⟨P, T, hgrammar, hP, hm, hT, htraces, htells T hT⟩

end Parser
end Lookahead
