import Lookahead.Proofs.Parse.Whole

/-! The generic operator as one name for all operators. Where productions name no operator but the generic one, a
parser makes the same moves whether its tokens stand for their operators or for the generic one: only the
lookaheads that are shown differ. -/
namespace Lookahead

/-! ## Other names for lookaheads -/

def Step.recast (f : String → String) (s : Step) : Step := { s with lookahead := f s.lookahead }

def SyntaxFault.recast (f : String → String) : SyntaxFault → SyntaxFault
  | terminalMismatch expected found => terminalMismatch expected (f found)
  | noProduction nonterminal lookahead expected => noProduction nonterminal (f lookahead) expected
  | trailingInput => trailingInput
  | unexpectedEof expected => unexpectedEof expected

def ParseError.recast (f : String → String) (e : ParseError) : ParseError := { e with fault := e.fault.recast f }

def Outcome.recast (f : String → String) : Outcome → Outcome
  | accepted => accepted
  | rejected e => rejected (e.recast f)
  | unfinished => unfinished

def Run.recast (f : String → String) (r : Run) : Run := ⟨r.steps.map (Step.recast f), r.outcome.recast f⟩

def Parser.Move.recast (f : String → String) : Parser.Move → Parser.Move
  | proceed s next => proceed (s.recast f) next
  | halt s outcome => halt (s.map (Step.recast f)) (outcome.recast f)

theorem SyntaxFault.kind_recast (f : String → String) (e : SyntaxFault) : (e.recast f).kind = e.kind := by
  cases e <;> rfl

/-- No tree shows a lookahead. -/
theorem Tree.forest_recast (f : String → String) (steps : List Step) :
    forest (steps.map (Step.recast f)) = forest steps := by
  induction steps with
  | nil => rfl
  | cons s steps ih =>
    rw [List.map_cons, forest_cons, ih]
    rfl

theorem Run.tree_recast (f : String → String) {r : Run} {T : Tree} (hT : r.tree = .ok T) :
    (r.recast f).tree = .ok T := by
  obtain ⟨steps, o⟩ := r
  cases o with
  | accepted =>
    rw [← hT]
    simp only [Run.recast, Run.tree, Outcome.recast, Tree.forest_recast]
  | rejected e => cases hT
  | unfinished => cases hT

/-! ## Symbols that come up in productions -/

namespace Grammar
variable {g : Grammar} {p : Production} {s t : String}

theorem Starts.eq_or_mem (h : g.Starts t s) : t = s ∨ ∃ p ∈ g.productions, t ∈ p.rhs := by
  induction h with
  | terminal _ _ => exact Or.inl rfl
  | @production p α β s hp hb _ _ ih =>
    rcases ih with rfl | ih
    · have hmem : t ∈ p.body := hb ▸ List.mem_append_right α List.mem_cons_self
      exact Or.inr ⟨p, hp, WellFormed.mem_rhs_of_mem_body hmem⟩
    · exact Or.inr ih

theorem Heads.mem_or_mem {l : List String} (h : g.Heads t l) : t ∈ l ∨ ∃ p ∈ g.productions, t ∈ p.rhs := by
  obtain ⟨α, s, β, rfl, -, hs⟩ := h
  rcases hs.eq_or_mem with rfl | hs
  · exact Or.inl (List.mem_append_right α List.mem_cons_self)
  · exact Or.inr hs

theorem Follows.eq_or_mem (h : g.Follows t s) : t = endMarker ∨ ∃ p ∈ g.productions, t ∈ p.rhs := by
  induction h with
  | finish ht => exact Or.inl ht
  | @next p α β s hp hrhs _ hβ =>
    rcases hβ.mem_or_mem with ht | ht
    · exact Or.inr ⟨p, hp, hrhs ▸ List.mem_append_right α (List.mem_cons_of_mem s ht)⟩
    · exact Or.inr ht
  | inherit _ _ _ _ _ ih => exact ih

/-- A lookahead that calls for a production ends the input or is named by some production. -/
theorem Predicts.eq_or_mem (hp : p ∈ g.productions) (h : g.Predicts p t) :
    t = endMarker ∨ ∃ q ∈ g.productions, t ∈ q.rhs := by
  rcases h with hheads | ⟨-, hfollows⟩
  · rcases hheads.mem_or_mem with hb | hq
    · exact Or.inr ⟨p, hp, WellFormed.mem_rhs_of_mem_body hb⟩
    · exact Or.inr hq
  · exact hfollows.eq_or_mem

end Grammar

namespace Parser
variable {P : Parser} {c d : Config} {steps : List Step} {o : Outcome} {s t : String}

/-- The generic operator in place of every operator. -/
def general (P : Parser) (t : String) : String := if t ∈ P.grammar.operators then P.operator else t

/-- The parser for whose tokens every operator is the generic one. -/
def collapse (P : Parser) : Parser := { P with terminalOf := fun k => P.general (P.terminalOf k) }

/-- Neither the generic operator nor an operator ends the input, and productions name no operator but the
generic one. -/
structure Generic (P : Parser) : Prop where
  operator_ne : P.operator ≠ endMarker
  marker_not_mem : endMarker ∉ P.grammar.operators
  not_mem_rhs : ∀ t ∈ P.grammar.operators, t ≠ P.operator → ∀ p ∈ P.grammar.productions, t ∉ p.rhs

/-! ## Lookaheads -/

theorem general_of_mem (ht : t ∈ P.grammar.operators) : P.general t = P.operator := if_pos ht

theorem general_of_not_mem (ht : t ∉ P.grammar.operators) : P.general t = t := if_neg ht

theorem general_eq_endMarker (hG : P.Generic) : P.general t = endMarker ↔ t = endMarker := by
  by_cases ht : t ∈ P.grammar.operators
  · rw [general_of_mem ht]
    exact iff_of_false hG.operator_ne fun h => hG.marker_not_mem (h ▸ ht)
  · rw [general_of_not_mem ht]

/-- An operator that no production names has no cell of its own. -/
theorem get?_of_operator (h : P.grammar.Decides P.table) (hG : P.Generic) (ht : t ∈ P.grammar.operators)
    (hne : t ≠ P.operator) : P.table.get? s t = none := by
  rw [Option.eq_none_iff_forall_ne_some]
  intro p hp
  obtain ⟨hmem, -, hpredicts⟩ := (h.get?_eq_some s t p).mp hp
  rcases hpredicts.eq_or_mem hmem with rfl | ⟨q, hq, htq⟩
  · exact hG.marker_not_mem ht
  · exact hG.not_mem_rhs t ht hne q hq htq

theorem predict_operator : P.predict s P.operator = P.table.get? s P.operator := by
  unfold predict
  cases P.table.get? s P.operator with
  | none => exact ite_self none
  | some p => rfl

theorem predict_general (h : P.grammar.Decides P.table) (hG : P.Generic) :
    P.predict s (P.general t) = P.predict s t := by
  by_cases ht : t ∈ P.grammar.operators
  · rw [general_of_mem ht]
    by_cases hne : t = P.operator
    · rw [hne]
    · -- The operator has no cell, so the parser looks under the generic one itself.
      rw [predict_operator, predict, get?_of_operator h hG ht hne]
      exact (if_pos ht).symm
  · rw [general_of_not_mem ht]

theorem admits_general (hs : s ∈ P.grammar.operators → s = P.operator) :
    P.admits s (P.general t) = P.admits s t := by
  by_cases ht : t ∈ P.grammar.operators
  · rw [general_of_mem ht, Bool.eq_iff_iff]
    have hst : s = t → s = P.operator := fun h => hs (h ▸ ht)
    simp only [admits, Bool.or_eq_true, Bool.and_eq_true, decide_eq_true_eq]
    tauto
  · rw [general_of_not_mem ht]

/-! ## Moves and runs -/

/-- The terminals on the stack are no operators but the generic one. -/
def Plain (P : Parser) (c : Config) : Prop :=
  ∀ s ∈ c.stack, s ∉ P.grammar.nonterminals → s ∈ P.grammar.operators → s = P.operator

theorem Plain.initial (h : P.grammar.Decides P.table) (hG : P.Generic) (tokens : List Token) :
    P.Plain (P.initial tokens) := by
  refine List.forall_mem_cons.mpr ⟨fun hn => absurd h.wellFormed.start_mem hn, List.forall_mem_singleton.mpr ?_⟩
  exact fun _ hmem => absurd hmem hG.marker_not_mem

theorem Plain.next (h : P.grammar.Decides P.table) (hG : P.Generic) {r : Step} (hc : P.Plain c)
    (hmove : P.move c = .proceed r d) : P.Plain d := by
  have heff := P.move_effect c
  rw [hmove] at heff
  cases heff with
  | @expand _ _ _ _ _ _ p htop hn hp =>
    refine List.forall_mem_append.mpr ⟨fun s hs _ hop => ?_, (List.forall_mem_cons.mp hc).2⟩
    by_contra hne
    exact hG.not_mem_rhs s hop hne p (predict_cases h hp).1 (Grammar.WellFormed.mem_rhs_of_mem_body hs)
  | matched htop hn hadmits => exact (List.forall_mem_cons.mp hc).2

theorem move_collapse (h : P.grammar.Decides P.table) (hG : P.Generic) (hc : P.Plain c) :
    P.collapse.move c = (P.move c).recast P.general := by
  apply move_eq_of_effect
  have heff := P.move_effect c
  generalize P.move c = m at heff
  have hend : ∀ k, P.collapse.terminalOf k = endMarker ↔ P.terminalOf k = endMarker := fun k =>
    general_eq_endMarker hG
  -- Every condition that the move depends on is the same for both lookaheads.
  cases heff with
  | noStack => exact .noStack
  | noToken => exact .noToken
  | trailing hk => exact .trailing fun hk' => hk ((hend _).mp hk')
  | extra hk => exact .extra ((hend _).mpr hk)
  | accept hk => exact .accept ((hend _).mpr hk)
  | noProduction htop hn hp => exact .noProduction htop hn ((predict_general h hG).trans hp)
  | expand htop hn hp => exact .expand htop hn ((predict_general h hG).trans hp)
  | matched htop hn hadmits =>
    exact .matched htop hn ((admits_general (hc _ List.mem_cons_self hn)).trans hadmits)
  | mismatch htop hn hadmits =>
    exact .mismatch htop hn ((admits_general (hc _ List.mem_cons_self hn)).trans hadmits)

theorem Runs.collapse (h : P.grammar.Decides P.table) (hG : P.Generic) (hruns : P.Runs c steps o) (hc : P.Plain c) :
    P.collapse.Runs c (steps.map (Step.recast P.general)) (o.recast P.general) := by
  induction hruns with
  | @halt c s o hmove =>
    have hmove' := move_collapse h hG hc
    rw [hmove] at hmove'
    cases s <;> exact .halt hmove'
  | @proceed c d s steps o hmove _ ih =>
    have hmove' := move_collapse h hG hc
    rw [hmove] at hmove'
    exact .proceed hmove' (ih (hc.next h hG hmove))

theorem run_collapse (h : P.grammar.Decides P.table) (hG : P.Generic) (tokens : List Token) :
    P.collapse.run tokens = (P.run tokens).recast P.general := by
  have hruns : P.collapse.Runs (P.initial tokens) _ _ := runs_run (P := P.collapse) h tokens
  obtain ⟨hsteps, ho⟩ := hruns.unique ((runs_run h tokens).collapse h hG (.initial h hG tokens))
  rw [Run.recast, ← hsteps, ← ho]

/-! ## Trees and errors -/

/-- A parser returns the same tree, or an error of the same kind at the same token, if the tokens that stand for
operators stand for the generic one instead. -/
theorem parseTree_collapse (P : Parser) (hP : P.Valid) (hG : P.Generic) (tokens : List Token) :
    (∃ T, P.parseTree tokens = .ok T ∧ P.collapse.parseTree tokens = .ok T) ∨
      ∃ e e', P.parseTree tokens = .error (.syntaxError e) ∧ P.collapse.parseTree tokens = .error (.syntaxError e') ∧
        e'.fault.kind = e.fault.kind ∧ e'.position = e.position ∧ e'.token = e.token := by
  have hrun := run_collapse hP.decides hG tokens
  rcases parseTree_cases hP.decides tokens with ⟨T, hT⟩ | ⟨e, ho, he⟩
  · refine Or.inl ⟨T, hT, ?_⟩
    rw [parseTree_eq, hrun]
    exact Run.tree_recast P.general ((P.parseTree_eq tokens).symm.trans hT)
  · refine Or.inr ⟨e, e.recast P.general, he, ?_, e.fault.kind_recast P.general, rfl, rfl⟩
    rw [parseTree_eq, hrun, Run.recast, ho]
    rfl

theorem sums_generic (hgrammar : P.grammar = sums) (hop : P.operator = "op") : P.Generic := by
  refine ⟨?_, ?_, ?_⟩
  · rw [hop]
    decide
  · rw [hgrammar]
    decide +kernel
  · rw [hgrammar, hop]
    have h : ∀ t ∈ sums.operators.toList, t ≠ "op" → ∀ p ∈ sums.productions, t ∉ p.rhs := by decide +kernel
    exact fun t ht => h t (NameSet.mem_toList.mpr ht)

theorem parseTree_collapse_sums : ∃ (P : Parser) (T : Tree), P.grammar = sums ∧ P.Valid ∧ P.Generic ∧
    P.parseTree (["a", "+", "a", "$"].map named) = .ok T ∧
      P.collapse.parseTree (["a", "+", "a", "$"].map named) = .ok T := by
  obtain ⟨P, T, hgrammar, hop, hP, hT⟩ := exists_sums_tree
  have hG := sums_generic hgrammar hop
  rcases parseTree_collapse P hP hG (["a", "+", "a", "$"].map named) with ⟨T', hT', hcollapse⟩ | ⟨e, -, he, -⟩
  · exact ⟨P, T', hgrammar, hP, hG, hT', hcollapse⟩
  · rw [hT] at he
    cases he

end Parser
end Lookahead
