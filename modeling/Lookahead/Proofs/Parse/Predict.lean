import Lookahead.Parse.Parser
import Lookahead.Proofs.Grammar.Analysis

/-! Parsers as they are made from an analysis, and what they predict. -/
namespace Lookahead
namespace Parser

/-- The parser uses the table of a grammar without defects, and the table has no conflicts. Nothing is
asked of the terminals of its tokens or of its generic operator. -/
structure Valid (P : Parser) : Prop where
  defects_eq : P.grammar.defects = []
  analyzed : ∃ a, P.grammar.analyze = .ok a ∧ a.table = P.table
  conflicts_eq : P.table.conflicts = []

theorem Valid.decides {P : Parser} (h : P.Valid) : P.grammar.Decides P.table := by
  obtain ⟨a, ha, htable⟩ := h.analyzed
  rw [← htable]
  exact Grammar.decides_of_analyze ha (by rw [htable, h.conflicts_eq])

/-- The analysis of a grammar without defects returns, and a table without conflicts makes valid parsers. -/
theorem exists_valid {g : Grammar} (hg : g.defects = []) :
    ∃ a, g.analyze = .ok a ∧ (a.table.conflicts = [] → ∀ terminalOf operator,
      a.table.parser terminalOf operator = .ok ⟨a.table, terminalOf, operator⟩ ∧ a.table.grammar = g ∧
        (Parser.mk a.table terminalOf operator).Valid) := by
  obtain ⟨a, ha, hdecides⟩ := Grammar.analyze_decides hg
  refine ⟨a, ha, fun hc terminalOf operator => ?_⟩
  have hgrammar : (Parser.mk a.table terminalOf operator).grammar = g := (hdecides hc).grammar_eq
  refine ⟨?_, hgrammar, ⟨?_, ⟨a, ?_, rfl⟩, hc⟩⟩
  · simp [Table.parser, Table.requireLL1, Table.isLL1, hc, Except.map]
  · rw [hgrammar, hg]
  · rw [hgrammar, ha]

variable {P : Parser} {p : Production} {s t : String}

/-! ## Predictions -/

theorem predict_of_predicts (h : P.grammar.Decides P.table) (hp : p ∈ P.grammar.productions)
    (ht : P.grammar.Predicts p t) : P.predict p.lhs t = some p := by
  unfold predict
  rw [(h.get?_eq_some p.lhs t p).mpr ⟨hp, rfl, ht⟩]

/-- A prediction is for the lookahead, or else for the operator in place of one that predicts nothing. -/
theorem predict_cases (h : P.grammar.Decides P.table) (hp : P.predict s t = some p) :
    p ∈ P.grammar.productions ∧ p.lhs = s ∧
      (P.grammar.Predicts p t ∨ (t ∈ P.grammar.operators ∧ P.grammar.Predicts p P.operator ∧
        ∀ q ∈ P.grammar.productions, q.lhs = s → ¬ P.grammar.Predicts q t)) := by
  unfold predict at hp
  split at hp
  · rename_i hq
    cases hp
    obtain ⟨hmem, hlhs, hx⟩ := (h.get?_eq_some s t p).mp hq
    exact ⟨hmem, hlhs, Or.inl hx⟩
  · rename_i hnone
    split at hp
    · rename_i hop
      obtain ⟨hmem, hlhs, hx⟩ := (h.get?_eq_some s P.operator p).mp hp
      refine ⟨hmem, hlhs, Or.inr ⟨hop, hx, fun q hq hqs hqt => ?_⟩⟩
      have hcell := (h.get?_eq_some s t q).mpr ⟨hq, hqs, hqt⟩
      rw [hnone] at hcell
      cases hcell
    · cases hp

theorem mem_nonterminals_of_predict (h : P.grammar.Decides P.table) (hp : P.predict s t = some p) :
    s ∈ P.grammar.nonterminals := by
  obtain ⟨hmem, hlhs, -⟩ := predict_cases h hp
  exact hlhs ▸ h.wellFormed.lhs_mem p hmem

/-! ## A grammar of sums -/

/-- Sums of any operators, with a left-recursive nonterminal that derives nothing and is never reached. -/
def sums : Grammar :=
  .ofRules "S" [("S", ["a", "T"]), ("T", ["op", "a", "T"]), ("T", [epsilon]), ("L", ["L", "a"])] ["a", "op", "+"] ["+"]

def named (lexeme : String) : Token := ⟨.other lexeme, lexeme, none, ⟨"", 1, 1, 0⟩⟩

theorem sums_marksReserved : sums.MarksReserved := by decide +kernel

theorem exists_sums : ∃ a, sums.analyze = .ok a ∧ a.table.grammar = sums ∧
    ∀ terminalOf operator, (Parser.mk a.table terminalOf operator).Valid := by
  obtain ⟨a, ha, hparser⟩ := exists_valid (g := sums) (by decide +kernel)
  have hconflicts : (sums.analyze.toOption.map fun a => a.table.conflicts) = some [] := by decide +kernel
  rw [ha] at hconflicts
  have hvalid := hparser (Option.some.inj hconflicts)
  exact ⟨a, ha, (hvalid Token.lexeme "op").2.1, fun terminalOf operator => (hvalid terminalOf operator).2.2⟩

end Parser
end Lookahead
