import Lookahead.Pipeline
import Lookahead.Proofs.Script.Forest

/-! Tokens that the script language does not know. A token whose terminal no grammar declares is never matched, so it
is refused at its own place or before. That covers operators in no class, and kinds from outside the language unless
their names in lower case happen to be terminals: such a token is taken for one of the language. -/
namespace Lookahead

/-! ## Undeclared terminals -/

namespace Grammar
variable {g : Grammar} {σ u : List String}

/-- The words that a leftmost derivation brings to the front of declared symbols are made of terminals. -/
theorem Reaches.mem_terminals (hg : g.WellFormed) (h : g.Reaches σ u)
    (hσ : ∀ s ∈ σ, s ∈ g.terminals ∨ s ∈ g.nonterminals ∨ s = endMarker) :
    ∀ t ∈ u, t ∈ g.terminals ∨ t = endMarker := by
  induction h with
  | stop σ => exact fun t ht => absurd ht List.not_mem_nil
  | @shift s σ u hs _ ih =>
    rw [List.forall_mem_cons] at hσ
    refine List.forall_mem_cons.mpr ⟨?_, ih hσ.2⟩
    exact hσ.1.imp_right fun h => h.resolve_left hs
  | @expand p σ u hp _ ih =>
    refine ih (List.forall_mem_append.mpr ⟨fun s hs => ?_, (List.forall_mem_cons.mp hσ).2⟩)
    exact (hg.body_declared hp hs).imp_right Or.inl

end Grammar

namespace Parser
variable {P : Parser} {tokens : List Token} {k : Token} {i : ℕ}

theorem parseTree_undeclared (hP : P.Valid) (hm : P.grammar.MarksReserved) (hi : P.OperatorInert)
    (hk : tokens[i]? = some k) (hterminal : P.terminalOf k ∉ P.grammar.terminals) (hend : P.terminalOf k ≠ endMarker) :
    ∃ e, P.parseTree tokens = .error (.syntaxError e) ∧ 0 ≤ e.position ∧ e.position ≤ i := by
  have hwf := hP.decides.wellFormed
  rcases accepted_or_blames hP hm hi tokens with ⟨T, -, u, ⟨hu, -⟩, hword⟩ | ⟨e, n, he, hb⟩
  · have hmem : P.terminalOf k ∈ u ++ [endMarker] := hword ▸ List.mem_map_of_mem (List.mem_of_getElem? hk)
    rcases List.mem_append.mp hmem with hmem | hmem
    · exact absurd (hu _ hmem) hterminal
    · exact absurd (List.mem_singleton.mp hmem) hend
  · have hposition : e.position = ((0 : ℕ) : Int) + n := hb.position_eq
    refine ⟨e, he, by omega, ?_⟩
    by_contra hlt
    have hin : i < n := by omega
    have hmem : P.terminalOf k ∈ (tokens.map P.terminalOf).take n := by
      refine List.mem_of_getElem? (i := i) ?_
      rw [List.getElem?_take_of_lt hin, List.getElem?_map, hk]
      rfl
    have hstack : ∀ s ∈ [P.grammar.start, endMarker],
        s ∈ P.grammar.terminals ∨ s ∈ P.grammar.nonterminals ∨ s = endMarker := by
      refine List.forall_mem_cons.mpr ⟨Or.inr (Or.inl hwf.start_mem), List.forall_mem_singleton.mpr ?_⟩
      exact Or.inr (Or.inr rfl)
    rcases hb.reaches.mem_terminals hwf hstack _ hmem with hmem | hmem
    · exact hterminal hmem
    · exact hend hmem

/-- Which tokens are accepted depends on their terminals only. -/
theorem exists_parseTree_iff (hP : P.Valid) (hm : P.grammar.MarksReserved) (hi : P.OperatorInert)
    (tokens : List Token) : (∃ T, P.parseTree tokens = .ok T) ↔ P.ReadsSentence tokens := by
  rcases accepted_or_blames hP hm hi tokens with ⟨T, hT, hreads⟩ | ⟨e, n, he, hb⟩
  · exact iff_of_true ⟨T, hT⟩ hreads
  · refine iff_of_false ?_ (hb.not_readsSentence hP.decides.wellFormed hm)
    rintro ⟨T, hT⟩
    rw [hT] at he
    cases he

theorem exists_parseTree_set (hP : P.Valid) (hm : P.grammar.MarksReserved) (hi : P.OperatorInert)
    (hk : tokens[i]? = some k) {k' : Token} (hterminal : P.terminalOf k' = P.terminalOf k) :
    (∃ T, P.parseTree (tokens.set i k') = .ok T) ↔ ∃ T, P.parseTree tokens = .ok T := by
  have hmap : (tokens.set i k').map P.terminalOf = tokens.map P.terminalOf := by
    obtain ⟨hlt, hget⟩ := List.getElem?_eq_some_iff.mp hk
    rw [List.map_set, hterminal, ← hget, ← List.getElem_map P.terminalOf, List.set_getElem_self]
    rwa [List.length_map]
  rw [exists_parseTree_iff hP hm hi, exists_parseTree_iff hP hm hi, ReadsSentence, hmap, ReadsSentence]

end Parser

/-! ## Unknown kinds and operators -/

namespace Script
open Lookahead.Script.Symbol

/-- A token of a kind from outside the language that no terminal is named after, or an operator in no class. -/
inductive Unknown (k : Token) : Prop
  | kind (name : String) : k.kind = .other name → (∀ s ∈ terminals, Text.lower name ≠ s.name) →
      Text.lower name ≠ endMarker → Unknown k
  | operator : k.kind = .operator → k.lexeme ∉ operators → Unknown k

variable {k : Token}

theorem operatorClass_of_not_mem {lexeme : String} (h : lexeme ∉ operators) : operatorClass lexeme = unknownOperator := by
  rw [operators, List.mem_append, List.mem_append, List.mem_append, not_or, not_or, not_or] at h
  obtain ⟨⟨⟨hadd, hmul⟩, hcomp⟩, hnot⟩ := h
  simp [operatorClass, hadd, hmul, hcomp, hnot]

theorem Unknown.undeclared (h : Unknown k) : terminalOf k ∉ grammar.terminals ∧ terminalOf k ≠ endMarker := by
  cases h with
  | kind name hkind hterminal hend =>
    have hname : terminalOf k = Text.lower name := by rw [terminalOf, hkind]
    rw [hname]
    refine ⟨fun hmem => ?_, hend⟩
    obtain ⟨s, hs, hlower⟩ := mem_terminals_iff.mp hmem
    exact hterminal s hs hlower.symm
  | operator hkind hlexeme =>
    have hclass : terminalOf k = unknownOperator := by rw [terminalOf, hkind, operatorClass_of_not_mem hlexeme]
    rw [hclass]
    refine ⟨fun hmem => ?_, by decide⟩
    obtain ⟨s, hs, hname⟩ := mem_terminals_iff.mp hmem
    exact (by decide : ∀ s ∈ terminals, s.name ≠ unknownOperator) s hs hname

/-- An unknown token is a syntax error, reported at its place or before, and no tree is converted. Any other token is
as good as every token with its terminal. -/
theorem parse_unknown {P : Parser} (hP : parser = .ok P) {tokens : List Token} {i : ℕ} (hk : tokens[i]? = some k) :
    (Unknown k → ∃ e, P.parseTree tokens = .error (.syntaxError e) ∧ 0 ≤ e.position ∧ e.position ≤ i ∧
      P.parse tokens = .error (.parse (.syntaxError e))) ∧
    ∀ k', terminalOf k' = terminalOf k →
      ((∃ T, P.parseTree (tokens.set i k') = .ok T) ↔ ∃ T, P.parseTree tokens = .ok T) := by
  obtain ⟨P', hP', hvalid, hgrammar, hterminal⟩ := parser_eq_ok
  obtain rfl : P = P' := Except.ok.inj (hP.symm.trans hP')
  have hm : P.grammar.MarksReserved := hgrammar ▸ grammar_marksReserved
  have hi := operatorInert_of_parser_eq hP hgrammar
  refine ⟨fun hunknown => ?_, fun k' hk' => ?_⟩
  · have hundeclared := hunknown.undeclared
    rw [← hterminal, ← hgrammar] at hundeclared
    obtain ⟨e, he, hle⟩ := Parser.parseTree_undeclared hvalid hm hi hk hundeclared.1 hundeclared.2
    refine ⟨e, he, hle.1, hle.2, ?_⟩
    rw [Parser.parse, he]
    rfl
  · exact Parser.exists_parseTree_set hvalid hm hi hk (by rw [hterminal, hk'])

/-- A token of a kind from outside the language. -/
def foreign (name lexeme : String) : Token := ⟨.other name, lexeme, none, ⟨"", 1, 1, 0⟩⟩

theorem parse_unknown_foreign : Unknown (foreign "Decorator" "x") ∧ ∃ P e, parser = .ok P ∧
    P.parse [foreign "Let" "let", foreign "Decorator" "x"] = .error (.parse (.syntaxError e)) ∧ e.position ≤ 1 := by
  have hlower : Text.lower "Decorator" = "decorator" := by decide +kernel
  have hunknown : Unknown (foreign "Decorator" "x") := .kind "Decorator" rfl (by rw [hlower]; decide) (by rw [hlower]; decide)
  obtain ⟨P, hP, -⟩ := parser_eq_ok
  have hk : [foreign "Let" "let", foreign "Decorator" "x"][1]? = some (foreign "Decorator" "x") := rfl
  obtain ⟨e, -, -, hle, he⟩ := (parse_unknown hP hk).1 hunknown
  exact ⟨hunknown, P, e, hP, he, hle⟩

/-- A kind from outside the language passes for a word of it, since that is its name in lower case. -/
theorem parse_foreign_break : Kind.ofName "Break" = .other "Break" ∧ ∃ P, parser = .ok P ∧
    P.parse [foreign "Break" "break", ⟨.semicolon, ";", none, ⟨"", 1, 6, 5⟩⟩, ⟨.eof, "", none, ⟨"", 1, 7, 6⟩⟩] =
      .ok ⟨[.breaking]⟩ := by
  obtain ⟨P, hparser, hP, hgrammar, hterminal⟩ := parser_eq_ok
  have hlower : terminalOf (foreign "Break" "break") = breakWord.name := by decide +kernel
  have hword := forest_leaf (s := .breakWord) (by decide) hlower
  have hend := forest_leaf (s := .semicolon) (k := ⟨.semicolon, ";", none, ⟨"", 1, 6, 5⟩⟩) (by decide) rfl
  obtain ⟨_, hbreak⟩ := forest_node (s := .breakStmt) (by decide) (hword.cons hend)
  obtain ⟨_, hstmt⟩ := forest_node (s := .stmt) (by decide) hbreak
  obtain ⟨_, hnil⟩ := forest_node (s := .stmtList) (by decide) .nil
  obtain ⟨_, hlist⟩ := forest_node (s := .stmtList) (by decide) (hstmt.cons hnil)
  obtain ⟨_, hprogram⟩ := forest_node (s := .program) (by decide) hlist
  have htree : P.parseTree [foreign "Break" "break", ⟨.semicolon, ";", none, ⟨"", 1, 6, 5⟩⟩,
      ⟨.eof, "", none, ⟨"", 1, 7, 6⟩⟩] = .ok _ := parseTree_of_forest hP hgrammar hterminal hprogram rfl
  refine ⟨by decide, P, hparser, ?_⟩
  rw [Parser.parse, htree]
  cbv

end Script
end Lookahead
