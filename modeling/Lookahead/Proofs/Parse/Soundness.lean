import Lookahead.Proofs.Parse.Build
import Lookahead.Proofs.Parse.Termination
import Lookahead.Proofs.Tree.Derivation

/-! Soundness of acceptance. Read from its last step back, a run that accepts makes a forest over the symbols
on its stack, with the tokens still to come at the leaves. -/
namespace Lookahead
namespace Parser
variable {P : Parser} {c : Config} {steps : List Step} {o : Outcome} {σ : List String}

/-- The symbol is the terminal of the token, or the generic operator in place of one that is an operator. -/
def Fits (P : Parser) (s : String) (k : Token) : Prop :=
  s = P.terminalOf k ∨ (s = P.operator ∧ P.terminalOf k ∈ P.grammar.operators)

theorem admits_iff {s : String} {k : Token} : P.admits s (P.terminalOf k) = true ↔ P.Fits s k := by
  simp [admits, Fits]

theorem parseTree_eq_ok {tokens : List Token} {T : Tree} :
    P.parseTree tokens = .ok T ↔ (P.run tokens).outcome = .accepted ∧
      ∃ F, Tree.forest (P.run tokens).steps = T :: F := by
  rw [parseTree_eq, Run.tree]
  cases (P.run tokens).outcome with
  | accepted => cases Tree.forest (P.run tokens).steps <;> simp
  | rejected e => simp
  | unfinished => simp

/-- The invariant of a run that accepts: nothing but the end marker under declared symbols. The induction is
on the moves, each of which adds a node or a leaf in front of the forest. -/
theorem Runs.grows (h : P.grammar.Decides P.table) (hm : P.grammar.MarksReserved) (hruns : P.Runs c steps o)
    (ho : o = .accepted) (hstack : c.stack = σ ++ [endMarker])
    (hσ : P.grammar.Coherent σ) :
    ∃ w last, c.rest = w ++ [last] ∧ P.terminalOf last = endMarker ∧
      Tree.Grows P.grammar P.Fits σ w (Tree.forest steps) := by
  induction hruns generalizing σ with
  | @halt c s o hmove =>
    have heff := P.move_effect c
    rw [hmove, ho] at heff
    cases heff with
    | accept hend =>
      obtain ⟨rfl, rfl⟩ := eq_nil_of_cons_eq (hσ.marker_not_mem hm) hstack
      exact ⟨[], _, rfl, hend, .nil⟩
  | @proceed c d s steps o hmove hruns ih =>
    have heff := P.move_effect c
    rw [hmove] at heff
    cases heff with
    | expand htop hn hp =>
      obtain ⟨τ, rfl, rfl⟩ := exists_of_cons_eq htop hstack
      obtain ⟨hmem, rfl, -⟩ := predict_cases h hp
      obtain ⟨w, last, hrest, hlast, hgrows⟩ := ih ho (List.append_assoc _ _ _).symm (hσ.expand h.wellFormed hmem)
      exact ⟨w, last, hrest, hlast, .node hmem hgrows⟩
    | matched htop hn hadmits =>
      obtain ⟨τ, rfl, rfl⟩ := exists_of_cons_eq htop hstack
      obtain ⟨w, last, rfl, hlast, hgrows⟩ := ih ho rfl hσ.tail
      have hterminal := (hσ.declared _ List.mem_cons_self).resolve_right hn
      exact ⟨_ :: w, last, rfl, hlast, .leaf hterminal (admits_iff.mp hadmits) hgrows⟩

/-- A run that accepts makes one tree, over all tokens but the last. -/
theorem grows_of_accepted (hP : P.Valid) (hm : P.grammar.MarksReserved) {tokens : List Token}
    (ho : (P.run tokens).outcome = .accepted) :
    ∃ w last T, tokens = w ++ [last] ∧ P.terminalOf last = endMarker ∧ Tree.forest (P.run tokens).steps = [T] ∧
      Tree.Grows P.grammar P.Fits [P.grammar.start] w [T] := by
  obtain ⟨w, last, hrest, hlast, hgrows⟩ :=
    (runs_run hP.decides tokens).grows hP.decides hm ho rfl (.initial hP.decides.wellFormed hm)
  have hlength := congrArg List.length hgrows.symbols
  rw [List.length_map, List.length_singleton, List.length_eq_one_iff] at hlength
  obtain ⟨T, hT⟩ := hlength
  exact ⟨w, last, T, hrest, hlast, hT, hT ▸ hgrows⟩

/-- A tree that is returned is a derivation tree of the grammar. Its leaves carry all tokens but the last, which
stands for the end of the input. -/
theorem parseTree_sound (P : Parser) (hP : P.Valid) (hm : P.grammar.MarksReserved) {tokens : List Token} {T : Tree}
    (hT : P.parseTree tokens = .ok T) :
    T.symbol = P.grammar.start ∧
      Tree.Derivation P.grammar (fun s k => ∃ x, k = some x ∧ P.Fits s x) T ∧
      T.leaves.map Tree.token = tokens.dropLast.map some ∧
      tokens.getLast?.map P.terminalOf = some endMarker := by
  obtain ⟨ho, F, hF⟩ := parseTree_eq_ok.mp hT
  obtain ⟨w, last, T', rfl, hlast, hT', hgrows⟩ := grows_of_accepted hP hm ho
  rw [hF, List.cons.injEq] at hT'
  obtain ⟨rfl, -⟩ := hT'
  have hleaves := hgrows.leaves
  rw [List.flatMap_singleton] at hleaves
  refine ⟨(List.cons.inj hgrows.symbols).1, hgrows.derivation T List.mem_cons_self, ?_, ?_⟩
  · rw [hleaves, List.dropLast_concat]
  · rw [List.getLast?_concat, Option.map_some, hlast]

theorem parseTree_sound_sums : ∃ (P : Parser) (T : Tree), P.Valid ∧ P.grammar.MarksReserved ∧
    P.parseTree (["a", "+", "a", "$"].map named) = .ok T ∧ T.symbol = "S" ∧
      Tree.Derivation P.grammar (fun s k => ∃ x, k = some x ∧ P.Fits s x) T := by
  obtain ⟨a, ha, hgrammar, hvalid⟩ := exists_sums
  have hm : a.table.grammar.MarksReserved := hgrammar ▸ sums_marksReserved
  have hrun : (sums.analyze.toOption.map fun a =>
      ((Parser.mk a.table Token.lexeme "op").parseTree (["a", "+", "a", "$"].map named)).isOk) = some true := by
    decide +kernel
  rw [ha] at hrun
  cases hT : (Parser.mk a.table Token.lexeme "op").parseTree (["a", "+", "a", "$"].map named) with
  | error e =>
    have hok : ((Parser.mk a.table Token.lexeme "op").parseTree (["a", "+", "a", "$"].map named)).isOk = true :=
      Option.some.inj hrun
    rw [hT] at hok
    cases hok
  | ok T =>
    have hsound := parseTree_sound _ (hvalid Token.lexeme "op") hm hT
    have hstart : a.table.grammar.start = "S" := by rw [hgrammar]; rfl
    exact ⟨_, T, hvalid _ _, hm, hT, hsound.1.trans hstart, hsound.2.1⟩

end Parser
end Lookahead
