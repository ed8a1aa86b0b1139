import Lookahead.Proofs.Parse.Completeness
import Mathlib.Order.Bounds.Defs

/-! Where an error is reported. A move before the error keeps the words that the stack can reach, so that the
tokens matched are the longest of these words that the input begins with. -/
namespace Lookahead
namespace Parser

/-- The generic operator cannot be taken for a terminal, or there is no operator that it stands for. -/
def OperatorInert (P : Parser) : Prop :=
  P.grammar.operators = ∅ ∨ (P.operator ≠ endMarker ∧ P.operator ∉ P.grammar.terminals)

section Inert
variable {P : Parser} {p : Production} {s t : String}

theorem predicts_of_inert (h : P.grammar.Decides P.table) (hi : P.OperatorInert) (hp : P.predict s t = some p) :
    p ∈ P.grammar.productions ∧ p.lhs = s ∧ P.grammar.Predicts p t := by
  obtain ⟨hmem, hlhs, hpt | ⟨hop, hpo, -⟩⟩ := predict_cases h hp
  · exact ⟨hmem, hlhs, hpt⟩
  · rcases hi with hempty | ⟨hmarker, hterminal⟩
    · exact absurd (hempty ▸ hop) (NameSet.not_mem_empty t)
    · exact (hpo.mem_terminals.elim hmarker hterminal).elim

theorem Fits.eq_of_inert (hi : P.OperatorInert) {k : Token} (hs : s ∈ P.grammar.terminals) (h : P.Fits s k) :
    P.terminalOf k = s := by
  rcases h with heq | ⟨hop, hmem⟩
  · exact heq.symm
  · rcases hi with hempty | ⟨-, hterminal⟩
    · exact absurd (hempty ▸ hmem) (NameSet.not_mem_empty _)
    · exact absurd (hop ▸ hs) hterminal

end Inert

/-! ## Reachable words before and after a move -/

section Moves
variable {P : Parser} {p : Production} {s t : String} {σ l : List String}

theorem reaches_of_expand (h : P.grammar.Decides P.table) (hi : P.OperatorInert) (hp : P.predict s t = some p)
    (hσ : P.grammar.Coherent (s :: σ)) (n : ℕ) :
    P.grammar.Reaches (s :: (σ ++ [endMarker])) ((t :: l).take n) ↔
      P.grammar.Reaches (p.body ++ (σ ++ [endMarker])) ((t :: l).take n) := by
  obtain ⟨hmem, rfl, hpt⟩ := predicts_of_inert h hi hp
  cases n with
  | zero => exact iff_of_true (.stop _) (.stop _)
  | succ n =>
    rw [List.take_succ_cons]
    refine ⟨fun hreach => ?_, .expand hmem⟩
    obtain ⟨q, hq, hlhs, hbody⟩ := (Grammar.reaches_nonterminal (h.wellFormed.lhs_mem p hmem)).mp hreach
    have hqt := Grammar.Coherent.predicts h.wellFormed hq (hlhs ▸ hσ) hbody
    rw [h.unique hmem hq hlhs.symm hpt hqt]
    exact hbody

theorem not_reaches_of_predict_none (h : P.grammar.Decides P.table) (hs : s ∈ P.grammar.nonterminals)
    (hp : P.predict s t = none) (hσ : P.grammar.Coherent (s :: σ)) :
    ¬ P.grammar.Reaches (s :: (σ ++ [endMarker])) (t :: l) := by
  intro hreach
  obtain ⟨q, hq, rfl, hbody⟩ := (Grammar.reaches_nonterminal hs).mp hreach
  rw [predict_of_predicts h hq (hσ.predicts h.wellFormed hq hbody)] at hp
  cases hp

end Moves

/-! ## Rejected runs -/

/-- From the configuration, the error blames the token after the first `n`: these can be reached from the stack
and no more can, unless they are all there are. -/
structure Blames (P : Parser) (c : Config) (e : ParseError) (n : ℕ) : Prop where
  le : n ≤ c.rest.length
  position_eq : e.position = c.position + n
  reaches : P.grammar.Reaches c.stack ((c.rest.map P.terminalOf).take n)
  stops : n < c.rest.length → ¬ P.grammar.Reaches c.stack ((c.rest.map P.terminalOf).take (n + 1))
  eof_iff : e.fault.kind = .unexpectedEof ↔ n = c.rest.length
  unmarked : n = c.rest.length → ∀ k ∈ c.rest, P.terminalOf k ≠ endMarker

section Rejected
variable {P : Parser} {c : Config} {steps : List Step} {o : Outcome} {e : ParseError} {p : Production} {s : String}
  {σ below : List String} {token : Token} {rest : List Token} {i j k n : ℕ}

theorem Blames.of_expand (h : P.grammar.Decides P.table) (hi : P.OperatorInert)
    (hp : P.predict s (P.terminalOf token) = some p) (hσ : P.grammar.Coherent (s :: σ))
    (hb : P.Blames ⟨j, k, p.body ++ (σ ++ [endMarker]), token :: rest⟩ e n) :
    P.Blames ⟨i, k, s :: (σ ++ [endMarker]), token :: rest⟩ e n := by
  have hword := reaches_of_expand (l := rest.map P.terminalOf) h hi hp hσ
  refine ⟨hb.le, hb.position_eq, (hword n).mpr hb.reaches, fun hlt hreach => ?_, hb.eof_iff, hb.unmarked⟩
  exact hb.stops hlt ((hword (n + 1)).mp hreach)

theorem Blames.of_match (hg : P.grammar.WellFormed) (hs : s ∉ P.grammar.nonterminals) (hne : s ≠ endMarker)
    (htoken : P.terminalOf token = s) (hb : P.Blames ⟨j, k + 1, below, rest⟩ e n) :
    P.Blames ⟨i, k, s :: below, token :: rest⟩ e (n + 1) := by
  have hle := hb.le
  have hposition := hb.position_eq
  have heof := hb.eof_iff
  have hword : ∀ m, P.grammar.Reaches (s :: below) (((token :: rest).map P.terminalOf).take (m + 1)) ↔
      P.grammar.Reaches below ((rest.map P.terminalOf).take m) := by
    intro m
    rw [List.map_cons, List.take_succ_cons, Grammar.reaches_terminal hs hg, htoken]
    exact and_iff_right rfl
  dsimp only at hle hposition heof
  refine ⟨?_, ?_, (hword n).mpr hb.reaches, fun hlt hreach => ?_, ?_, fun heq => ?_⟩
  · exact Nat.succ_le_succ hle
  · rw [hposition]
    push_cast
    omega
  · exact hb.stops (Nat.lt_of_succ_lt_succ hlt) ((hword (n + 1)).mp hreach)
  · rw [heof, List.length_cons]
    omega
  · exact List.forall_mem_cons.mpr ⟨htoken ▸ hne, hb.unmarked (Nat.succ_injective heq)⟩

/-- A run that is rejected blames some token, or the end of the tokens. The induction is on the moves, and
coherence is what each of them keeps. -/
theorem Runs.blames (h : P.grammar.Decides P.table) (hm : P.grammar.MarksReserved) (hi : P.OperatorInert)
    (hruns : P.Runs c steps o) (ho : o = .rejected e) (hstack : c.stack = σ ++ [endMarker])
    (hσ : P.grammar.Coherent σ) : ∃ n, P.Blames c e n := by
  have hmarker := hm.marker_not_nonterminal
  induction hruns generalizing σ with
  | @halt c s o hmove =>
    have heff := P.move_effect c
    rw [hmove, ho] at heff
    cases heff with
    | noStack => exact absurd hstack.symm (by simp)
    | noToken => exact ⟨0, by simp, by simp, .stop _, by simp, by simp [SyntaxFault.kind], by simp⟩
    | trailing hend =>
      obtain ⟨rfl, rfl⟩ := eq_nil_of_cons_eq (hσ.marker_not_mem hm) hstack
      refine ⟨0, by simp, by simp, .stop _, fun _ hreach => ?_, by simp [SyntaxFault.kind], by simp⟩
      exact hend ((Grammar.reaches_terminal hmarker h.wellFormed).mp hreach).1.symm
    | extra hend =>
      obtain ⟨rfl, rfl⟩ := eq_nil_of_cons_eq (hσ.marker_not_mem hm) hstack
      refine ⟨1, by simp, by simp, ?_, fun _ hreach => ?_, by simp [SyntaxFault.kind], by simp⟩
      · exact (Grammar.reaches_terminal hmarker h.wellFormed).mpr ⟨hend.symm, .stop _⟩
      · cases ((Grammar.reaches_terminal hmarker h.wellFormed).mp hreach).2
    | noProduction htop hn hp =>
      obtain ⟨τ, rfl, rfl⟩ := exists_of_cons_eq htop hstack
      refine ⟨0, by simp, by simp, .stop _, fun _ hreach => ?_, by simp [SyntaxFault.kind], by simp⟩
      exact not_reaches_of_predict_none h hn hp hσ hreach
    | mismatch htop hn hadmits =>
      refine ⟨0, by simp, by simp, .stop _, fun _ hreach => ?_, by simp [SyntaxFault.kind], by simp⟩
      have heq := ((Grammar.reaches_terminal hn h.wellFormed).mp hreach).1
      rw [admits_iff.mpr (Or.inl heq)] at hadmits
      cases hadmits
  | @proceed c d s steps o hmove hruns ih =>
    have heff := P.move_effect c
    rw [hmove] at heff
    cases heff with
    | expand htop hn hp =>
      obtain ⟨τ, rfl, rfl⟩ := exists_of_cons_eq htop hstack
      obtain ⟨hmem, rfl, -⟩ := predicts_of_inert h hi hp
      obtain ⟨n, hb⟩ := ih ho (List.append_assoc _ _ _).symm (hσ.expand h.wellFormed hmem)
      exact ⟨n, hb.of_expand h hi hp hσ⟩
    | matched htop hn hadmits =>
      obtain ⟨τ, rfl, rfl⟩ := exists_of_cons_eq htop hstack
      obtain ⟨n, hb⟩ := ih ho rfl hσ.tail
      have hterminal := (hσ.declared _ List.mem_cons_self).resolve_right hn
      exact ⟨n + 1, hb.of_match h.wellFormed hn htop ((admits_iff.mp hadmits).eq_of_inert hi hterminal)⟩

end Rejected

/-! ## The whole input -/

/-- The terminals of the tokens are a sentence of the grammar and one end marker. -/
def ReadsSentence (P : Parser) (tokens : List Token) : Prop :=
  ∃ u, P.grammar.Sentence u ∧ tokens.map P.terminalOf = u ++ [endMarker]

section Whole
variable {P : Parser} {tokens : List Token} {e : ParseError} {n : ℕ}

theorem readsSentence_of_accepted (hP : P.Valid) (hm : P.grammar.MarksReserved) (hi : P.OperatorInert)
    (ho : (P.run tokens).outcome = .accepted) : P.ReadsSentence tokens := by
  obtain ⟨w, last, T, rfl, hlast, -, hgrows⟩ := grows_of_accepted hP hm ho
  have hexact : Tree.Grows P.grammar (fun s k => P.terminalOf k = s) [P.grammar.start] w [T] :=
    hgrows.mono fun s hs k hk => hk.eq_of_inert hi hs
  refine ⟨w.map P.terminalOf, hexact.derives, ?_⟩
  rw [List.map_append, List.map_singleton, hlast]

theorem Blames.isGreatest (hb : P.Blames (P.initial tokens) e n) :
    IsGreatest {m | m ≤ tokens.length ∧ P.grammar.Viable ((tokens.map P.terminalOf).take m)} n := by
  refine ⟨⟨hb.le, Grammar.viable_iff.mpr hb.reaches⟩, fun m hm => ?_⟩
  obtain ⟨hle, hviable⟩ := hm
  by_contra hlt
  have hsplit : (tokens.map P.terminalOf).take m =
      (tokens.map P.terminalOf).take (n + 1) ++ ((tokens.map P.terminalOf).take m).drop (n + 1) := by
    have htake : ((tokens.map P.terminalOf).take m).take (n + 1) = (tokens.map P.terminalOf).take (n + 1) := by
      rw [List.take_take, Nat.min_eq_left (by omega)]
    rw [← htake, List.take_append_drop]
  have hreach := Grammar.viable_iff.mp hviable
  rw [hsplit] at hreach
  exact hb.stops (Nat.lt_of_lt_of_le (Nat.not_le.mp hlt) hle) hreach.of_append

/-- A sentence and its end marker can be reached as a whole, and an error that blames the end of the tokens has
seen no end marker. -/
theorem Blames.not_readsSentence (hg : P.grammar.WellFormed) (hm : P.grammar.MarksReserved)
    (hb : P.Blames (P.initial tokens) e n) : ¬ P.ReadsSentence tokens := by
  rintro ⟨u, ⟨hterminals, hderives⟩, hu⟩
  have hviable : P.grammar.Viable ((tokens.map P.terminalOf).take tokens.length) := by
    rw [List.take_of_length_le (by rw [List.length_map]), hu]
    refine ⟨List.forall_mem_append.mpr ⟨fun s hs => hg.disjoint s (hterminals s hs), ?_⟩, [], ?_⟩
    · exact List.forall_mem_singleton.mpr hm.marker_not_nonterminal
    · rw [List.append_nil]
      exact hderives.append_right [endMarker]
  have hn : n = tokens.length := Nat.le_antisymm hb.le (hb.isGreatest.2 ⟨le_rfl, hviable⟩)
  have hlast : endMarker ∈ tokens.map P.terminalOf := by
    rw [hu]
    exact List.mem_append_right u List.mem_cons_self
  obtain ⟨k, hk, hkm⟩ := List.mem_map.mp hlast
  exact hb.unmarked hn k hk hkm

theorem accepted_or_blames (hP : P.Valid) (hm : P.grammar.MarksReserved) (hi : P.OperatorInert)
    (tokens : List Token) : (∃ T, P.parseTree tokens = .ok T ∧ P.ReadsSentence tokens) ∨
      ∃ e n, P.parseTree tokens = .error (.syntaxError e) ∧ P.Blames (P.initial tokens) e n := by
  have hruns := runs_run hP.decides tokens
  cases ho : (P.run tokens).outcome with
  | accepted =>
    obtain ⟨_, _, T, _, _, hforest, _⟩ := grows_of_accepted hP hm ho
    exact Or.inl ⟨T, parseTree_eq_ok.mpr ⟨ho, [], hforest⟩, readsSentence_of_accepted hP hm hi ho⟩
  | rejected e =>
    obtain ⟨n, hb⟩ := hruns.blames hP.decides hm hi ho rfl (.initial hP.decides.wellFormed hm)
    exact Or.inr ⟨e, n, by rw [parseTree_eq, Run.tree, ho], hb⟩
  | unfinished => exact absurd ho hruns.ne_unfinished

end Whole

/-- A valid parser returns a tree for the sentences of its grammar with one end marker after them. For all other
tokens it returns an error, whose position is the length of their longest viable beginning. -/
theorem parseTree_position (P : Parser) (hP : P.Valid) (hm : P.grammar.MarksReserved) (hi : P.OperatorInert)
    (tokens : List Token) :
    ((∃ T, P.parseTree tokens = .ok T) ↔ P.ReadsSentence tokens) ∧
      (¬ P.ReadsSentence tokens → ∃ (e : ParseError) (n : ℕ), P.parseTree tokens = .error (.syntaxError e) ∧
        e.position = n ∧
        IsGreatest {m | m ≤ tokens.length ∧ P.grammar.Viable ((tokens.map P.terminalOf).take m)} n ∧
        (e.fault.kind = .unexpectedEof ↔ n = tokens.length)) := by
  rcases accepted_or_blames hP hm hi tokens with ⟨T, hT, hreads⟩ | ⟨e, n, he, hb⟩
  · exact ⟨iff_of_true ⟨T, hT⟩ hreads, fun hnot => absurd hreads hnot⟩
  · have hnot := hb.not_readsSentence hP.decides.wellFormed hm
    refine ⟨iff_of_false ?_ hnot, fun _ => ⟨e, n, he, ?_, hb.isGreatest, hb.eof_iff⟩⟩
    · rintro ⟨T, hT⟩
      rw [hT] at he
      cases he
    · have hposition : e.position = ((0 : ℕ) : Int) + n := hb.position_eq
      omega

theorem parseTree_position_sums : ∃ P : Parser, P.Valid ∧ P.grammar.MarksReserved ∧ P.OperatorInert ∧
    ¬ P.ReadsSentence (["a", "op", "$"].map named) ∧
      IsGreatest {m | m ≤ 3 ∧ P.grammar.Viable (["a", "op", "$"].take m)} 2 := by
  obtain ⟨a, ha, hgrammar, hvalid⟩ := exists_sums
  have hm : a.table.grammar.MarksReserved := hgrammar ▸ sums_marksReserved
  have hi : (Parser.mk a.table Token.lexeme "%").OperatorInert := by
    have hoperator : "%" ∉ a.table.grammar.terminals := by
      rw [hgrammar]
      decide +kernel
    exact Or.inr ⟨(by decide : "%" ≠ endMarker), hoperator⟩
  have hrun : (sums.analyze.toOption.map fun a =>
      ((Parser.mk a.table Token.lexeme "%").run (["a", "op", "$"].map named)).outcome) =
        some (.rejected ⟨.terminalMismatch "a" "$", 2, some (named "$")⟩) := by
    decide +kernel
  rw [ha] at hrun
  have ho : ((Parser.mk a.table Token.lexeme "%").run (["a", "op", "$"].map named)).outcome =
      .rejected ⟨.terminalMismatch "a" "$", 2, some (named "$")⟩ := Option.some.inj hrun
  obtain ⟨hreads, hposition⟩ := parseTree_position _ (hvalid Token.lexeme "%") hm hi (["a", "op", "$"].map named)
  have hnot : ¬ (Parser.mk a.table Token.lexeme "%").ReadsSentence (["a", "op", "$"].map named) := by
    rw [← hreads, parseTree_eq, Run.tree, ho]
    rintro ⟨T, hT⟩
    cases hT
  obtain ⟨e, n, he, hn, hgreatest, -⟩ := hposition hnot
  rw [parseTree_eq, Run.tree, ho] at he
  cases he
  obtain rfl : n = 2 := by
    dsimp only at hn
    omega
  exact ⟨_, hvalid _ _, hm, hi, hnot, hgreatest⟩

end Parser
end Lookahead
