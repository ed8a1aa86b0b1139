import Lookahead.Proofs.Parse.Trace

/-! What a rejected run records of its error. A token that does not fit is shown by the last step; tokens after the
end of the input are refused without a step. -/
namespace Lookahead
namespace Parser
variable {P : Parser} {c : Config} {steps : List Step} {o : Outcome} {e : ParseError} {tokens : List Token}

/-- The last step rejects, none before it does, and it is taken where the error is. -/
def Shows (steps : List Step) (e : ParseError) : Prop :=
  ∃ front last, steps = front ++ [last] ∧ last.action = .reject ∧ (∀ s ∈ front, s.action ≠ .reject) ∧
    e.position = last.position ∧ e.token = some last.token

/-- No step rejects. -/
def Silent (steps : List Step) : Prop := ∀ s ∈ steps, s.action ≠ .reject

/-- The error is that a token comes after one for the end of the input. -/
def AfterEnd (P : Parser) (tokens : List Token) (e : ParseError) : Prop :=
  ∃ (k : ℕ) (token next : Token), tokens[k]? = some token ∧ P.terminalOf token = endMarker ∧
    tokens[k + 1]? = some next ∧ e = ⟨.trailingInput, k + 1, some next⟩

theorem Shows.not_silent (h : Shows steps e) : ¬ Silent steps := by
  obtain ⟨front, last, hsteps, hlast, -⟩ := h
  intro hsilent
  exact hsilent last (hsteps ▸ List.mem_append_right front List.mem_cons_self) hlast

theorem Shows.cons {s : Step} (hs : s.action ≠ .reject) (h : Shows steps e) : Shows (s :: steps) e := by
  obtain ⟨front, last, hsteps, hlast, hfront, hat⟩ := h
  refine ⟨s :: front, last, ?_, hlast, List.forall_mem_cons.mpr ⟨hs, hfront⟩, hat⟩
  rw [hsteps, List.cons_append]

theorem shows_singleton {s : Step} (hs : s.action = .reject) (hposition : e.position = s.position)
    (htoken : e.token = some s.token) : Shows [s] e :=
  ⟨[], s, rfl, hs, by simp, hposition, htoken⟩

theorem action_ne_reject {s : Step} {d : Config} (hmove : P.move c = .proceed s d) : s.action ≠ .reject := by
  have heff := P.move_effect c
  rw [hmove] at heff
  cases heff <;> exact Action.noConfusion

/-- The induction is on the moves; the tokens that are left are what the last of them judges. -/
theorem Runs.shows_or_silent (hruns : P.Runs c steps o) (ho : o = .rejected e)
    (hc : tokens.drop c.position = c.rest) :
    (e.fault.kind ≠ .unexpectedEof ∧ Shows steps e) ∨
      (Silent steps ∧ (e.fault.kind = .unexpectedEof ∨ P.AfterEnd tokens e)) := by
  induction hruns with
  | @halt c s o hmove =>
    have heff := P.move_effect c
    rw [hmove, ho] at heff
    cases heff with
    | noStack => exact Or.inr ⟨by simp [Silent], Or.inl rfl⟩
    | noToken => exact Or.inr ⟨by simp [Silent], Or.inl rfl⟩
    | trailing hend => exact Or.inl ⟨SyntaxKind.noConfusion, shows_singleton rfl rfl rfl⟩
    | @extra i k below token next rest hend =>
      have htoken : tokens[k]? = some token := by rw [← List.head?_drop, hc, List.head?_cons]
      have hnext : tokens[k + 1]? = some next := by
        rw [← List.head?_drop, ← List.tail_drop, hc, List.tail_cons, List.head?_cons]
      exact Or.inr ⟨by simp [Silent], Or.inr ⟨k, token, next, htoken, hend, hnext, rfl⟩⟩
    | noProduction htop hn hp => exact Or.inl ⟨SyntaxKind.noConfusion, shows_singleton rfl rfl rfl⟩
    | mismatch htop hn hadmits => exact Or.inl ⟨SyntaxKind.noConfusion, shows_singleton rfl rfl rfl⟩
  | proceed hmove _ ih =>
    have hs := action_ne_reject hmove
    cases ih ho (drop_next hc hmove) with
    | inl h => exact Or.inl ⟨h.1, h.2.cons hs⟩
    | inr h => exact Or.inr ⟨List.forall_mem_cons.mpr ⟨hs, h.1⟩, h.2⟩

theorem parseTree_eq_error : P.parseTree tokens = .error (.syntaxError e) ↔ (P.run tokens).outcome = .rejected e := by
  rw [parseTree_eq, Run.tree]
  cases (P.run tokens).outcome with
  | accepted => cases Tree.forest (P.run tokens).steps <;> simp
  | rejected e' => simp
  | unfinished => simp

/-- An error at a token is shown by the last step of the run and by no other, unless it is that a token comes after
the end of the input. Then, and where the tokens end too early, no step rejects. -/
theorem parseTree_error_shown (P : Parser) (hP : P.Valid) {tokens : List Token} {e : ParseError}
    (he : P.parseTree tokens = .error (.syntaxError e)) :
    (e.fault.kind ≠ .unexpectedEof ∧ Shows (P.run tokens).steps e) ∨
      (Silent (P.run tokens).steps ∧ (e.fault.kind = .unexpectedEof ∨ P.AfterEnd tokens e)) :=
  (runs_run hP.decides tokens).shows_or_silent (parseTree_eq_error.mp he) (P.drop_initial tokens)

theorem parseTree_error_shown_sums : ∃ (P : Parser) (e : ParseError), P.grammar = sums ∧ P.Valid ∧
    P.parseTree (["a", "op", "$"].map named) = .error (.syntaxError e) ∧ e.position = 2 ∧
      Shows (P.run (["a", "op", "$"].map named)).steps e := by
  obtain ⟨a, ha, hgrammar, hvalid⟩ := exists_sums
  have hrun : (sums.analyze.toOption.map fun a =>
      ((Parser.mk a.table Token.lexeme "op").run (["a", "op", "$"].map named)).outcome) =
        some (.rejected ⟨.terminalMismatch "a" "$", 2, some (named "$")⟩) := by
    decide +kernel
  rw [ha] at hrun
  have he := parseTree_eq_error.mpr (Option.some.inj hrun)
  cases parseTree_error_shown _ (hvalid Token.lexeme "op") he with
  | inl h => exact ⟨⟨a.table, Token.lexeme, "op"⟩, _, hgrammar, hvalid _ _, he, rfl, h.2⟩
  | inr h =>
    obtain ⟨-, heof | ⟨k, token, next, -, -, -, heq⟩⟩ := h
    · cases heof
    · cases heq

/-- The token after the end of the input is refused, and the last step that is recorded is not about it. -/
theorem sums_error_unshown : sums.defects = [] ∧ ∃ (P : Parser) (e : ParseError), P.grammar = sums ∧ P.Valid ∧
    P.parseTree (["a", "$", "a"].map named) = .error (.syntaxError e) ∧ e.fault.kind = .trailingInput ∧
      Silent (P.run (["a", "$", "a"].map named)).steps ∧ ¬ Shows (P.run (["a", "$", "a"].map named)).steps e := by
  obtain ⟨a, ha, hgrammar, hvalid⟩ := exists_sums
  have hrun : (sums.analyze.toOption.map fun a =>
      let r := (Parser.mk a.table Token.lexeme "op").run (["a", "$", "a"].map named)
      (r.outcome, r.steps.map fun s => decide (s.action = .reject))) =
        some (.rejected ⟨.trailingInput, 2, some (named "a")⟩, [false, false, false]) := by
    decide +kernel
  rw [ha] at hrun
  simp only [Except.toOption, Option.map_some, Option.some.injEq, Prod.mk.injEq] at hrun
  obtain ⟨ho, hactions⟩ := hrun
  have hsilent : Silent ((Parser.mk a.table Token.lexeme "op").run (["a", "$", "a"].map named)).steps := by
    intro s hs hreject
    have hmem := List.mem_map_of_mem (f := fun s : Step => decide (s.action = .reject)) hs
    rw [hactions, decide_eq_true hreject] at hmem
    exact absurd hmem (by decide)
  exact ⟨by decide +kernel, ⟨a.table, Token.lexeme, "op"⟩, _, hgrammar, hvalid _ _, parseTree_eq_error.mpr ho, rfl,
    hsilent, fun hshows => hshows.not_silent hsilent⟩

end Parser
end Lookahead
