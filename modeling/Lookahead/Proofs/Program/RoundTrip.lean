import Lookahead.Proofs.Program.ReadStmt
import Lookahead.Pipeline

/-! Programs in writing are read back. The tokens of a program have one tree, and its conversion gives the program
again unless the program nests too deep. -/
namespace Lookahead

open Script

/-! ## Tokens for marks -/

namespace Script

/-- The one lexeme of a keyword or a punctuation mark; the end of the input has none. -/
def spelling (k : Kind) : String := (((keywords ++ punctuation).find? fun w => w.2 = k).map Prod.fst).getD ""

/-- A token that keeps to the mark. -/
def Mark.token : Mark → Token
  | .fixed k => ⟨k, spelling k, none, ⟨"", 1, 1, 0⟩⟩
  | .name s => ⟨.identifier, s, some (.text s), ⟨"", 1, 1, 0⟩⟩
  | .operator s => ⟨.operator, s, some (.text s), ⟨"", 1, 1, 0⟩⟩
  | .number v => ⟨.number, v.detail, some v, ⟨"", 1, 1, 0⟩⟩
  | .string v => ⟨.string, v.detail, some v, ⟨"", 1, 1, 0⟩⟩

theorem Mark.on_token (a : Mark) : a.On a.token := by cases a <;> simp [On, token]

theorem writes_tokens (m : List Mark) : Writes m (m.map Mark.token) := by
  induction m with
  | nil => exact .nil
  | cons a m ih => exact .cons a.on_token ih

end Script

namespace Program

variable {p : Program} {tokens w : List Token}

/-! ## Reading back -/

theorem exists_tree (h : p.WellFormed) (hw : Writes (Stmt.marksOf p.body) w) :
    ∃ T, Forest [.program] w [T] ∧ ∀ limit, ofTreeWithin limit T = within p.depth limit (.ok p) := by
  have hlist := Stmt.holds_list fun s hs => (h s hs).holds
  have hprogram : (Part.giving .program (Stmt.marksOf p.body) ofTreeWithin p.depth p).Holds := by
    refine yields_node (.program, [.stmtList]) [_] (by decide) rfl (List.forall_mem_singleton.mpr hlist) ?_ makes_program
    simp
  exact hprogram w hw

theorem parse_of_writes {P : Parser} (hP : P.Valid) (hgrammar : P.grammar = grammar)
    (hterminal : P.terminalOf = terminalOf) (h : p.WellFormed) (hw : Writes p.render tokens) :
    (∃ T, P.parseTree tokens = .ok T ∧ ∀ limit, ofTreeWithin limit T = within p.depth limit (.ok p)) ∧
      P.parse tokens = (within p.depth depthLimit (.ok p)).mapError Failure.conversion := by
  obtain ⟨w, rest, rfl, hbody, hrest⟩ := writes_append hw
  obtain ⟨last, hlast, rfl⟩ : ∃ last : Token, last.kind = .eof ∧ rest = [last] := by
    cases hrest with
    | cons hlast hnil =>
      cases hnil
      exact ⟨_, hlast, rfl⟩
  obtain ⟨T, hforest, hT⟩ := exists_tree h hbody
  have htree := parseTree_of_forest hP hgrammar hterminal hforest hlast
  refine ⟨⟨T, htree, hT⟩, ?_⟩
  rw [Parser.parse, htree]
  change (ofTreeWithin depthLimit T).mapError Failure.conversion = _
  rw [hT]

/-- Every well-formed program has a writing, and whatever tokens write it, up to the one that ends the input, parse to
the program again, as long as no more conversions are under way at once than the limit allows; beyond it, the failure
says that the program nests too deep. -/
theorem parse_render : ∃ P, Script.parser = .ok P ∧ ∀ p : Program, p.WellFormed →
    (∃ tokens, Writes p.render tokens) ∧ ∀ tokens, Writes p.render tokens →
      (∃ T, P.parseTree tokens = .ok T ∧
        ∀ limit, ofTreeWithin limit T = if p.depth ≤ limit then .ok p else .error tooDeep) ∧
        P.parse tokens = if p.depth ≤ depthLimit then .ok p else .error (.conversion tooDeep) := by
  obtain ⟨P, hparser, hP, hgrammar, hterminal⟩ := parser_eq_ok
  refine ⟨P, hparser, fun p h => ⟨⟨_, writes_tokens p.render⟩, fun tokens hw => ?_⟩⟩
  obtain ⟨htree, hparse⟩ := parse_of_writes hP hgrammar hterminal h hw
  refine ⟨htree, hparse.trans ?_⟩
  rw [within]
  split <;> rfl

/-- The program `const x = (a - b) * -c(d);`. -/
def product : Program :=
  ⟨[.varDecl true "x" (some (.binary (.binary (.identifier "a") "-" (.identifier "b")) "*"
    (.unary "-" (.call (.identifier "c") [.identifier "d"]))))]⟩

theorem product_wellFormed : product.WellFormed := by
  refine List.forall_mem_singleton.mpr (.varDecl (fun _ => rfl) ?_)
  rintro e ⟨⟩
  exact .binary (by decide) (.binary (by decide) .identifier .identifier)
    (.unary (by decide) (.call .identifier (List.forall_mem_singleton.mpr .identifier)))

theorem parse_render_product : product.WellFormed ∧ ∃ P tokens, Script.parser = .ok P ∧ Writes product.render tokens ∧
    tokens.map Token.lexeme = ["const", "x", "=", "(", "a", "-", "b", ")", "*", "-", "c", "(", "d", ")", ";", ""] ∧
      P.parse tokens = .ok product := by
  obtain ⟨P, hparser, hP⟩ := parse_render
  have hw := writes_tokens product.render
  exact ⟨product_wellFormed, P, _, hparser, hw, by decide, ((hP product product_wellFormed).2 _ hw).2⟩

/-! ## Programs that nest too deep -/

end Program

/-- So many exclamation marks before a name. -/
def Expr.negations : ℕ → Expr
  | 0 => .identifier "x"
  | n + 1 => .unary "!" (negations n)

namespace Expr

theorem negations_wellFormed (n : ℕ) : (negations n).WellFormed := by
  induction n with
  | zero => exact .identifier
  | succ n ih => exact .unary (by decide) ih

theorem marks_negations (n : ℕ) : (negations n).marks = List.replicate n (.operator "!") ++ [.name "x"] := by
  induction n with
  | zero => rfl
  | succ n ih =>
    have hplaced : ∀ m, placed (negations n).rank .unary m = m := by cases n <;> exact fun _ => rfl
    rw [negations, marks, hplaced, ih]
    rfl

theorem nesting_negations (n : ℕ) : (negations n).nesting = 2 * n := by
  induction n with
  | zero => rfl
  | succ n ih =>
    rw [negations, nesting, ih]
    omega

end Expr

namespace Program

def negations (n : ℕ) : Program := ⟨[.expression (.negations n)]⟩

theorem negations_wellFormed (n : ℕ) : (negations n).WellFormed :=
  List.forall_mem_singleton.mpr (.expression (Expr.negations_wellFormed n))

theorem render_negations (n : ℕ) :
    (negations n).render = List.replicate n (.operator "!") ++ [.name "x", .fixed .semicolon, .fixed .eof] := by
  simp [negations, render, Stmt.marksOf, Stmt.marks, Expr.marks_negations]

theorem depth_negations (n : ℕ) : (negations n).depth = 2 * n + 7 := by
  simp [negations, depth, Stmt.depthOf, Stmt.nesting, Expr.depth, Expr.nesting_negations]

/-- Two thousand exclamation marks before a name are a program in writing that is not read back. -/
theorem parse_negations : (negations 2000).WellFormed ∧
    ∃ P tokens, Script.parser = .ok P ∧ Writes (negations 2000).render tokens ∧
      tokens.map (fun t => (t.kind, t.lexeme)) =
        List.replicate 2000 (.operator, "!") ++ [(.identifier, "x"), (.semicolon, ";"), (.eof, "")] ∧
      P.parse tokens = .error (.conversion tooDeep) := by
  obtain ⟨P, hparser, hP, hgrammar, hterminal⟩ := parser_eq_ok
  have hw := writes_tokens (negations 2000).render
  have hdepth : ¬ (negations 2000).depth ≤ depthLimit := by
    rw [depth_negations]
    decide
  have hparse := (parse_of_writes hP hgrammar hterminal (negations_wellFormed 2000) hw).2
  rw [within, if_neg hdepth] at hparse
  refine ⟨negations_wellFormed 2000, P, _, hparser, hw, ?_, hparse⟩
  rw [render_negations, List.map_append, List.map_append, List.map_replicate, List.map_replicate]
  rfl

end Program
end Lookahead
