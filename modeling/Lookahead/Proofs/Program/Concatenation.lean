import Lookahead.Proofs.Program.Image
import Lookahead.Proofs.Scan.Seam

/-! Programs one after the other. The tree of a program holds the trees of its statements in a row, and any row makes
a program; so the body of a text below another is added to the body of that other. -/
namespace Lookahead

/-! ## Statements in a row -/

theorem Spine.mapM_none {α β : Type} (f : α → Conversion β) (items : List α) :
    (⟨items, none⟩ : Spine α).mapM f = items.mapM f := bind_pure _

namespace Script

/-- Trees of statements, one after the other, over the tokens. -/
def Row (w : List Token) (ts : List Tree) : Prop := Forest (List.replicate ts.length .stmt) w ts

variable {v w : List Token} {ss ts : List Tree} {A L T : Tree}

theorem Row.append (h : Row v ss) (h' : Row w ts) : Row (v ++ w) (ss ++ ts) := by
  rw [Row, List.length_append, ← List.replicate_append_replicate]
  exact Forest.append h h'

theorem Row.cons (hA : Forest [.stmt] v [A]) (h : Row w ts) : Row (v ++ w) (A :: ts) := Forest.cons hA h

theorem statements_cons {i : Option Int} (h : Forest [.stmt, .stmtList] w [A, L]) (hL : L.statements = ⟨ts, none⟩) :
    (Tree.node Symbol.stmtList.name i none [A, L]).statements = ⟨A :: ts, none⟩ := by
  rw [Tree.statements_node h.symbols, hL]
  rfl

theorem Row.exists_list (h : Row w ts) : ∃ L, Forest [.stmtList] w [L] ∧ L.statements = ⟨ts, none⟩ := by
  induction ts generalizing w with
  | nil =>
    cases h
    obtain ⟨i, hL⟩ := forest_node (s := .stmtList) (by decide) Forest.nil
    exact ⟨_, hL, rfl⟩
  | cons A ts ih =>
    obtain ⟨w₁, w₂, _, _, rfl, ⟨⟩, hA, hts⟩ := Forest.exists_cons h
    obtain ⟨L, hL, hstatements⟩ := ih hts
    obtain ⟨i, hnode⟩ := forest_node (s := .stmtList) (by decide) (hA.cons hL)
    exact ⟨_, hnode, statements_cons (hA.cons hL) hstatements⟩

/-- The induction is on the lists within the list. -/
theorem Forest.exists_row (h : Forest [.stmtList] w [L]) : ∃ ts, Row w ts ∧ L.statements = ⟨ts, none⟩ := by
  induction hsize : sizeOf L using Nat.strong_induction_on generalizing w L with
  | _ n ih =>
    subst hsize
    obtain ⟨l, i, F, hrule, rfl, hF⟩ := h.exists_rule (by decide)
    have hbody : l = [.stmt, .stmtList] ∨ l = [] :=
      (by decide : ∀ r ∈ rules, r.1 = .stmtList → r.2 = [.stmt, .stmtList] ∨ r.2 = []) _ hrule rfl
    rcases hbody with rfl | rfl
    · obtain ⟨w₁, w₂, A, G, rfl, rfl, hA, hG⟩ := hF.exists_cons
      obtain ⟨L, rfl, -⟩ := List.map_eq_singleton_iff.mp hG.symbols
      obtain ⟨ts, hts, hstatements⟩ := ih _ (by simp; omega) hG rfl
      exact ⟨A :: ts, .cons hA hts, statements_cons hF hstatements⟩
    · cases hF
      exact ⟨[], .nil, rfl⟩

end Script

namespace Program

open Script

variable {w : List Token} {ts : List Tree} {L T : Tree}

theorem ofTreeWithin_node {i : Option Int} (h : [L].map Tree.symbol = [Symbol.stmtList].map Symbol.name)
    (hL : L.statements = ⟨ts, none⟩) (n : ℕ) :
    ofTreeWithin (n + 1) (.node Symbol.program.name i none [L]) = mk <$> ts.mapM (Stmt.ofTree n) := by
  rw [ofTreeWithin, if_pos (by rfl), Tree.split?_node h]
  dsimp only
  rw [Stmt.ofList, hL, Spine.mapM_none, map_eq_pure_bind]

theorem exists_tree_of_row (h : Row w ts) :
    ∃ T, Forest [.program] w [T] ∧ ∀ n, ofTreeWithin (n + 1) T = mk <$> ts.mapM (Stmt.ofTree n) := by
  obtain ⟨L, hL, hstatements⟩ := h.exists_list
  obtain ⟨i, hT⟩ := forest_node (s := .program) (by decide) hL
  exact ⟨_, hT, ofTreeWithin_node hL.symbols hstatements⟩

theorem exists_row_of_tree (h : Forest [.program] w [T]) :
    ∃ ts, Row w ts ∧ ∀ n, ofTreeWithin (n + 1) T = mk <$> ts.mapM (Stmt.ofTree n) := by
  obtain ⟨l, i, F, hrule, rfl, hF⟩ := h.exists_rule (by decide)
  obtain rfl : l = [.stmtList] := (by decide : ∀ r ∈ rules, r.1 = .program → r.2 = [.stmtList]) _ hrule rfl
  obtain ⟨L, rfl, -⟩ := List.map_eq_singleton_iff.mp hF.symbols
  obtain ⟨ts, hts, hstatements⟩ := hF.exists_row
  exact ⟨ts, hts, ofTreeWithin_node hF.symbols hstatements⟩

/-- An accepted text, wherever its tokens stand: its tree is a row of statements that convert to its body. -/
theorem exists_row_of_parseSource {file source : String} {p : Program} (h : parseSource file source = .ok p) :
    ∃ tokens, tokenize file source = .ok tokens ∧ ∀ f, ∃ ts, Row (tokens.dropLast.map (Token.relocate f)) ts ∧
      ts.mapM (Stmt.ofTree (depthLimit - 1)) = .ok p.body := by
  obtain ⟨tokens, htokens, P, hP, hparse⟩ := parseSource_eq_ok_iff.mp h
  obtain ⟨T, hT, hconversion⟩ := Parser.parse_eq_ok_iff.mp hparse
  obtain ⟨w, last, rfl, -, hforest⟩ := forest_of_parseTree hP hT
  refine ⟨_, htokens, fun f => ?_⟩
  have hlegible := (List.forall_mem_append.mp (legible_of_tokenize htokens)).1
  rw [ofTree, ← ofTreeWithin_relocate hlegible hforest f] at hconversion
  obtain ⟨ts, hts, hrow⟩ := exists_row_of_tree (hforest.relocate f)
  rw [List.dropLast_concat]
  refine ⟨ts, hts, ?_⟩
  obtain ⟨body, hbody, rfl⟩ := map_eq_ok_iff.mp ((hrow (depthLimit - 1)).symm.trans hconversion)
  exact hbody

/-- A text whose tokens write a program, which does not nest too deep, is accepted as that program. -/
theorem parseSource_of_writes {file source : String} {tokens : List Token} {p : Program} (h : p.WellFormed)
    (hdepth : p.depth ≤ depthLimit) (htokens : tokenize file source = .ok tokens) (hw : Writes p.render tokens) :
    parseSource file source = .ok p := by
  obtain ⟨P, hparser, hP, hgrammar, hterminal⟩ := parser_eq_ok
  have hparse := (parse_of_writes hP hgrammar hterminal h hw).2
  rw [within, if_pos hdepth] at hparse
  exact parseSource_eq_ok_iff.mpr ⟨tokens, htokens, P, hparser, hparse⟩

/-- Two texts that are accepted are accepted one below the other, and the body is that of the first and then that of
the second. -/
theorem parseSource_append (file : String) {file₁ file₂ source₁ source₂ : String} {p₁ p₂ : Program}
    (h₁ : parseSource file₁ source₁ = .ok p₁) (h₂ : parseSource file₂ source₂ = .ok p₂) :
    parseSource file (source₁ ++ "\n" ++ source₂) = .ok ⟨p₁.body ++ p₂.body⟩ := by
  obtain ⟨tokens₁, htokens₁, hrow₁⟩ := exists_row_of_parseSource h₁
  obtain ⟨tokens₂, htokens₂, hrow₂⟩ := exists_row_of_parseSource h₂
  obtain ⟨f, g, last, hlast, htokens⟩ := exists_tokenize_append htokens₁ htokens₂ file
  obtain ⟨ts₁, hts₁, hbody₁⟩ := hrow₁ f
  obtain ⟨ts₂, hts₂, hbody₂⟩ := hrow₂ g
  obtain ⟨T, hT, hconversion⟩ := exists_tree_of_row (hts₁.append hts₂)
  obtain ⟨P, hparser, hP, hgrammar, hterminal⟩ := parser_eq_ok
  have htree := parseTree_of_forest hP hgrammar hterminal hT hlast
  refine parseSource_eq_ok_iff.mpr ⟨_, htokens, P, hparser, Parser.parse_eq_ok_iff.mpr ⟨T, htree, ?_⟩⟩
  calc ofTree T = mk <$> (ts₁ ++ ts₂).mapM (Stmt.ofTree (depthLimit - 1)) := hconversion (depthLimit - 1)
    _ = .ok ⟨p₁.body ++ p₂.body⟩ := by
      rw [List.mapM_append, hbody₁, hbody₂]
      rfl

/-- A text that ends in a comment, and where an `else` could follow. -/
theorem parseSource_append_if :
    parseSource "" "if (a) \x7b \x7d // c" = .ok ⟨[.ifElse (.identifier "a") [] none]⟩ ∧
    parseSource "" "x;" = .ok ⟨[.expression (.identifier "x")]⟩ ∧
    parseSource "" ("if (a) \x7b \x7d // c" ++ "\n" ++ "x;") =
      .ok ⟨[.ifElse (.identifier "a") [] none, .expression (.identifier "x")]⟩ := by
  have hif : tokenize "" "if (a) \x7b \x7d // c" = .ok [⟨.ifWord, "if", none, ⟨"", 1, 1, 0⟩⟩,
      ⟨.leftParen, "(", none, ⟨"", 1, 4, 3⟩⟩, ⟨.identifier, "a", some (.text "a"), ⟨"", 1, 5, 4⟩⟩,
      ⟨.rightParen, ")", none, ⟨"", 1, 6, 5⟩⟩, ⟨.leftBrace, "\x7b", none, ⟨"", 1, 8, 7⟩⟩,
      ⟨.rightBrace, "\x7d", none, ⟨"", 1, 10, 9⟩⟩, ⟨.eof, "", none, ⟨"", 1, 16, 15⟩⟩] := by decide +kernel
  have hx : tokenize "" "x;" = .ok [⟨.identifier, "x", some (.text "x"), ⟨"", 1, 1, 0⟩⟩,
      ⟨.semicolon, ";", none, ⟨"", 1, 2, 1⟩⟩, ⟨.eof, "", none, ⟨"", 1, 3, 2⟩⟩] := by decide +kernel
  have h₁ : parseSource "" "if (a) \x7b \x7d // c" = .ok ⟨[.ifElse (.identifier "a") [] none]⟩ := by
    refine parseSource_of_writes ?_ (by decide) hif ?_
    · exact List.forall_mem_singleton.mpr (.ifElse .identifier (by simp) (by simp))
    · simp [Writes, render, Stmt.marksOf, Stmt.marks, Expr.marks, Mark.parens, Mark.braces, Mark.On]
  have h₂ : parseSource "" "x;" = .ok ⟨[.expression (.identifier "x")]⟩ := by
    refine parseSource_of_writes ?_ (by decide) hx ?_
    · exact List.forall_mem_singleton.mpr (.expression .identifier)
    · simp [Writes, render, Stmt.marksOf, Stmt.marks, Expr.marks, Mark.On]
  exact ⟨h₁, h₂, parseSource_append "" h₁ h₂⟩

end Program

end Lookahead
