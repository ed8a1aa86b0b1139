import Lookahead.Proofs.Program.Congruence
import Lookahead.Proofs.Program.Place
import Lookahead.Proofs.Program.RoundTrip

/-! Punctuation that can be left out: parentheses around an expression, and a comma after the last entry of a list.
Where it is put in, the tree changes in alike nodes only. -/
namespace Lookahead

theorem insertIdx_append {α : Type} (l m : List α) (a : α) : (l ++ m).insertIdx l.length a = l ++ a :: m := by
  induction l with
  | nil => rfl
  | cons b l ih => rw [List.cons_append, List.length_cons, List.insertIdx_succ_cons, ih, List.cons_append]

namespace Script
variable {s : Symbol} {w w' : List Token} {k opening closing : Token} {E L N N' : Tree}

theorem Forest.similar (hs : s ∈ Symbol.nonterminals) (h : Forest [s] w [N]) (h' : Forest [s] w' [N'])
    (hleaf : N.isLeaf = N'.isLeaf) : N.Similar N' := by
  obtain ⟨_, _, _, -, rfl, -⟩ := h.exists_rule hs
  obtain ⟨_, _, _, -, rfl, -⟩ := h'.exists_rule hs
  exact ⟨rfl, rfl, hleaf⟩

/-! ## Parentheses -/

/-- One rung up, with nothing beside the operand. -/
theorem Forest.exists_rung {r : Rank} (hr : r ≠ .primary) (h : Forest [r.next.symbol] w [N]) :
    ∃ E, Forest [r.symbol] w [E] ∧ E.core = N.core ∧ E.At 0 N := by
  have hrule : (r.symbol, r.next.symbol :: r.rest) ∈ rules := by cases r <;> first | decide | exact absurd rfl hr
  have hshape : wrapperShape? r.symbol = some (r.next.symbol :: r.rest, 0) := by
    cases r <;> first | rfl | exact absurd rfl hr
  obtain ⟨G, hG, hleaves⟩ := exists_empties (by cases r <;> decide : ∀ s ∈ r.rest, (s, []) ∈ rules)
  obtain ⟨i, hE⟩ := forest_node hrule (h.cons hG)
  rw [List.append_nil] at hE
  refine ⟨_, hE, Tree.core_of_some ?_, Tree.at_first ..⟩
  rw [Tree.wrapped?_node (by cases r <;> decide) (h.cons hG).symbols, hshape, Option.bind_some]
  exact if_pos ⟨rfl, hleaves⟩

/-- A primary expression stands under all looser rungs. -/
theorem Forest.exists_rank (r : Rank) (h : Forest [.primaryExpr] w [N]) :
    ∃ E, Forest [r.symbol] w [E] ∧ E.core = N.core ∧ E.At 0 N := by
  refine Rank.of_looser (motive := fun r => ∃ E, Forest [r.symbol] w [E] ∧ E.core = N.core ∧ E.At 0 N) ?_
    r.index_le_primary ⟨N, h, rfl, .here N⟩
  intro r hr ⟨E, hE, hcore, hplace⟩
  obtain ⟨E', hE', hcore', hplace'⟩ := hE.exists_rung hr
  exact ⟨E', hE', hcore'.trans hcore, hplace'.trans hplace⟩

theorem Forest.exists_expr (h : Forest [.primaryExpr] w [N]) :
    ∃ E, Forest [.expr] w [E] ∧ E.core = N.core ∧ E.At 0 N := by
  obtain ⟨A, hA, hcore, hplace⟩ := h.exists_rank .assignment
  obtain ⟨i, hE⟩ := forest_node (s := .expr) (by decide) hA
  refine ⟨_, hE, (Tree.core_of_some ?_).trans hcore, (Tree.at_first ..).trans hplace⟩
  rw [Tree.wrapped?_node (by decide) hA.symbols]
  rfl

theorem Forest.exists_group (hopening : terminalOf opening = Symbol.leftParen.name)
    (hclosing : terminalOf closing = Symbol.rightParen.name) (h : Forest [.expr] w [E]) :
    ∃ N, Forest [.primaryExpr] (opening :: (w ++ [closing])) [N] ∧ N.core = E.core := by
  have hF : Forest groupShape (opening :: (w ++ [closing])) _ :=
    (forest_leaf (by decide) hopening).cons (h.cons (forest_leaf (by decide) hclosing))
  obtain ⟨i, hN⟩ := forest_node (s := .primaryExpr) (by decide) hF
  refine ⟨_, hN, Tree.core_of_some ?_⟩
  rw [Tree.wrapped?_node (by decide) hF.symbols]
  rfl

/-- Every expression that can stand in parentheses where it is has an alike one that does. -/
theorem Forest.exists_alike_group (hs : s ∈ Tree.grouped) (hopening : terminalOf opening = Symbol.leftParen.name)
    (hclosing : terminalOf closing = Symbol.rightParen.name) (h : Forest [s] w [N]) :
    ∃ N', Forest [s] (opening :: (w ++ [closing])) [N'] ∧ N.Alike N' := by
  have hrules := (by decide : ∀ s ∈ Tree.grouped, s ∈ Symbol.nonterminals ∧ (s, []) ∉ rules) s hs
  have hgroup : ∃ N', Forest [s] (opening :: (w ++ [closing])) [N'] ∧ N'.core = N.core := by
    obtain rfl | rfl := List.mem_pair.mp hs
    · obtain ⟨G, hG, hcore⟩ := h.exists_group hopening hclosing
      obtain ⟨N', hN', hcore', -⟩ := hG.exists_expr
      exact ⟨N', hN', hcore'.trans hcore⟩
    · obtain ⟨E, hE, hcore, -⟩ := h.exists_expr
      obtain ⟨N', hN', hcore'⟩ := hE.exists_group hopening hclosing
      exact ⟨N', hN', hcore'.trans hcore⟩
  obtain ⟨N', hN', hcore⟩ := hgroup
  have hleaf := (h.isLeaf_eq_false hrules.1 hrules.2).trans (hN'.isLeaf_eq_false hrules.1 hrules.2).symm
  exact ⟨N', hN', .wrapped (h.similar hrules.1 hN' hleaf) hs h.symbol hcore.symm⟩

/-! ## Commas -/

/-- What the rules of such a list and of its tail are. -/
structure ListRules (list item tail : Symbol) : Prop where
  list_mem : list ∈ Symbol.nonterminals
  tail_mem : tail ∈ Symbol.nonterminals
  list_cases : ∀ r ∈ rules, r.1 = list → r.2 = [item, tail] ∨ r.2 = []
  tail_cases : ∀ r ∈ rules, r.1 = tail → r.2 = [.comma, list] ∨ r.2 = []
  cons : (list, [item, tail]) ∈ rules
  comma : (tail, [.comma, list]) ∈ rules
  nil : (list, []) ∈ rules
  last : (tail, []) ∈ rules

theorem listRules {p : Symbol × Symbol × Symbol} (h : p ∈ Tree.lists) : ListRules p.1 p.2.1 p.2.2 := by
  obtain rfl | rfl := List.mem_pair.mp h <;> exact ⟨by decide, by decide, by decide, by decide, by decide, by decide,
    by decide, by decide⟩

/-- The induction is on the lists within the list. -/
theorem Forest.exists_comma {list item tail : Symbol} (hl : ListRules list item tail)
    (hk : terminalOf k = Symbol.comma.name) (hw : w ≠ [])
    (hlast : ∀ u e, w = u ++ [e] → terminalOf e ≠ Symbol.comma.name) (h : Forest [list] w [L]) :
    ∃ L', Forest [list] (w ++ [k]) [L'] ∧ L.isLeaf = L'.isLeaf ∧
      L.entries list item tail = L'.entries list item tail := by
  induction hsize : sizeOf L using Nat.strong_induction_on generalizing w L with
  | _ n ih =>
    obtain ⟨l, i, F, hrule, rfl, hF⟩ := h.exists_rule hl.list_mem
    obtain rfl | rfl := hl.list_cases _ hrule rfl
    · obtain ⟨v, w, A, _, rfl, rfl, hA, hF⟩ := hF.exists_cons
      obtain ⟨t, rfl, -⟩ := List.map_eq_singleton_iff.mp hF.symbols
      obtain ⟨l, j, G, hrule, rfl, hG⟩ := hF.exists_rule hl.tail_mem
      obtain rfl | rfl := hl.tail_cases _ hrule rfl
      · obtain ⟨x, w, c, _, rfl, rfl, hc, hG⟩ := hG.exists_cons
        obtain ⟨R, rfl, -⟩ := List.map_eq_singleton_iff.mp hG.symbols
        have hR : w ≠ [] := by
          rintro rfl
          obtain ⟨e, rfl, he, -⟩ := hc.exists_leaf (by decide)
          exact hlast v e (by simp) he
        have hlast' : ∀ u e, w = u ++ [e] → terminalOf e ≠ Symbol.comma.name :=
          fun u e heq => hlast (v ++ x ++ u) e (by simp [heq])
        obtain ⟨R', hR', -, hentries⟩ := ih _ (by simp at hsize; omega) hR hlast' hG rfl
        obtain ⟨j', ht⟩ := forest_node hl.comma (hc.cons hR')
        obtain ⟨i', hL⟩ := forest_node hl.cons (hA.cons ht)
        refine ⟨.node list.name (some i') none [A, .node tail.name (some j') none [c, R']], by simpa using hL, rfl, ?_⟩
        rw [Tree.entries_node (hA.cons hF).symbols (hc.cons hG).symbols,
          Tree.entries_node (hA.cons ht).symbols (hc.cons hR').symbols, hentries]
      · cases hG
        obtain ⟨m, hR⟩ := forest_node hl.nil .nil
        have hc := forest_leaf (by decide) hk
        obtain ⟨j', ht⟩ := forest_node hl.comma (hc.cons hR)
        obtain ⟨i', hL⟩ := forest_node hl.cons (hA.cons ht)
        refine ⟨.node list.name (some i') none [A, .node tail.name (some j') none [.leaf Symbol.comma.name k,
          .node list.name (some m) none []]], by simpa using hL, rfl, ?_⟩
        rw [Tree.entries_last (hA.cons hF).symbols rfl,
          Tree.entries_node (hA.cons ht).symbols (hc.cons hR).symbols, Tree.entries_of_isLeaf _ _ _ rfl]
    · cases hF
      exact absurd rfl hw

def brackets : List (Symbol × Symbol) := [(.leftBrace, .rightBrace), (.leftBracket, .rightBracket)]

/-- A literal with entries and no comma after them has an alike one with a comma. -/
theorem Forest.exists_alike_comma (hs : s ∈ [.objLiteral, .arrayLiteral]) (hk : terminalOf k = Symbol.comma.name)
    (h : Forest [s] w [N]) (hlength : 2 < w.length)
    (hlast : ∀ u e c, w = u ++ [e, c] → terminalOf e ≠ Symbol.comma.name) :
    ∃ u c, w = u ++ [c] ∧ ∃ N', Forest [s] (u ++ [k, c]) [N'] ∧ N.Alike N' := by
  have hrules : ∀ s ∈ [.objLiteral, .arrayLiteral], ∀ r ∈ rules, r.1 = s →
      ∃ p ∈ Tree.lists, ∃ b ∈ brackets, r.2 = [b.1, p.1, b.2] := by decide
  have hbrackets : ∀ b ∈ brackets, b.1 ∈ Symbol.terminals ∧ b.2 ∈ Symbol.terminals := by decide
  obtain ⟨l, i, F, hrule, rfl, hF⟩ :=
    h.exists_rule ((by decide : ∀ s ∈ [Symbol.objLiteral, .arrayLiteral], s ∈ Symbol.nonterminals) s hs)
  obtain ⟨p, hp, b, hb, hbody⟩ := hrules s hs _ hrule rfl
  obtain rfl : l = [b.1, p.1, b.2] := hbody
  obtain ⟨_, _, O, _, rfl, rfl, hO, hrest⟩ := hF.exists_cons
  obtain ⟨v, _, L, _, rfl, rfl, hL, hC⟩ := hrest.exists_cons
  obtain ⟨C, rfl, -⟩ := List.map_eq_singleton_iff.mp hC.symbols
  obtain ⟨o, rfl, -, rfl⟩ := hO.exists_leaf (hbrackets b hb).1
  obtain ⟨c, rfl, -, rfl⟩ := hC.exists_leaf (hbrackets b hb).2
  have hv : v ≠ [] := by
    rintro rfl
    simp at hlength
  have hlast' : ∀ u e, v = u ++ [e] → terminalOf e ≠ Symbol.comma.name :=
    fun u e heq => hlast (o :: u) e c (by simp [heq])
  obtain ⟨L', hL', hleaf, hentries⟩ := hL.exists_comma (listRules hp) hk hv hlast'
  have hsimilar := hL.similar (listRules hp).list_mem hL' hleaf
  obtain ⟨i', hN⟩ := forest_node hrule (hO.cons (hL'.cons hC))
  refine ⟨o :: v, c, by simp, .node s.name (some i') none ([.leaf b.1.name o] ++ L' :: [.leaf b.2.name c]),
    by simpa using hN, ?_⟩
  exact (Tree.Alike.list hsimilar hp hL.symbol hentries).inside [_] [_]

end Script

/-! ## Insertions -/

/-- The tokens with punctuation put in once: parentheses around an expression of their tree, or a comma behind the
last entry of a literal that has entries and no such comma. -/
inductive Parser.Punctuates (P : Parser) (tokens : List Token) : List Token → Prop
  | group {T N : Tree} {i : ℕ} {opening closing : Token} : P.parseTree tokens = .ok T → T.At i N →
      N.symbol ∈ Tree.grouped.map Script.Symbol.name → P.terminalOf opening = Script.Symbol.leftParen.name →
      P.terminalOf closing = Script.Symbol.rightParen.name →
      Punctuates P tokens ((tokens.insertIdx (i + N.leaves.length) closing).insertIdx i opening)
  | comma {T N : Tree} {i : ℕ} {e k : Token} : P.parseTree tokens = .ok T → T.At i N →
      N.symbol ∈ [Script.Symbol.objLiteral, .arrayLiteral].map Script.Symbol.name → 2 < N.leaves.length →
      tokens[i + N.leaves.length - 2]? = some e → P.terminalOf e ≠ Script.Symbol.comma.name →
      P.terminalOf k = Script.Symbol.comma.name →
      Punctuates P tokens (tokens.insertIdx (i + N.leaves.length - 1) k)

namespace Program

open Script

variable {P : Parser} {tokens tokens' : List Token} {T N : Tree} {i : ℕ}

/-- An alike node in the place of a node does not change the program. -/
theorem parse_replace (hP : parser = .ok P) (hT : P.parseTree tokens = .ok T) (hplace : T.At i N) :
    ∃ r before w after, tokens = before ++ w ++ after ∧ before.length = i ∧ w.length = N.leaves.length ∧
      Forest [r] w [N] ∧
        ∀ w' N', Forest [r] w' [N'] → N.Alike N' → P.parse (before ++ w' ++ after) = P.parse tokens := by
  obtain ⟨v, last, rfl, hlast, hforest⟩ := forest_of_parseTree hP hT
  obtain ⟨r, before, w, after, rfl, hi, hN, hreplace⟩ := hforest.replace hplace
  refine ⟨r, before, w, after ++ [last], by simp, hi, hN.length_leaves.symm, hN, fun w' N' hN' halike => ?_⟩
  obtain ⟨T', hT', hTT⟩ := hreplace w' N' hN' halike
  obtain ⟨P', hP', hvalid, hgrammar, hterminal⟩ := parser_eq_ok
  obtain rfl : P = P' := Except.ok.inj (hP.symm.trans hP')
  have htree := parseTree_of_forest_end hvalid hgrammar hterminal hT' hlast
  rw [← List.append_assoc, Parser.parse, Parser.parse, hT, htree]
  exact congrArg (Except.mapError Failure.conversion) (ofTreeWithin_eq_of_alike hTT depthLimit).symm

/-- What one insertion preserves. -/
theorem parse_eq_of_punctuates (hP : parser = .ok P) (h : P.Punctuates tokens tokens') :
    P.parse tokens' = P.parse tokens := by
  obtain ⟨P', hP', -, -, hterminal⟩ := parser_eq_ok
  obtain rfl : P = P' := Except.ok.inj (hP.symm.trans hP')
  cases h with
  | group hT hplace hs hopening hclosing =>
    rw [hterminal] at hopening hclosing
    obtain ⟨r, before, w, after, rfl, rfl, hlength, hN, hreplace⟩ := parse_replace hP hT hplace
    rw [hN.symbol, List.mem_map_of_injective Symbol.name_injective] at hs
    obtain ⟨N', hN', halike⟩ := hN.exists_alike_group hs hopening hclosing
    rw [← hreplace _ N' hN' halike, ← hlength, ← List.length_append, insertIdx_append, List.append_assoc,
      insertIdx_append]
    simp
  | comma hT hplace hs hlength hlast hne hk =>
    rw [hterminal] at hne hk
    obtain ⟨r, before, w, after, rfl, rfl, hw, hN, hreplace⟩ := parse_replace hP hT hplace
    rw [hN.symbol, List.mem_map_of_injective Symbol.name_injective] at hs
    have hlast' : ∀ u e c, w = u ++ [e, c] → terminalOf e ≠ Symbol.comma.name := by
      rintro u e c rfl
      have hindex : before.length + (u ++ [e, c]).length - 2 = (before ++ u).length := by
        rw [List.length_append, List.length_append]
        rfl
      rw [← hw, hindex, ← List.append_assoc, List.append_assoc _ [e, c], List.getElem?_append_right le_rfl,
        Nat.sub_self] at hlast
      exact Option.some.inj hlast ▸ hne
    obtain ⟨u, c, rfl, N', hN', halike⟩ := hN.exists_alike_comma hs hk (hw ▸ hlength) hlast'
    rw [← hreplace _ N' hN' halike, ← hw]
    have hplace : before.length + (u ++ [c]).length - 1 = (before ++ u).length := by simp
    rw [hplace, ← List.append_assoc, List.append_assoc _ [c], insertIdx_append]
    simp

/-- Any number of insertions, at any depth, leave what the tokens are parsed to. -/
theorem parse_eq_of_punctuated (hP : parser = .ok P) (h : Relation.ReflTransGen P.Punctuates tokens tokens') :
    P.parse tokens' = P.parse tokens := by
  induction h with
  | refl => rfl
  | tail _ hstep ih => exact (parse_eq_of_punctuates hP hstep).trans ih

/-- The program `[x];`. -/
def oneElement : Program := ⟨[.expression (.array [.identifier "x"])]⟩

theorem forest_mark (s : Symbol) (m : Mark) (h : s ∈ Symbol.terminals ∧ terminalOf m.token = s.name) :
    Forest [s] [m.token] [.leaf s.name m.token] := forest_leaf h.1 h.2

/-- The tree of `[x];`, with or without a comma behind the name. -/
theorem exists_array_statement {w : List Token} (h : Forest [.elementsTail] w [T]) : ∃ T E N,
    Forest [.program] ([.fixed .leftBracket, .name "x"].map Mark.token ++ w ++
      [.fixed .rightBracket, .fixed .semicolon].map Mark.token) [T] ∧
    T.At 0 E ∧ E.symbol = Symbol.expr.name ∧ E.leaves.length = w.length + 3 ∧
    T.At 0 N ∧ N.symbol = Symbol.arrayLiteral.name ∧ N.leaves.length = w.length + 3 := by
  have hname := forest_mark .identifier (.name "x") (by decide)
  obtain ⟨_, hx⟩ := forest_node (s := .primaryExpr) (by decide) hname
  obtain ⟨_, hitem, -, -⟩ := hx.exists_expr
  obtain ⟨_, helements⟩ := forest_node (s := .elements) (by decide) (hitem.cons h)
  have hopen := forest_mark .leftBracket (.fixed .leftBracket) (by decide)
  have hclose := forest_mark .rightBracket (.fixed .rightBracket) (by decide)
  obtain ⟨_, hN⟩ := forest_node (s := .arrayLiteral) (by decide) (hopen.cons (helements.cons hclose))
  obtain ⟨_, hprimary⟩ := forest_node (s := .primaryExpr) (by decide) hN
  obtain ⟨E, hE, -, hplace⟩ := hprimary.exists_expr
  have hend := forest_mark .semicolon (.fixed .semicolon) (by decide)
  obtain ⟨_, hexpr⟩ := forest_node (s := .exprStmt) (by decide) (hE.cons hend)
  obtain ⟨_, hstmt⟩ := forest_node (s := .stmt) (by decide) hexpr
  obtain ⟨_, hnil⟩ := forest_node (s := .stmtList) (by decide) .nil
  obtain ⟨_, hlist⟩ := forest_node (s := .stmtList) (by decide) (hstmt.cons hnil)
  obtain ⟨_, hT⟩ := forest_node (s := .program) (by decide) hlist
  refine ⟨_, E, _, by simpa using hT, ?_, hE.symbol, ?_, ?_, hN.symbol, ?_⟩
  · exact (Tree.at_first ..).trans ((Tree.at_first ..).trans ((Tree.at_first ..).trans (Tree.at_first ..)))
  · rw [hE.length_leaves]
    simp
  · exact (Tree.at_first ..).trans ((Tree.at_first ..).trans ((Tree.at_first ..).trans ((Tree.at_first ..).trans
      (hplace.trans (Tree.at_first ..)))))
  · rw [hN.length_leaves]
    simp

/-- From `[x];` to `([x,]);`. -/
theorem parse_eq_of_punctuated_array : ∃ P, parser = .ok P ∧
    Relation.ReflTransGen P.Punctuates
      ([.fixed .leftBracket, .name "x", .fixed .rightBracket, .fixed .semicolon, .fixed .eof].map Mark.token)
      ([.fixed .leftParen, .fixed .leftBracket, .name "x", .fixed .comma, .fixed .rightBracket, .fixed .rightParen,
        .fixed .semicolon, .fixed .eof].map Mark.token) ∧
    P.parse ([.fixed .leftParen, .fixed .leftBracket, .name "x", .fixed .comma, .fixed .rightBracket,
      .fixed .rightParen, .fixed .semicolon, .fixed .eof].map Mark.token) =
        .ok oneElement := by
  obtain ⟨P, hparser, hP, hgrammar, hterminal⟩ := parser_eq_ok
  obtain ⟨_, hlast⟩ := forest_node (s := .elementsTail) (by decide) .nil
  obtain ⟨_, hnil⟩ := forest_node (s := .elements) (by decide) .nil
  have hk := forest_mark .comma (.fixed .comma) (by decide)
  obtain ⟨_, hcomma⟩ := forest_node (s := .elementsTail) (by decide) (hk.cons hnil)
  obtain ⟨T, -, N, hT, -, -, -, hplaceN, hN, hlengthN⟩ := exists_array_statement hlast
  obtain ⟨T', E, -, hT', hplaceE, hE, hlengthE, -, -, -⟩ := exists_array_statement hcomma
  have htree := parseTree_of_forest_end hP hgrammar hterminal hT (rfl : terminalOf (Mark.token (.fixed .eof)) = _)
  have htree' := parseTree_of_forest_end hP hgrammar hterminal hT' (rfl : terminalOf (Mark.token (.fixed .eof)) = _)
  have hstep : P.Punctuates _ _ := .comma htree hplaceN (by rw [hN]; decide) (by rw [hlengthN]; decide)
    (e := Mark.token (.name "x")) (by rw [hlengthN]; rfl) (by rw [hterminal]; decide)
    (by rw [hterminal]; rfl : P.terminalOf (Mark.token (.fixed .comma)) = _)
  have hstep' : P.Punctuates _ _ := .group htree' hplaceE (by rw [hE]; decide)
    (by rw [hterminal]; rfl : P.terminalOf (Mark.token (.fixed .leftParen)) = _)
    (by rw [hterminal]; rfl : P.terminalOf (Mark.token (.fixed .rightParen)) = _)
  rw [hlengthN] at hstep
  rw [hlengthE] at hstep'
  have hpunctuated := (Relation.ReflTransGen.single hstep).tail hstep'
  have hx : oneElement.WellFormed :=
    List.forall_mem_singleton.mpr (.expression (.array (List.forall_mem_singleton.mpr .identifier)))
  have hparse := (parse_of_writes hP hgrammar hterminal hx (writes_tokens oneElement.render)).2
  exact ⟨P, hparser, hpunctuated, (parse_eq_of_punctuated hparser hpunctuated).trans hparse⟩

end Program
end Lookahead
