import Lookahead.Proofs.Program.ComposeStmt
import Lookahead.Proofs.Program.RoundTrip
import Lookahead.Proofs.Result
import Lookahead.Proofs.Scan.Legible

/-! The programs that trees of the parser stand for. By induction on the tree, every node makes sense; so the
conversion gives a well-formed program, which is made of what the tokens give. -/
namespace Lookahead

open Script

/-! ## Leaves -/

theorem Token.Legible.numberValue_eq {t : Token} (ht : t.Legible) (hkind : t.kind = .number) :
    ∃ v, Expr.numberValue t = .ok v ∧ t.value.or ((Numeral.read? t.lexeme).map Value.number) = some v := by
  unfold Expr.numberValue
  cases hv : t.value with
  | some v => exact ⟨v, rfl, rfl⟩
  | none =>
    cases hr : Numeral.read? t.lexeme with
    | some x => exact ⟨.number x, rfl, rfl⟩
    | none => exact absurd (ht.number hkind) (by simp [hv, hr])

namespace Script

theorem kind_of_terminalOf_eq {t : Token} (ht : t.Legible) (h : terminalOf t = endMarker) : t.kind = .eof := by
  obtain ⟨kind, lexeme, value, location⟩ := t
  cases kind with
  | eof => rfl
  | other name => exact absurd ht.kind_mem (by simp [Kind.all])
  | operator =>
    have hclass : operatorClass lexeme = endMarker := h
    unfold operatorClass at hclass
    split_ifs at hclass <;> first
      | exact absurd hclass (Symbol.name_ne_endMarker _)
      | exact absurd hclass (by decide)
  | _ =>
    rw [terminalOf] at h
    exact absurd h (Symbol.name_ne_endMarker _)

/-- The leaf of a token makes sense, wherever the token stands. -/
theorem exists_sense_leaf {s : Symbol} {k : Token} (hs : s ∈ Symbol.terminals) (hk : terminalOf k = s.name)
    (hlegible : k.Legible) : ∃ p, Sense s p ∧ Mark.contents p.marks = k.content?.toList ∧
      ∀ l : Location, p.fact (.leaf s.name { k with location := l }) := by
  obtain ⟨kind, lexeme, value, location⟩ := k
  cases kind with
  | eof => exact absurd hk.symm (Symbol.name_ne_endMarker s)
  | other name => exact absurd hlegible.kind_mem (by simp [Kind.all])
  | identifier =>
    rw [terminalOf, Symbol.name_inj] at hk
    subst hk
    exact ⟨.named lexeme, ⟨lexeme, rfl⟩, rfl, fun _ => rfl⟩
  | number =>
    rw [terminalOf, Symbol.name_inj] at hk
    subst hk
    obtain ⟨v, hv, hvalue⟩ := hlegible.numberValue_eq rfl
    dsimp only at hvalue
    refine ⟨_, ⟨v, rfl⟩, by simp [Token.content?, hvalue], fun l _ i n => ?_⟩
    have hl : Expr.numberValue ⟨.number, lexeme, value, l⟩ = .ok v := hv
    simp [Expr.ofPrimary, Tree.leaf, Tree.children, Tree.symbol, Tree.token, hl]
  | string =>
    rw [terminalOf, Symbol.name_inj] at hk
    subst hk
    refine ⟨_, ⟨value.getD (.text lexeme), rfl⟩, by cases value <;> rfl, fun l _ i n => ?_⟩
    simp [Expr.ofPrimary, Tree.leaf, Tree.children, Tree.symbol, Tree.token, Expr.stringValue]
    rfl
  | operator =>
    have hclass : operatorClass lexeme = s.name := hk
    have hmem := mem_operators hclass
    refine ⟨.operator s lexeme, ?_, rfl, fun _ => rfl⟩
    cases s <;> first
      | exact ⟨lexeme, rfl, hclass⟩
      | exact absurd hmem List.not_mem_nil
  | _ =>
    rw [terminalOf, Symbol.name_inj] at hk
    subst hk
    exact ⟨_, rfl, rfl, fun _ => rfl⟩

/-! ## Forests -/

theorem Facts.take_drop {parts rest : List Part} {F : List Tree} (h : Facts (parts ++ rest) F) :
    Facts parts (F.take parts.length) ∧ Facts rest (F.drop parts.length) := by
  induction parts generalizing F with
  | nil => exact ⟨rfl, h⟩
  | cons p parts ih =>
    obtain ⟨T, G, rfl, hT, hG⟩ := h
    obtain ⟨htake, hdrop⟩ := ih hG
    exact ⟨⟨T, _, rfl, hT, htake⟩, hdrop⟩

/-- What a forest over the symbols stands for: parts that make sense, made of what the tokens give, of which the trees
are as they say, wherever the tokens stand. -/
structure Stands (l : List Symbol) (w : List Token) (F : List Tree) (parts : List Part) : Prop where
  senses : List.Forall₂ Sense l parts
  contents_eq : Mark.contents (parts.flatMap Part.marks) = w.filterMap Token.content?
  facts : ∀ f, Facts parts (F.map (Tree.relocate f))

variable {l : List Symbol} {w : List Token} {F : List Tree}

theorem Stands.leaf {s : Symbol} {k : Token} {parts : List Part} (hs : s ∈ Symbol.terminals)
    (hk : terminalOf k = s.name) (hlegible : k.Legible) (h : Stands l w F parts) :
    ∃ parts, Stands (s :: l) (k :: w) (.leaf s.name k :: F) parts := by
  obtain ⟨p, hp, hcontents, hfact⟩ := exists_sense_leaf hs hk hlegible
  refine ⟨p :: parts, .cons hp h.senses, ?_, fun f => ⟨_, _, List.map_cons, ?_, h.facts f⟩⟩
  · rw [List.flatMap_cons, Mark.contents_append, hcontents, h.contents_eq, List.filterMap_cons]
    cases k.content? <;> rfl
  · rw [Tree.relocate_leaf]
    exact hfact _

/-- The step of the induction: a rule makes sense of the node over the first trees of the forest. -/
theorem Stands.node {r : Symbol × List Symbol} {parts : List Part} {i : Int} (hr : r ∈ rules)
    (hF : F.map Tree.symbol = (r.2 ++ l).map Symbol.name) (h : Stands (r.2 ++ l) w F parts) :
    ∃ parts, Stands (r.1 :: l) w (.node r.1.name (some i) none (F.take r.2.length) :: F.drop r.2.length) parts := by
  obtain ⟨ps, qs, rfl, hps, hqs⟩ := exists_forall₂_append h.senses
  obtain ⟨Q, hQ, hmakes⟩ := (composes_of_mem r hr).apply hps
  have hlength : r.2.length = ps.length := hps.length_eq
  refine ⟨⟨r.1, ps.flatMap Part.marks, Q⟩ :: qs, .cons hQ hqs, ?_, fun f => ?_⟩
  · rw [← h.contents_eq, List.flatMap_cons, List.flatMap_append]
  · obtain ⟨htake, hdrop⟩ := (h.facts f).take_drop
    rw [← hlength, ← List.map_take] at htake
    rw [← hlength, ← List.map_drop] at hdrop
    refine ⟨_, _, List.map_cons, ?_, hdrop⟩
    rw [Tree.relocate_node]
    refine hmakes i _ ?_ htake
    rw [List.map_map, show Tree.symbol ∘ Tree.relocate f = Tree.symbol from funext Tree.symbol_relocate, List.map_take,
      hF, List.map_append, List.take_left' (List.length_map _)]

/-- Every forest stands for something. The induction is on the forest, from the last tree to the first. -/
theorem exists_stands (hw : ∀ t ∈ w, t.Legible) (h : Forest l w F) : ∃ parts, Stands l w F parts := by
  unfold Forest at h
  generalize hσ : l.map Symbol.name = σ at h
  induction h generalizing l with
  | nil =>
    obtain rfl := List.map_eq_nil_iff.mp hσ
    exact ⟨[], .nil, rfl, fun _ => rfl⟩
  | leaf hs hk _ ih =>
    obtain ⟨s, l, rfl, rfl, rfl⟩ := List.map_eq_cons_iff.mp hσ
    rw [List.forall_mem_cons] at hw
    obtain ⟨parts, h⟩ := ih hw.2 rfl
    exact h.leaf (name_mem_terminals.mp hs) hk hw.1
  | @node p σ w F hp hF ih =>
    obtain ⟨s, l, rfl, hs, rfl⟩ := List.map_eq_cons_iff.mp hσ
    obtain ⟨r, hr, hlhs, hbody⟩ := exists_rule hp
    obtain rfl : r.1 = s := Symbol.name_injective (hlhs.symm.trans hs.symm)
    rw [hbody, ← List.map_append] at hF
    obtain ⟨parts, h⟩ := ih hw (by rw [hbody, List.map_append])
    have hnode := h.node (i := p.id) hr hF.symbols
    rwa [hlhs, hbody, List.length_map]

end Script

/-! ## Programs -/

theorem Parser.parse_eq_ok_iff {P : Parser} {tokens : List Token} {p : Program} :
    P.parse tokens = .ok p ↔ ∃ T, P.parseTree tokens = .ok T ∧ Program.ofTree T = .ok p := by
  simp only [Parser.parse, bind_eq_ok_iff, mapError_eq_ok_iff]

theorem parseSource_eq_ok_iff {file source : String} {p : Program} : parseSource file source = .ok p ↔
    ∃ tokens, tokenize file source = .ok tokens ∧ ∃ P, Script.parser = .ok P ∧ P.parse tokens = .ok p := by
  simp only [parseSource, bind_eq_ok_iff, mapError_eq_ok_iff]

namespace Program

variable {w : List Token} {T : Tree}

/-- The conversion of a tree of the language, wherever its tokens stand. -/
theorem exists_gives (hw : ∀ t ∈ w, t.Legible) (h : Forest [.program] w [T]) : ∃ p d, WellFormed p ∧
    p.contents = w.filterMap Token.content? ∧ ∀ f, Gives ofTreeWithin d p (T.relocate f) := by
  obtain ⟨parts, hstands⟩ := exists_stands hw h
  obtain ⟨hsenses, hcontents, hfacts⟩ := hstands
  cases hsenses with
  | cons hp hnil =>
    cases hnil
    obtain ⟨m, d, p, rfl, hp, hm⟩ := hp
    refine ⟨p, d, hp, ?_, fun f => ?_⟩
    · rw [← hm, ← hcontents]
      simp
    · obtain ⟨_, _, ⟨⟩, hT, -⟩ := hfacts f
      exact hT

/-- The places of the tokens do not matter. -/
theorem ofTreeWithin_relocate (hw : ∀ t ∈ w, t.Legible) (h : Forest [.program] w [T]) (f : Location → Location)
    (limit : ℕ) : ofTreeWithin limit (T.relocate f) = ofTreeWithin limit T := by
  obtain ⟨p, d, -, -, hgives⟩ := exists_gives hw h
  have hid := hgives id limit
  rw [Tree.relocate_id] at hid
  rw [hgives f limit, hid]

theorem exists_gives_of_parseTree {P : Parser} (hP : Script.parser = .ok P) {tokens : List Token}
    (htokens : ∀ t ∈ tokens, t.Legible) (hT : P.parseTree tokens = .ok T) : ∃ p d, WellFormed p ∧
      p.contents = tokens.filterMap Token.content? ∧ Gives ofTreeWithin d p T := by
  obtain ⟨w, last, rfl, hlast, hforest⟩ := forest_of_parseTree hP hT
  rw [List.forall_mem_append, List.forall_mem_singleton] at htokens
  obtain ⟨p, d, hp, hcontents, hgives⟩ := exists_gives htokens.1 hforest
  have hkind : last.kind = .eof := kind_of_terminalOf_eq htokens.2 hlast
  refine ⟨p, d, hp, ?_, T.relocate_id ▸ hgives id⟩
  have hnone : last.content? = none := by rw [Token.content?, hkind]
  rw [hcontents, List.filterMap_append, List.filterMap_cons_none hnone, List.filterMap_nil, List.append_nil]

/-- The program `let x = (a - 1.5) * -f("s");`. -/
def scaling : Program :=
  ⟨[.varDecl false "x" (some (.binary (.binary (.identifier "a") "-" (.number (.number (.ofQuotient false 3 2)))) "*"
    (.unary "-" (.call (.identifier "f") [.string (.text "s")]))))]⟩

theorem scaling_wellFormed : scaling.WellFormed := by
  refine List.forall_mem_singleton.mpr (.varDecl (fun h => nomatch h) ?_)
  rintro e ⟨⟩
  exact .binary (by decide) (.binary (by decide) .identifier .number)
    (.unary (by decide) (.call .identifier (List.forall_mem_singleton.mpr .string)))

theorem parse_scaling : ∃ P, Script.parser = .ok P ∧ (∃ T, P.parseTree (scaling.render.map Mark.token) = .ok T ∧
    ∀ limit, ofTreeWithin limit T = within scaling.depth limit (.ok scaling)) ∧
      P.parse (scaling.render.map Mark.token) = .ok scaling := by
  obtain ⟨P, hparser, hP, hgrammar, hterminal⟩ := parser_eq_ok
  obtain ⟨htree, hparse⟩ :=
    parse_of_writes hP hgrammar hterminal scaling_wellFormed (writes_tokens scaling.render)
  exact ⟨P, hparser, htree, hparse⟩

/-- A tree of the parser always converts, if the conversion may nest as deep as the tree needs, and the program is
well-formed. -/
theorem parseTree_converts : ∃ P, Script.parser = .ok P ∧ ∀ tokens T, (∀ t ∈ tokens, t.Legible) →
    P.parseTree tokens = .ok T → ∃ p d, WellFormed p ∧
      ∀ limit, ofTreeWithin limit T = if d ≤ limit then .ok p else .error tooDeep := by
  obtain ⟨P, hP, -⟩ := parser_eq_ok
  refine ⟨P, hP, fun tokens T htokens hT => ?_⟩
  obtain ⟨p, d, hp, -, hgives⟩ := exists_gives_of_parseTree hP htokens hT
  exact ⟨p, d, hp, hgives⟩

theorem parseTree_converts_scaling : (∀ t ∈ scaling.render.map Mark.token, t.Legible) ∧ ∃ P T,
    Script.parser = .ok P ∧ P.parseTree (scaling.render.map Mark.token) = .ok T ∧ WellFormed scaling ∧
      scaling.depth = 14 ∧ ∀ limit, ofTreeWithin limit T = if 14 ≤ limit then .ok scaling else .error tooDeep := by
  have hlegible : ∀ t ∈ scaling.render.map Mark.token, t.Legible := by decide +kernel
  have hdepth : scaling.depth = 14 := by decide +kernel
  obtain ⟨P, hP, hconverts⟩ := parseTree_converts
  obtain ⟨P', hP', ⟨T, hT, hscaling⟩, -⟩ := parse_scaling
  obtain rfl : P = P' := Except.ok.inj (hP.symm.trans hP')
  obtain ⟨p, d, hp, hgives⟩ := hconverts _ T hlegible hT
  rw [hdepth] at hscaling
  -- At a limit that is enough for both, the two programs are the same.
  have hsame := (hgives (max d 14)).symm.trans (hscaling (max d 14))
  rw [if_pos (le_max_left d 14), within, if_pos (le_max_right d 14)] at hsame
  obtain rfl : p = scaling := Except.ok.inj hsame
  exact ⟨hlegible, P, T, hP, hT, hp, hdepth, hscaling⟩

/-- What an accepted list of tokens gives is in the program, once each and in order. -/
theorem contents_parse : ∃ P, Script.parser = .ok P ∧ ∀ tokens p, (∀ t ∈ tokens, t.Legible) →
    P.parse tokens = .ok p → p.contents = tokens.filterMap Token.content? := by
  obtain ⟨P, hP, -⟩ := parser_eq_ok
  refine ⟨P, hP, fun tokens p htokens hparse => ?_⟩
  obtain ⟨T, hT, hconversion⟩ := Parser.parse_eq_ok_iff.mp hparse
  obtain ⟨q, d, -, hcontents, hgives⟩ := exists_gives_of_parseTree hP htokens hT
  rw [ofTree, hgives, within] at hconversion
  split at hconversion
  · obtain rfl : q = p := Except.ok.inj hconversion
    exact hcontents
  · cases hconversion

theorem contents_parse_scaling : (∀ t ∈ scaling.render.map Mark.token, t.Legible) ∧ ∃ P,
    Script.parser = .ok P ∧ P.parse (scaling.render.map Mark.token) = .ok scaling ∧
      scaling.contents = (scaling.render.map Mark.token).filterMap Token.content? ∧
      scaling.contents = [.lexeme "x", .lexeme "a", .lexeme "-", .value (.number (.ofQuotient false 3 2)), .lexeme "*",
        .lexeme "-", .lexeme "f", .value (.text "s")] := by
  have hlegible : ∀ t ∈ scaling.render.map Mark.token, t.Legible := by decide +kernel
  obtain ⟨P, hP, hcontents⟩ := contents_parse
  obtain ⟨P', hP', -, hparse⟩ := parse_scaling
  obtain rfl : P = P' := Except.ok.inj (hP.symm.trans hP')
  exact ⟨hlegible, P, hP, hparse, hcontents _ _ hlegible hparse, rfl⟩

end Program
end Lookahead
