import Lookahead.Proofs.Program.Sense

/-! The rules for expressions make sense. A tail of a chain is read from its end, as what it does to any operand; the
node of the chain puts the operand under it. -/
namespace Lookahead

open Script

/-! ## Operators -/

/-- The operators of a class. -/
def Script.Symbol.operators : Symbol → List String
  | .addOp => additiveOperators
  | .mulOp => multiplicativeOperators
  | .compOp => comparisonOperators
  | .notOp => unaryOnlyOperators
  | _ => []

theorem Script.mem_operators {s : Symbol} {o : String} (h : operatorClass o = s.name) : o ∈ s.operators := by
  have hnone : ∀ s : Symbol, s.name ≠ unknownOperator := by intro s; cases s <;> decide
  unfold operatorClass at h
  simp only [List.contains_iff_mem] at h
  split_ifs at h with hadd hmul hcomp hnot
  · exact Symbol.name_injective h ▸ hadd
  · exact Symbol.name_injective h ▸ hmul
  · exact Symbol.name_injective h ▸ hcomp
  · exact Symbol.name_injective h ▸ hnot
  · exact absurd h.symm (hnone s)

theorem Level.mem_binaryOperators {l : Level} {o : String} (h : operatorClass o = l.symbol.name) :
    o ∈ binaryOperators := by
  have hclass := mem_operators h
  cases l with
  | comparison => exact List.mem_append_left _ (List.mem_append_left _ hclass)
  | additive => exact List.mem_append_left _ (List.mem_append_right _ hclass)
  | multiplicative => exact List.mem_append_right _ hclass

/-! ## Expressions -/

variable {l : Level} {C : Chain} {p q : Part}

/-- The tree of the part is the expression `e` for the conversion, whatever else is known of it. -/
structure Expr.Stands (e : Expr) (d : ℕ) (p : Part) : Prop where
  wellFormed : e.WellFormed
  contents_eq : Mark.contents p.marks = e.contents
  gives : ∀ T, p.fact T → Gives ofTree d e T

theorem Denotes.exists_stands {s : Symbol} (h : Denotes s (Gives Expr.ofTree) Expr.WellFormed Expr.contents p) :
    ∃ e d, Expr.Stands e d p := by
  obtain ⟨m, d, e, rfl, he, hm⟩ := h
  exact ⟨e, d, he, hm, fun _ hT => hT⟩

theorem Level.Sense.exists_stands (h : l.Sense p) : ∃ e d, Expr.Stands e d p := by
  obtain ⟨m, d, a, f, da, df, c, rfl, ha, hf, hm⟩ := h
  obtain ⟨hwf, hc⟩ := hf a ha
  exact ⟨f a, d, hwf, hm.trans hc.symm, fun _ hT => hT.1⟩

/-! ## Chains -/

namespace Chain

theorem TailSense.exists_turns (h : C.TailSense p) :
    ∃ f d, Extends f (Mark.contents p.marks) ∧ ∀ R, p.fact R → C.Turns f d R := by
  obtain rfl | ⟨m, f, d, rfl, hf⟩ := h
  · exact ⟨id, 0, extends_id, fun _ hR => turns_of_isLeaf hR⟩
  · exact ⟨f, d, hf, fun _ hR => hR.2⟩

/-- An operand under a tail, empty or not. -/
theorem exists_makes {e : Expr} {d : ℕ} (hp : e.Stands d p) (hq : C.TailSense q) :
    ∃ f df dT, Extends f (Mark.contents q.marks) ∧ (∀ R, q.fact R → C.Turns f df R) ∧
      Makes (C.rank.symbol, [C.rank.next.symbol, C.tail]) [p, q] (Gives Expr.ofTree dT (f e)) := by
  obtain rfl | ⟨m, f, df, rfl, hf⟩ := hq
  · have hrank : C.rank ≠ .primary := (C.rank_ne _ (by decide)).symm
    have hrest : C.rank.rest = [C.tail] := by rcases C with l | _ | _ <;> first | rfl | cases l <;> rfl
    have hmakes := Expr.makes_rung (m := p.marks) (e := e) (d := d) hrank
    rw [hrest] at hmakes
    exact ⟨id, 0, d, extends_id, fun _ hR => turns_of_isLeaf hR, hmakes.of_imp hp.gives⟩
  · exact ⟨f, df, _, hf, fun _ hR => hR.2, (makes_head (m := p.marks)).of_imp hp.gives⟩

theorem composes_head (hp : ∃ e d, Expr.Stands e d p) (hq : C.TailSense q) :
    ∃ Q, Denotes C.rank.symbol (Gives Expr.ofTree) Expr.WellFormed Expr.contents
      ⟨C.rank.symbol, [p, q].flatMap Part.marks, Q⟩ ∧ Makes (C.rank.symbol, [C.rank.next.symbol, C.tail]) [p, q] Q := by
  obtain ⟨e, d, hp⟩ := hp
  obtain ⟨f, -, dT, hf, -, hmakes⟩ := exists_makes hp hq
  obtain ⟨hfe, hfc⟩ := hf e hp.wellFormed
  exact ⟨_, ⟨_, _, _, rfl, hfe, by simp [hp.contents_eq, hfc]⟩, hmakes⟩

theorem composes_callTail : Composes (.callTail, [.leftParen, .args, .rightParen, .callTail]) := by
  rintro _ rfl _ ⟨m, d, args, rfl, hargs, hm⟩ _ rfl q hq
  obtain ⟨f, df, hf, hR⟩ := TailSense.exists_turns hq
  have hstep : Extends (fun e => .call e args) (Expr.contentsOf args) := fun e he =>
    ⟨.call he hargs, by rw [Expr.contents]⟩
  exact ⟨_, Or.inr ⟨_, _, _, rfl, by simpa [hm] using hf.comp hstep⟩, makes_call hR⟩

theorem composes_named : Composes (.memberTail, [.dot, .identifier, .memberTail]) := by
  rintro _ rfl _ ⟨x, rfl⟩ q hq
  obtain ⟨f, df, hf, hR⟩ := TailSense.exists_turns hq
  have hstep : Extends (fun e => .member e (.identifier x) false) [.lexeme x] := fun e he =>
    ⟨.named he, by rw [Expr.contents, Expr.contents]⟩
  exact ⟨_, Or.inr ⟨_, _, _, rfl, by simpa using hf.comp hstep⟩, makes_named hR⟩

theorem composes_computed : Composes (.memberTail, [.leftBracket, .expr, .rightBracket, .memberTail]) := by
  rintro _ rfl _ ⟨m, d, p, rfl, hp, hm⟩ _ rfl q hq
  obtain ⟨f, df, hf, hR⟩ := TailSense.exists_turns hq
  have hstep : Extends (fun e => .member e p true) p.contents := fun e he =>
    ⟨.computed he hp, by rw [Expr.contents]⟩
  exact ⟨_, Or.inr ⟨_, _, _, rfl, by simpa [hm] using hf.comp hstep⟩, makes_computed hR⟩

end Chain

namespace Level

theorem composes_head (hp : ∃ e d, Expr.Stands e d p) (hq : (Chain.operations l).TailSense q) :
    ∃ Q, l.Sense ⟨l.chain, [p, q].flatMap Part.marks, Q⟩ ∧ Makes (l.chain, [l.operand, l.tail]) [p, q] Q := by
  obtain ⟨e, d, hp⟩ := hp
  obtain ⟨f, df, dT, hf, hR, hmakes⟩ := Chain.exists_makes hp hq
  have hchained : Makes (l.chain, [l.operand, l.tail]) [p, q] (l.Chained d e f df) :=
    (Chain.makes_chained (m := p.marks) hR).of_imp hp.gives
  refine ⟨_, ⟨_, dT, e, f, d, df, _, rfl, hp.wellFormed, hf, by simp [hp.contents_eq]⟩, fun i F hF hfacts => ⟨?_, ?_⟩⟩
  · cases l <;> exact hmakes i F hF hfacts
  · exact hchained i F hF hfacts

theorem composes_operation {o : String} (ho : operatorClass o = l.symbol.name) (hp : l.Sense p) :
    ∃ Q, (Chain.operations l).TailSense ⟨l.tail, [.operator l.symbol o, p].flatMap Part.marks, Q⟩ ∧
      Makes (l.tail, [l.symbol, l.chain]) [.operator l.symbol o, p] Q := by
  obtain ⟨m, d, a, f, da, df, c, rfl, ha, hf, hm⟩ := hp
  have hstep : Extends (fun e => .binary e o a) (.lexeme o :: a.contents) := fun e he =>
    ⟨.binary (mem_binaryOperators ho) he ha, by rw [Expr.contents]⟩
  refine ⟨_, Or.inr ⟨_, _, _, rfl, ?_⟩, Chain.makes_operation fun T hT => hT.2⟩
  simpa [hm] using hf.comp hstep

end Level

/-! ## Rules with nothing on the right -/

theorem Script.composes_nil {s : Symbol} {Q : Tree → Prop} (hs : Sense s ⟨s, [], Q⟩)
    (hQ : ∀ T : Tree, T.isLeaf = true → Q T) : Composes (s, []) := by
  refine ⟨Q, hs, ?_⟩
  rintro i F - rfl
  exact hQ _ rfl

theorem Script.composes_empty {s : Symbol} (hs : Sense s (.empty s)) : Composes (s, []) := composes_nil hs fun _ h => h

/-! ## From the tightest expressions to the loosest -/

namespace Expr

theorem composes_identifier : Composes (.primaryExpr, [.identifier]) := by
  rintro _ ⟨x, rfl⟩
  refine ⟨_, ⟨_, 2, identifier x, rfl, .identifier, rfl⟩, (makes_token (s := .identifier) (m := [.name x])).of_imp ?_⟩
  intro T hT hsymbol i n
  have hlexeme : T.lexeme = .ok x := hT
  rw [ofPrimary, Tree.children]
  dsimp only
  rw [if_pos hsymbol, hlexeme]
  rfl

theorem composes_number : Composes (.primaryExpr, [.number]) := by
  rintro _ ⟨v, rfl⟩
  exact ⟨_, ⟨_, _, _, rfl, .number, rfl⟩, makes_token⟩

theorem composes_string : Composes (.primaryExpr, [.string]) := by
  rintro _ ⟨v, rfl⟩
  exact ⟨_, ⟨_, _, _, rfl, .string, rfl⟩, makes_token⟩

theorem composes_group : Composes (.primaryExpr, [.leftParen, .expr, .rightParen]) := by
  rintro _ rfl _ ⟨m, d, e, rfl, he, hm⟩ _ rfl
  exact ⟨_, ⟨_, _, _, rfl, he, by simp [hm]⟩, makes_group⟩

theorem composes_literal {s : Symbol} (hs : s ∈ [Symbol.objLiteral, .arrayLiteral]) : Composes (.primaryExpr, [s]) := by
  intro p hp
  obtain ⟨m, d, e, rfl, he, hm⟩ : Denotes s (Gives ofTree) WellFormed contents p := by
    rcases List.mem_pair.mp hs with rfl | rfl <;> exact hp
  exact ⟨_, ⟨_, _, _, rfl, he, by simp [hm]⟩, makes_literal hs⟩

theorem composes_object : Composes (.objLiteral, [.leftBrace, .propList, .rightBrace]) := by
  rintro _ rfl _ ⟨m, d, ps, rfl, hps, hm⟩ _ rfl
  have hobject : (object ps).WellFormed := .object fun key e h => hps _ h key e rfl
  exact ⟨_, ⟨_, _, _, rfl, hobject, by simp [hm, contents]⟩, makes_object⟩

theorem composes_propList : Composes (.propList, [.prop, .propTail]) := by
  rintro _ ⟨m, d, p, rfl, hp, hm⟩ _ ⟨m', d', ps, rfl, hps, hm'⟩
  refine ⟨_, ⟨_, _, _, rfl, List.forall_mem_cons.mpr ⟨hp, hps⟩, ?_⟩, makes_entries⟩
  simp [hm, hm', Property.contentsOf]

theorem composes_noProps : Composes (.propList, []) :=
  composes_nil (Denotes.nil 0 rfl) fun _ => gives_entries_nil _ _ _

theorem composes_propTail : Composes (.propTail, [.comma, .propList]) := by
  rintro _ rfl _ ⟨m, d, ps, rfl, hps, hm⟩
  exact ⟨_, ⟨_, _, _, rfl, hps, by simp [hm]⟩, makes_adds⟩

theorem composes_noPropTail : Composes (.propTail, []) :=
  composes_nil (Denotes.nil 0 rfl) fun _ => adds_nil _ _ _

theorem composes_prop : Composes (.prop, [.identifier, .propValue]) := by
  rintro _ ⟨key, rfl⟩ _ (rfl | ⟨m, d, e, rfl, he, hm⟩)
  · refine ⟨_, ⟨_, _, .entry key none, rfl, ?_, rfl⟩, makes_shorthand⟩
    rintro _ _ ⟨⟩
  · refine ⟨_, ⟨_, _, _, rfl, ?_, by simp [hm, Property.contents]⟩, makes_entry⟩
    rintro _ _ ⟨⟩
    exact he

theorem composes_propValue : Composes (.propValue, [.colon, .expr]) := by
  rintro _ rfl _ ⟨m, d, e, rfl, he, hm⟩
  exact ⟨_, Or.inr ⟨_, _, _, rfl, he, by simp [hm]⟩, makes_after⟩

theorem composes_array : Composes (.arrayLiteral, [.leftBracket, .elements, .rightBracket]) := by
  rintro _ rfl _ ⟨m, d, es, rfl, hes, hm⟩ _ rfl
  exact ⟨_, ⟨_, _, _, rfl, .array hes, by simp [hm, contents]⟩, makes_array⟩

theorem composes_elements : Composes (.elements, [.expr, .elementsTail]) := by
  rintro _ ⟨m, d, e, rfl, he, hm⟩ _ ⟨m', d', es, rfl, hes, hm'⟩
  refine ⟨_, ⟨_, _, _, rfl, List.forall_mem_cons.mpr ⟨he, hes⟩, ?_⟩, makes_entries⟩
  simp [hm, hm', contentsOf]

theorem composes_noElements : Composes (.elements, []) :=
  composes_nil (Denotes.nil 0 rfl) fun _ => gives_entries_nil _ _ _

theorem composes_elementsTail : Composes (.elementsTail, [.comma, .elements]) := by
  rintro _ rfl _ ⟨m, d, es, rfl, hes, hm⟩
  exact ⟨_, ⟨_, _, _, rfl, hes, by simp [hm]⟩, makes_adds⟩

theorem composes_noElementsTail : Composes (.elementsTail, []) :=
  composes_nil (Denotes.nil 0 rfl) fun _ => adds_nil _ _ _

theorem composes_memberExpr : Composes (.memberExpr, [.primaryExpr, .memberTail]) := fun _ hp _ hq =>
  Chain.composes_head (C := .accesses) (Denotes.exists_stands hp) hq

theorem composes_callExpr : Composes (.callExpr, [.memberExpr, .callTail]) := fun _ hp _ hq =>
  Chain.composes_head (C := .calls) (Denotes.exists_stands hp) hq

theorem composes_args : Composes (.args, [.expr, .argsTail]) := by
  rintro _ ⟨m, d, e, rfl, he, hm⟩ _ ⟨m', d', es, rfl, hes, hm'⟩
  refine ⟨_, ⟨_, _, _, rfl, List.forall_mem_cons.mpr ⟨he, hes⟩, ?_⟩, makes_args⟩
  simp [hm, hm', contentsOf]

theorem composes_noArgs : Composes (.args, []) :=
  composes_nil (Denotes.nil 1 rfl) fun _ => gives_args_nil

theorem composes_argsTail : Composes (.argsTail, [.comma, .expr, .argsTail]) := by
  rintro _ rfl _ ⟨m, d, e, rfl, he, hm⟩ _ ⟨m', d', es, rfl, hes, hm'⟩
  refine ⟨_, ⟨_, _, _, rfl, List.forall_mem_cons.mpr ⟨he, hes⟩, ?_⟩, makes_afterComma fun _ h => h⟩
  simp [hm, hm', contentsOf]

theorem composes_noArgsTail : Composes (.argsTail, []) :=
  composes_nil (Denotes.nil 0 rfl) fun _ => gives_afterComma_nil _ _

theorem composes_unary {s : Symbol} (hs : s ∈ [Symbol.addOp, .notOp]) : Composes (.unaryExpr, [s, .unaryExpr]) := by
  intro p hp
  obtain ⟨o, rfl, ho⟩ : ∃ o, p = .operator s o ∧ operatorClass o = s.name := by
    rcases List.mem_pair.mp hs with rfl | rfl <;> exact hp
  have hoperator : o ∈ unaryOperators := by
    have hclass := mem_operators ho
    rcases List.mem_pair.mp hs with rfl | rfl
    · exact List.mem_append_left _ hclass
    · exact List.mem_append_right _ hclass
  rintro _ ⟨m, d, a, rfl, ha, hm⟩
  exact ⟨_, ⟨_, _, _, rfl, .unary hoperator ha, by simp [hm, contents]⟩, makes_unary⟩

theorem composes_unaryExpr : Composes (.unaryExpr, [.callExpr]) := by
  rintro _ ⟨m, d, e, rfl, he, hm⟩
  exact ⟨_, ⟨_, _, _, rfl, he, by simp [hm]⟩, makes_rung (r := .unary) (by decide)⟩

theorem composes_mulExpr : Composes (.mulExpr, [.unaryExpr, .mulTail]) := fun _ hp _ hq =>
  Level.composes_head (l := .multiplicative) (Denotes.exists_stands hp) hq

theorem composes_mulTail : Composes (.mulTail, [.mulOp, .mulExpr]) := by
  rintro _ ⟨o, rfl, ho⟩ p hp
  exact Level.composes_operation (l := .multiplicative) ho hp

theorem composes_addExpr : Composes (.addExpr, [.mulExpr, .addTail]) := fun _ hp _ hq =>
  Level.composes_head (l := .additive) (Level.Sense.exists_stands hp) hq

theorem composes_addTail : Composes (.addTail, [.addOp, .addExpr]) := by
  rintro _ ⟨o, rfl, ho⟩ p hp
  exact Level.composes_operation (l := .additive) ho hp

theorem composes_compExpr : Composes (.compExpr, [.addExpr, .compTail]) := fun _ hp _ hq =>
  Level.composes_head (l := .comparison) (Level.Sense.exists_stands hp) hq

theorem composes_compTail : Composes (.compTail, [.compOp, .compExpr]) := by
  rintro _ ⟨o, rfl, ho⟩ p hp
  exact Level.composes_operation (l := .comparison) ho hp

theorem composes_assignExpr : Composes (.assignExpr, [.compExpr, .assignTail]) := by
  intro p hp _ hq
  obtain ⟨e, d, hp⟩ := Level.Sense.exists_stands hp
  obtain rfl | ⟨m, d', v, rfl, hv, hm⟩ := hq
  · have hmakes := makes_rung (r := .assignment) (m := p.marks) (e := e) (d := d) (by decide)
    exact ⟨_, ⟨_, _, _, rfl, hp.wellFormed, by simp [hp.contents_eq]⟩, hmakes.of_imp hp.gives⟩
  · refine ⟨_, ⟨_, _, _, rfl, .assign hp.wellFormed hv, ?_⟩, (makes_assign (m := p.marks)).of_imp hp.gives⟩
    simp [hp.contents_eq, hm, contents]

theorem composes_assignTail : Composes (.assignTail, [.equals, .assignExpr]) := by
  rintro _ rfl _ ⟨m, d, v, rfl, hv, hm⟩
  exact ⟨_, Or.inr ⟨_, _, _, rfl, hv, by simp [hm]⟩, makes_after⟩

theorem composes_expr : Composes (.expr, [.assignExpr]) := by
  rintro _ ⟨m, d, e, rfl, he, hm⟩
  exact ⟨_, ⟨_, _, _, rfl, he, by simp [hm]⟩, makes_expr⟩

end Expr
end Lookahead
