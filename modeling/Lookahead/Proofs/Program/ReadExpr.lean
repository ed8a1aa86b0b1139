import Lookahead.Proofs.Program.Chain
import Lookahead.Proofs.Program.WellFormed

/-! Every expression that the language can express is read back from its marks. The induction is on what makes the
expression well-formed; a chain takes its left operand along as the beginning of a longer chain. -/
namespace Lookahead

open Script

namespace Tree

theorem wrapped?_of_shape {s : Symbol} {l : List Symbol} {i : Option Int} {F : List Tree}
    (hs : s ∈ Symbol.nonterminals) (hF : F.map symbol = l.map Symbol.name) (h : ∀ w ∈ wrapperShape? s, l ≠ w.1) :
    (node s.name i none F).wrapped? = none := by
  rw [wrapped?_node hs hF]
  cases hw : wrapperShape? s with
  | none => rfl
  | some w =>
    rw [Option.bind_some, if_neg]
    exact fun hc => h w hw hc.1

end Tree

namespace Expr
variable {e a v : Expr} {es args as : List Expr} {ps : List Property} {m m' : List Mark} {d d' : ℕ} {T : Tree}

/-! ## Lists of expressions -/

def ofElements (n : ℕ) (t : Tree) : Conversion (List Expr) := (t.entries .elements .expr .elementsTail).mapM (ofTree n)

def ofProperties (n : ℕ) (t : Tree) : Conversion (List Property) :=
  (t.entries .propList .prop .propTail).mapM (ofProperty (ofTree n))

theorem gives_args_nil (hT : T.isLeaf = true) : Gives ofArgList 1 [] T := by
  refine within_of_succ rfl fun n => ?_
  rw [ofArgList, ofArgs, if_pos hT]
  exact within_zero.symm

theorem makes_args : Makes (.args, [.expr, .argsTail]) [.giving .expr m ofTree d a,
    .giving .argsTail m' (fun n T => (T.afterComma .expr .argsTail).mapM (ofTree n)) d' as]
    (Gives ofArgList (max d d' + 1) (a :: as)) := by
  rintro i F hF ⟨A, _, rfl, hA, R, _, rfl, hR, rfl⟩
  refine within_of_succ rfl fun n => ?_
  have hitems : (R.afterComma .expr .argsTail).mapM (ofTree n) = _ := hR n
  rw [ofArgList, ofArgs, if_neg (by simp), Tree.split?_node hF]
  dsimp only
  rw [hA n, hitems]
  simp [ok_bind]

theorem holds_args (h : ∀ a ∈ args, (a.part .expr a.marks).Holds) :
    (Part.giving .args (Mark.separated (marksOf args)) ofArgList (depthOf args + 1) args).Holds := by
  rw [marksOf_eq, depthOf_eq]
  cases args with
  | nil => exact (Part.holds_empty (s := .args) (by decide)).mono fun T hT => gives_args_nil hT
  | cons a args =>
    rw [List.forall_mem_cons] at h
    have hrest := holds_afterComma .expr .argsTail id (by decide) (by decide) h.2
    rw [List.map_id] at hrest
    refine yields_node (.args, [.expr, .argsTail]) [a.part .expr a.marks, _] (by decide) rfl
      (List.forall_mem_cons.mpr ⟨h.1, List.forall_mem_singleton.mpr hrest⟩) ?_ makes_args
    simp [Mark.separated, List.flatMap_map]

theorem holds_elements (h : ∀ e ∈ es, (e.part .expr e.marks).Holds) :
    (Part.giving .elements (Mark.separated (marksOf es)) ofElements (depthOf es) es).Holds := by
  have hlist := holds_entries .elements .expr .elementsTail id (by decide) (by decide)
    (by decide) (by decide) h
  rwa [← marksOf_eq, ← depthOf_eq, List.map_id] at hlist

/-- The expression after the mark that opens a tail. -/
def After (c s : Symbol) (d : ℕ) (e : Expr) (T : Tree) : Prop :=
  T.isLeaf = false ∧ ∃ b E, T.split? [c, s] = some [b, E] ∧ Gives ofTree d e E

theorem makes_after {t c s : Symbol} : Makes (t, [c, s]) [.fixed c, .giving s m ofTree d e] (After c s d e) := by
  rintro i F hF ⟨b, _, rfl, -, E, _, rfl, hE, rfl⟩
  exact ⟨rfl, b, E, Tree.split?_node hF, hE⟩

theorem makes_shorthand {key : String} : Makes (.prop, [.identifier, .propValue]) [.named key, .empty .propValue]
    (Gives (fun n => ofProperty (ofTree n)) 0 (.entry key none)) := by
  rintro i F hF ⟨K, _, rfl, hK, V, _, rfl, hV, rfl⟩ n
  have hlexeme : K.lexeme = .ok key := hK
  have hleaf : V.isLeaf = true := hV
  change ofProperty (ofTree n) _ = _
  rw [ofProperty, Tree.split?_node hF]
  dsimp only
  rw [if_pos hleaf, hlexeme]
  exact within_zero.symm

theorem makes_entry {key : String} : Makes (.prop, [.identifier, .propValue])
    [.named key, ⟨.propValue, m, After .colon .expr d e⟩]
    (Gives (fun n => ofProperty (ofTree n)) d (.entry key (some e))) := by
  rintro i F hF ⟨K, _, rfl, hK, V, _, rfl, ⟨hlong, c, E, hsplit, hE⟩, rfl⟩ n
  have hlexeme : K.lexeme = .ok key := hK
  change ofProperty (ofTree n) _ = _
  rw [ofProperty, Tree.split?_node hF]
  dsimp only
  rw [if_neg (by rw [hlong]; exact Bool.false_ne_true), hsplit]
  dsimp only
  rw [hlexeme, ok_bind, hE n]
  simp

theorem holds_property {p : Property} (h : ∀ key e, p = .entry key (some e) → (e.part .expr e.marks).Holds) :
    (Part.giving .prop p.marks (fun n => ofProperty (ofTree n)) p.depth p).Holds := by
  obtain ⟨key, value⟩ := p
  cases value with
  | none =>
    refine yields_node (.prop, [.identifier, .propValue]) [.named key, .empty .propValue] (by decide) rfl ?_ rfl
      makes_shorthand
    simp +decide [Part.holds_empty]
  | some e =>
    have hvalue : Part.Holds ⟨.propValue, .fixed .colon :: e.marks, After .colon .expr e.depth e⟩ := by
      refine yields_node (.propValue, [.colon, .expr]) [.fixed .colon, e.part .expr e.marks] (by decide) rfl ?_ ?_
        makes_after
      · simp +decide [h key e rfl]
      · simp [Symbol.kind?]
    refine yields_node (.prop, [.identifier, .propValue]) [.named key, _] (by decide) rfl
      (List.forall_mem_cons.mpr ⟨Part.holds_named key, List.forall_mem_singleton.mpr hvalue⟩) ?_ makes_entry
    simp [Property.marks]

theorem holds_properties (h : ∀ key e, .entry key (some e) ∈ ps → (e.part .expr e.marks).Holds) :
    (Part.giving .propList (Mark.separated (Property.marksOf ps)) ofProperties (Property.depthOf ps) ps).Holds := by
  have hitems : ∀ p ∈ ps, (Part.giving .prop p.marks (fun n => ofProperty (ofTree n)) p.depth (id p)).Holds :=
    fun p hp => holds_property fun key e heq => h key e (heq ▸ hp)
  have hlist := holds_entries .propList .prop .propTail id (by decide) (by decide) (by decide) (by decide) hitems
  rwa [← Property.marksOf_eq, ← Property.depthOf_eq, List.map_id] at hlist

/-! ## Primary expressions -/

/-- A rule whose nodes are no wrappers makes expressions as its nodes convert. -/
theorem makes_of_rule {s : Symbol} {l : List Symbol} {parts : List Part} (hs : s ∈ Symbol.nonterminals)
    (hw : ∀ w ∈ wrapperShape? s, l ≠ w.1)
    (h : ∀ n i F, F.map Tree.symbol = l.map Symbol.name → Facts parts F →
      ofNode (n + 1) (.node s.name i none F) = within d n (.ok e)) : Makes (s, l) parts (Gives ofTree (d + 2) e) :=
  fun i F hF hfacts => ofTree_of_node (Tree.wrapped?_of_shape hs hF hw) fun n => h n (some i) F hF hfacts

/-- A terminal whose token is the primary expression `e`. -/
def literal (s : Symbol) (m : List Mark) (e : Expr) : Part :=
  ⟨s, m, fun T => T.symbol = s.name →
    ∀ i n, ofPrimary (ofTree n) (.node Symbol.primaryExpr.name i none [T]) = .ok e⟩

@[simp] theorem marks_literal (s : Symbol) (m : List Mark) (e : Expr) : (literal s m e).marks = m := rfl

theorem makes_token {s : Symbol} : Makes (.primaryExpr, [s]) [literal s m e] (Gives ofTree 2 e) := by
  refine makes_of_rule (d := 0) (by decide) (by simp [wrapperShape?]) ?_
  rintro n i F hF ⟨T, _, rfl, hT, rfl⟩
  have hsymbol : T.symbol = s.name := (List.cons.inj hF).1
  rw [ofNode, Tree.symbol, Symbol.ofNonterminal?_name (s := .primaryExpr) (by decide)]
  dsimp only
  rw [hT hsymbol i n, within_zero]

/-- A literal that a single token makes. -/
theorem holds_token {s : Symbol} {a : Mark} (hrule : (.primaryExpr, [s]) ∈ rules) (hs : s ∈ Symbol.terminals)
    (ha : ∀ k, a.On k → terminalOf k = s.name)
    (h : ∀ k i n, a.On k → ofPrimary (ofTree n) (.node Symbol.primaryExpr.name i none [.leaf s.name k]) = .ok e) :
    (Part.giving .primaryExpr [a] ofTree 2 e).Holds := by
  refine yields_node (.primaryExpr, [s]) [literal s [a] e] hrule rfl
    (List.forall_mem_singleton.mpr ((yields_leaf hs ha).mono ?_)) rfl makes_token
  rintro _ ⟨k, rfl, hk⟩ -
  exact fun i n => h k i n hk

theorem makes_literal {s : Symbol} (hs : s ∈ [Symbol.objLiteral, .arrayLiteral]) :
    Makes (.primaryExpr, [s]) [.giving s m ofTree d e] (Gives ofTree (d + 2) e) := by
  refine makes_of_rule (by decide) (by simp [wrapperShape?]) ?_
  rintro n i F hF ⟨T, _, rfl, hT, rfl⟩
  have hsymbol : T.symbol = s.name := (List.cons.inj hF).1
  rw [ofNode, Tree.symbol, Symbol.ofNonterminal?_name (s := .primaryExpr) (by decide)]
  dsimp only
  rw [← hT n, ofPrimary, Tree.children]
  dsimp only
  rw [hsymbol]
  rcases List.mem_pair.mp hs with rfl | rfl <;> simp

theorem holds_literal {s : Symbol} (hs : s ∈ [Symbol.objLiteral, .arrayLiteral])
    (h : (Part.giving s m ofTree d e).Holds) : (Part.giving .primaryExpr m ofTree (d + 2) e).Holds := by
  have hrule : (.primaryExpr, [s]) ∈ rules := by
    rcases List.mem_pair.mp hs with rfl | rfl <;> decide
  refine yields_node (.primaryExpr, [s]) [.giving s m ofTree d e] hrule rfl (List.forall_mem_singleton.mpr h) ?_
    (makes_literal hs)
  simp

theorem makes_object : Makes (.objLiteral, [.leftBrace, .propList, .rightBrace])
    [.fixed .leftBrace, .giving .propList m ofProperties d ps, .fixed .rightBrace]
    (Gives ofTree (d + 2) (object ps)) := by
  refine makes_of_rule (by decide) (by simp [wrapperShape?]) ?_
  rintro n i F hF ⟨b, _, rfl, -, L, _, rfl, hL, c, _, rfl, -, rfl⟩
  have hitems : (L.entries .propList .prop .propTail).mapM (ofProperty (ofTree n)) = _ := hL n
  rw [ofNode, Tree.symbol, Symbol.ofNonterminal?_name (by decide)]
  dsimp only
  rw [ofObject, Tree.split?_node hF]
  dsimp only
  rw [hitems, within_bind, ok_bind]
  rfl

theorem holds_object (h : (Part.giving .propList m ofProperties d ps).Holds) :
    (Part.giving .objLiteral (Mark.braces m) ofTree (d + 2) (object ps)).Holds := by
  refine yields_node (.objLiteral, [.leftBrace, .propList, .rightBrace])
    [.fixed .leftBrace, .giving .propList m ofProperties d ps, .fixed .rightBrace] (by decide) rfl ?_ rfl makes_object
  simp +decide [h]

theorem makes_array : Makes (.arrayLiteral, [.leftBracket, .elements, .rightBracket])
    [.fixed .leftBracket, .giving .elements m ofElements d es, .fixed .rightBracket]
    (Gives ofTree (d + 2) (array es)) := by
  refine makes_of_rule (by decide) (by simp [wrapperShape?]) ?_
  rintro n i F hF ⟨b, _, rfl, -, L, _, rfl, hL, c, _, rfl, -, rfl⟩
  have hitems : (L.entries .elements .expr .elementsTail).mapM (ofTree n) = _ := hL n
  rw [ofNode, Tree.symbol, Symbol.ofNonterminal?_name (by decide)]
  dsimp only
  rw [ofArray, Tree.split?_node hF]
  dsimp only
  rw [hitems, within_bind, ok_bind]
  rfl

theorem holds_array (h : (Part.giving .elements m ofElements d es).Holds) :
    (Part.giving .arrayLiteral (Mark.brackets m) ofTree (d + 2) (array es)).Holds := by
  refine yields_node (.arrayLiteral, [.leftBracket, .elements, .rightBracket])
    [.fixed .leftBracket, .giving .elements m ofElements d es, .fixed .rightBracket] (by decide) rfl ?_ rfl makes_array
  simp +decide [h]

/-! ## Prefixes and assignments -/

theorem makes_unary {s : Symbol} {o : String} : Makes (.unaryExpr, [s, .unaryExpr])
    [.operator s o, .giving .unaryExpr m ofTree d a] (Gives ofTree (d + 2) (unary o a)) := by
  refine makes_of_rule (by decide) (by simp [wrapperShape?]) ?_
  rintro n i F hF ⟨O, _, rfl, hO, A, _, rfl, hA, rfl⟩
  have hlexeme : O.lexeme = .ok o := hO
  have hsymbol : A.symbol = Symbol.unaryExpr.name := (List.cons.inj (List.cons.inj hF).2).1
  rw [ofNode, Tree.symbol, Symbol.ofNonterminal?_name (s := .unaryExpr) (by decide)]
  dsimp only
  rw [ofUnary, Tree.children]
  dsimp only
  rw [if_pos hsymbol, hlexeme, ok_bind, hA n, within_bind, ok_bind]
  rfl

theorem holds_unary {o : String} (ho : o ∈ unaryOperators) (h : (a.part .unaryExpr m).Holds) :
    (Part.giving .unaryExpr (.operator o :: m) ofTree (a.depth + 2) (unary o a)).Holds := by
  obtain ⟨s, hs, hclass⟩ : ∃ s ∈ [Symbol.addOp, .notOp], operatorClass o = s.name :=
    (by decide +kernel : ∀ o ∈ unaryOperators, ∃ s ∈ [Symbol.addOp, .notOp], operatorClass o = s.name) o ho
  have hrule : (.unaryExpr, [s, .unaryExpr]) ∈ rules := by rcases List.mem_pair.mp hs with rfl | rfl <;> decide
  have hterminal : s ∈ Symbol.terminals := by rcases List.mem_pair.mp hs with rfl | rfl <;> decide
  refine yields_node (.unaryExpr, [s, .unaryExpr]) [.operator s o, a.part .unaryExpr m] hrule rfl ?_ ?_ makes_unary
  · simp [h, Part.holds_operator hterminal hclass]
  · simp

theorem makes_assign : Makes (.assignExpr, [.compExpr, .assignTail])
    [.giving .compExpr m ofTree d a, ⟨.assignTail, m', After .equals .assignExpr d' v⟩]
    (Gives ofTree (max d d' + 2) (assign a v)) := by
  rintro i F hF ⟨A, _, rfl, hA, T, _, rfl, ⟨hlong, b, V, hsplit, hV⟩, rfl⟩
  have hwrapped : (Tree.node Symbol.assignExpr.name (some i) none [A, T]).wrapped? = none := by
    rw [Tree.wrapped?_node (by decide) hF]
    simp [wrapperShape?, hlong]
  refine ofTree_of_node hwrapped fun n => ?_
  rw [ofNode, Tree.symbol, Symbol.ofNonterminal?_name (by decide)]
  dsimp only
  rw [ofAssign, Tree.split?_node hF]
  dsimp only
  rw [hA n, within_bind, ok_bind, if_neg (by rw [hlong]; exact Bool.false_ne_true), hsplit]
  dsimp only
  rw [hV n, within_bind, ok_bind]
  exact within_within

theorem holds_assign (ha : (a.part .compExpr m).Holds) (hv : (v.part .assignExpr m').Holds) :
    (Part.giving .assignExpr (m ++ .fixed .equals :: m') ofTree (max a.depth v.depth + 2) (assign a v)).Holds := by
  have htail : Part.Holds ⟨.assignTail, .fixed .equals :: m', After .equals .assignExpr v.depth v⟩ := by
    refine yields_node (.assignTail, [.equals, .assignExpr]) [.fixed .equals, v.part .assignExpr m'] (by decide) rfl
      ?_ ?_ makes_after
    · simp +decide [hv]
    · simp [Symbol.kind?]
  refine yields_node (.assignExpr, [.compExpr, .assignTail]) [a.part .compExpr m, _] (by decide) rfl
    (List.forall_mem_cons.mpr ⟨ha, List.forall_mem_singleton.mpr htail⟩) ?_ makes_assign
  simp

/-! ## All expressions -/

theorem marksAt_assignment (e : Expr) : e.marksAt .assignment = e.marks := by
  rw [marksAt, Lookahead.placed]
  exact if_neg (Nat.not_lt_zero _)

theorem mem_operators_ofOperator {o : String} (h : o ∈ binaryOperators) : o ∈ (Level.ofOperator o).operators :=
  (by decide +kernel : ∀ o ∈ binaryOperators, o ∈ (Level.ofOperator o).operators) o h

theorem readable_identifier (x : String) : (identifier x).Readable := by
  refine readable_of_holds (holds_token (s := .identifier) (by decide) (by decide) (fun k hk => ?_) fun k i n hk => ?_)
    (by simp [rank])
  · rw [terminalOf, hk.1]
  · obtain ⟨-, rfl⟩ := hk
    rfl

theorem readable_number (v : Value) : (number v).Readable := by
  refine readable_of_holds (holds_token (s := .number) (by decide) (by decide) (fun k hk => ?_) fun k i n hk => ?_)
    (by simp [rank])
  · rw [terminalOf, hk.1]
  · simp [ofPrimary, Tree.leaf, Tree.children, Tree.symbol, Tree.token, numberValue, hk.2]

theorem readable_string (v : Value) : (string v).Readable := by
  refine readable_of_holds (holds_token (s := .string) (by decide) (by decide) (fun k hk => ?_) fun k i n hk => ?_)
    (by simp [rank])
  · rw [terminalOf, hk.1]
  · simp [ofPrimary, Tree.leaf, Tree.children, Tree.symbol, Tree.token, stringValue, hk.2]
    rfl

theorem WellFormed.readable (h : e.WellFormed) : e.Readable := by
  induction h with
  | @assign a v _ _ iha ihv =>
    have hv := ihv.placed .assignment
    rw [marksAt_assignment] at hv
    exact readable_of_holds (holds_assign (iha.placed .comparison) hv) (by simp [rank])
  | @binary l r o ho _ _ ihl ihr =>
    have hr : (r.part (Level.ofOperator o).operand (r.marksAt (Level.ofOperator o).rank.next)).Holds := by
      have hplaced := ihr.placed (Level.ofOperator o).rank.next
      cases hl : Level.ofOperator o <;> rwa [hl] at hplaced
    exact ihl.link (Chain.link_operation (mem_operators_ofOperator ho) hr) rfl (by rw [marks]; rfl)
      (by rw [nesting]; rfl)
  | unary ho _ iha => exact readable_of_holds (holds_unary ho (iha.placed .unary)) (by simp [rank])
  | call _ _ ihc ihargs =>
    exact ihc.link (Chain.link_call (holds_args fun a ha => (ihargs a ha).whole)) rfl (by rw [marks]; rfl)
      (by rw [nesting]; rfl)
  | @named o x _ iho =>
    exact iho.link (Chain.link_named x) rfl (by rw [marks]; rfl) (by rw [nesting, Nat.max_zero]; rfl)
  | computed _ _ iho ihp =>
    exact iho.link (Chain.link_computed ihp.whole) rfl (by rw [marks]; rfl) (by rw [nesting]; rfl)
  | identifier => exact readable_identifier _
  | number => exact readable_number _
  | string => exact readable_string _
  | object _ ih =>
    have hlist := holds_object (holds_properties fun key e he => (ih key e he).whole)
    exact readable_of_holds (holds_literal (by decide) hlist) (by simp [rank])
  | array _ ih =>
    have hlist := holds_array (holds_elements fun e he => (ih e he).whole)
    exact readable_of_holds (holds_literal (by decide) hlist) (by simp [rank])

theorem WellFormed.whole (h : e.WellFormed) : (e.part .expr e.marks).Holds := h.readable.whole

end Expr
end Lookahead
