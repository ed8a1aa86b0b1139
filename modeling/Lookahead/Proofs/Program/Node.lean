import Lookahead.Proofs.Program.Reach
import Lookahead.Proofs.Program.Spine

/-! Nodes in the shape of a rule. A conversion that splits a node this way settles on a result if the conversions of
the children do. -/
namespace Lookahead

open Script

namespace Tree
variable {α : Type} {s r : Symbol} {l m : List Symbol} {cs : List Tree} {t a b c o : Tree} {f : ConversionFailure}
  {i : ℕ} {x : ℕ → Conversion α}

/-- What a success says of the child that stands for a symbol of the rule. -/
def Good (r : Symbol) (c : Tree) : Prop :=
  match r.role with
  | .mark => True
  | .leaf => c.ReadableAs r
  | .node => c.Sound

structure Node (t : Tree) (s : Symbol) (l : List Symbol) (cs : List Tree) : Prop where
  symbol_eq : t.symbol = s.name
  children_eq : t.children = cs
  map_symbol : cs.map symbol = l.map Symbol.name
  rule : (s, l) ∈ plainRules

theorem split?_cases (t : Tree) (l : List Symbol) : (t.split? l = none ∧ t.shape ≠ l.map Symbol.name) ∨
    (t.split? l = some t.children ∧ t.shape = l.map Symbol.name) := by
  by_cases h : t.shape = l.map Symbol.name
  · exact Or.inr ⟨by rw [split?, hasShape, decide_eq_true h, if_pos rfl], h⟩
  · exact Or.inl ⟨by rw [split?, hasShape, decide_eq_false h, if_neg Bool.false_ne_true], h⟩

theorem exists_node (hs : t.symbol = s.name) (hl : (s, l) ∈ plainRules) :
    (t.split? l = none ∧ t.shape ≠ l.map Symbol.name) ∨ ∃ cs, t.split? l = some cs ∧ t.Node s l cs :=
  (t.split?_cases l).imp_right fun h => ⟨t.children, h.1, hs, rfl, h.2, hl⟩

theorem good_of_node (hr : r.role = .node) (h : c.Sound) : Good r c := by
  rw [Good, hr]
  exact h

theorem Good.readableAs (h : Good r c) : c.ReadableAs r := by
  cases r <;> first | exact h | trivial

theorem Good.sound (hr : r.role = .node) (h : Good r c) : c.Sound := by
  rw [Good, hr] at h
  exact h

namespace Node

theorem length_eq (v : t.Node s l cs) : cs.length = l.length := by
  have h := congrArg List.length v.map_symbol
  rwa [List.length_map, List.length_map] at h

theorem symbols (v : t.Node s l cs) : List.Forall₂ (fun r c => c.symbol = r.name) l cs := by
  have h := v.map_symbol
  rw [← List.forall₂_eq_eq_eq, List.forall₂_map_left_iff, List.forall₂_map_right_iff] at h
  exact h.flip

theorem symbol_at (v : t.Node s l cs) (i : ℕ) (hc : cs[i]? = some c) (hr : l[i]? = some r) : c.symbol = r.name := by
  have h := congrArg (·[i]?) v.map_symbol
  simp only [List.getElem?_map, hc, hr, Option.map_some, Option.some.injEq] at h
  exact h

theorem mem_children (v : t.Node s l cs) (i : ℕ) (hc : cs[i]? = some c) : c ∈ t.children :=
  v.children_eq ▸ List.mem_of_getElem? hc

theorem sizeOf_lt (v : t.Node s l cs) (i : ℕ) (hc : cs[i]? = some c) : sizeOf c < sizeOf t :=
  sizeOf_child (v.mem_children i hc)

theorem mem_nonterminals (v : t.Node s l cs) : s ∈ Symbol.nonterminals :=
  (by decide : ∀ r ∈ rules, r.1 ∈ Symbol.nonterminals) _ (mem_rules_of_plain v.rule)

theorem operand?_eq_none_or (v : t.Node s l cs) : s.operand? = none ∨ cs.length ≠ 2 := by
  have h := (List.mem_filter.mp v.rule).2
  rw [v.length_eq]
  simp only [Bool.and_eq_true, Bool.or_eq_true, Option.isNone_iff_eq_none, decide_eq_true_eq] at h
  exact h.1

theorem isOperation_eq (v : t.Node s l cs) : t.isOperation = false := by
  rw [Tree.isOperation_eq v.symbol_eq v.mem_nonterminals, v.children_eq]
  cases v.operand?_eq_none_or with
  | inl h => rw [h]; rfl
  | inr h => rw [decide_eq_false h, Bool.and_false]

theorem mem_parts (v : t.Node s l cs) (i : ℕ) (hc : cs[i]? = some c) (hr : l[i]? = some r) (hrole : r.role = .node) :
    c ∈ t.parts :=
  Tree.mem_parts v.isOperation_eq (v.mem_children i hc) (v.symbol_at i hc hr) (Symbol.nonterminal_of_role hrole)

theorem sound (v : t.Node s l cs) (h : List.Forall₂ Good l cs) : t.Sound := by
  have hshape : t.shape = l.map Symbol.name := by rw [shape, v.children_eq, v.map_symbol]
  refine sound_iff.mpr ⟨.rule v.symbol_eq v.rule hshape ?_, fun c hc => ?_⟩
  · rw [v.children_eq]
    exact h.imp fun _ _ => Good.readableAs
  · -- A part is a child, and its symbol is that of the rule at its place.
    obtain ⟨i, hi, rfl⟩ := List.mem_iff_getElem.mp (v.children_eq ▸ mem_children_of_parts hc)
    have hil : i < l.length := v.length_eq ▸ hi
    have hsymbol := v.symbol_at i (List.getElem?_eq_getElem hi) (List.getElem?_eq_getElem hil)
    have hnode := (List.mem_filter.mp hc).2
    rw [hsymbol, Option.isSome_iff_exists] at hnode
    obtain ⟨r, hr⟩ := hnode
    have hrole : l[i].role = .node := by
      refine Symbol.role_eq_node ?_
      have hname : r.name = l[i].name := by simpa using List.find?_some hr
      exact Symbol.name_injective hname ▸ List.mem_of_find?_eq_some hr
    exact ((List.forall₂_iff_get.mp h).2 i hil hi).sound hrole

/-- The shape of a plain rule leaves no other way to fit. -/
theorem readableAs_of_fits (v : t.Node s l cs) (hs : s ≠ .stmt) (h : t.Fits) : List.Forall₂ ReadableAs l cs := by
  have hshape : t.shape = l.map Symbol.name := by rw [shape, v.children_eq, v.map_symbol]
  cases h with
  | rule hs' hl hshape' hread =>
    obtain rfl := Symbol.names_inj.mp (hshape.symm.trans hshape')
    exact v.children_eq ▸ hread
  | group hs' hshape' =>
    obtain rfl := Symbol.names_inj.mp (hshape.symm.trans hshape')
    have hplain := (List.mem_filter.mp v.rule).2
    simp at hplain
  | operation hs' hr hchildren =>
    obtain rfl := Symbol.name_injective (v.symbol_eq.symm.trans hs')
    have hlength : cs.length = 2 := by rw [← v.children_eq, hchildren, List.length_cons, List.length_singleton]
    cases v.operand?_eq_none_or with
    | inl h => simp [hr] at h
    | inr h => exact absurd hlength h
  | statement hs' => exact absurd (Symbol.name_injective (v.symbol_eq.symm.trans hs')) hs

theorem blames_of_not_readable (v : t.Node s l cs) (hs : s ≠ .stmt) (i : ℕ) (hc : cs[i]? = some c)
    (hr : l[i]? = some r) (h : ¬ c.ReadableAs r) (hcharge : t.Charges f) : t.Blames f := by
  refine .self (fun hfits => h ?_) hcharge
  obtain ⟨hi, rfl⟩ := List.getElem?_eq_some_iff.mp hc
  obtain ⟨hil, rfl⟩ := List.getElem?_eq_some_iff.mp hr
  exact (List.forall₂_iff_get.mp (v.readableAs_of_fits hs hfits)).2 i hil hi

/-! ## Conversions of children -/

theorem settles_node (v : t.Node s l cs) (i : ℕ) (hc : cs[i]? = some c) (hr : l[i]? = some r)
    (hrole : r.role = .node) (hx : Settles c.Sound c.Blames x) : Settles (Good r c) t.Blames x :=
  hx.mono (good_of_node hrole) fun _ => .of_part (v.mem_parts i hc hr hrole)

theorem settles_lexeme (v : t.Node s l cs) (hs : s ≠ .stmt) (i : ℕ) (hc : cs[i]? = some c)
    (hr : l[i]? = some .identifier) : Settles (Good .identifier c) t.Blames fun _ => c.lexeme := by
  unfold Tree.lexeme
  cases hk : c.token with
  | some k => exact .ok (show c.token ≠ none by simp [hk]) k.lexeme
  | none =>
    refine .error (v.blames_of_not_readable hs i hc hr (fun h => h hk) ?_)
    exact .tokenMissing (v.mem_children i hc) hk

end Node

/-! ## Conversions of trees -/

/-- The conversion settles on a result, which says whether all that it sees fits. -/
def Judges (convert : ℕ → Tree → Conversion α) (t : Tree) : Prop := Settles t.Sound t.Blames fun n => convert n t

/-- The conversion judges the smaller trees with these symbols. -/
def JudgesBelow (symbols : List Symbol) (convert : ℕ → Tree → Conversion α) (t : Tree) : Prop :=
  ∀ c, sizeOf c < sizeOf t → ∀ r ∈ symbols, c.symbol = r.name → Judges convert c

theorem JudgesBelow.mono {symbols : List Symbol} {convert : ℕ → Tree → Conversion α} {u : Tree}
    (h : JudgesBelow symbols convert t) (hu : sizeOf u ≤ sizeOf t) : JudgesBelow symbols convert u :=
  fun c hc => h c (Nat.lt_of_lt_of_le hc hu)

theorem Node.settles {symbols : List Symbol} {convert : ℕ → Tree → Conversion α} (v : t.Node s l cs)
    (h : JudgesBelow symbols convert t) (i : ℕ) (hc : cs[i]? = some c) (hr : l[i]? = some r)
    (hmem : r ∈ symbols ∧ r.role = .node) : Settles (Good r c) t.Blames fun n => convert n c :=
  v.settles_node i hc hr hmem.2 (h c (v.sizeOf_lt i hc) r hmem.1 (v.symbol_at i hc hr))

/-! ## The shape of a rule or none -/

theorem sound_of_isLeaf (hs : t.symbol = s.name) (hl : (s, []) ∈ plainRules) (hleaf : t.isLeaf = true) : t.Sound := by
  have v : t.Node s [] [] := ⟨hs, children_eq_nil hleaf, rfl, hl⟩
  exact v.sound .nil

/-- Rules with one symbol each, and no child of one of them alone. -/
theorem shape_ne_single {symbols : List Symbol} (h : ∀ a, t.children = [a] → ∀ r ∈ symbols, a.symbol ≠ r.name) :
    ∀ l ∈ symbols.map fun r => [r], t.shape ≠ l.map Symbol.name := by
  refine List.forall_mem_map.mpr fun r hr hshape => ?_
  obtain ⟨a, hchildren, ha⟩ := List.map_eq_singleton_iff.mp hshape
  exact h a hchildren r hr ha

theorem shape_ne_nil (h : t.isLeaf = false) : t.shape ≠ [].map Symbol.name := by
  rw [isLeaf, List.isEmpty_eq_false_iff] at h
  simp [shape, h]

/-- A node of a symbol with one rule has its shape, or is to blame. -/
theorem cases_of_rule (hs : t.symbol = s.name) (hl : s.isPlain = true ∧ shapes s = [l]) :
    (t.split? l = none ∧ t.Blames (t.malformed l)) ∨ ∃ cs, t.split? l = some cs ∧ t.Node s l cs := by
  obtain ⟨hsplit, hne⟩ | hnode := exists_node hs (mem_shapes.mp (hl.2 ▸ List.mem_cons_self))
  · exact Or.inl ⟨hsplit, blames_of_no_shape hs hl (List.forall_mem_singleton.mpr hne) (.malformed hne)⟩
  · exact Or.inr hnode

/-- So a conversion that refuses all other shapes need only be followed through the shape of the rule. -/
theorem settles_of_rule (l : List Symbol) {x : ℕ → Conversion α} (hs : t.symbol = s.name)
    (hl : s.isPlain = true ∧ shapes s = [l]) (hnone : t.split? l = none → ∀ n, x n = .error (t.malformed l))
    (hsome : ∀ cs, t.split? l = some cs → t.Node s l cs → Settles t.Sound t.Blames x) : Settles t.Sound t.Blames x := by
  obtain ⟨hsplit, hblames⟩ | ⟨cs, hsplit, v⟩ := cases_of_rule hs hl
  · rw [funext (hnone hsplit)]
    exact .error hblames
  · exact hsome cs hsplit v

/-- A node of a symbol with one rule for something and one for nothing. -/
theorem cases_of_rule_or_nil (hs : t.symbol = s.name) (hl : s.isPlain = true ∧ shapes s = [l, []]) :
    (t.isLeaf = true ∧ t.Sound) ∨ (t.isLeaf = false ∧ t.split? l = none ∧ t.Blames (t.malformed l)) ∨
      (t.isLeaf = false ∧ ∃ cs, t.split? l = some cs ∧ t.Node s l cs) := by
  have hrules : ∀ m ∈ [l, []], (s, m) ∈ plainRules := fun m hmem => mem_shapes.mp (hl.2 ▸ hmem)
  rw [List.forall_mem_cons, List.forall_mem_singleton] at hrules
  cases hleaf : t.isLeaf with
  | true => exact Or.inl ⟨rfl, sound_of_isLeaf hs hrules.2 hleaf⟩
  | false =>
    obtain ⟨hsplit, hne⟩ | hnode := exists_node hs hrules.1
    · have hnone : ∀ m ∈ [l, []], t.shape ≠ m.map Symbol.name :=
        List.forall_mem_cons.mpr ⟨hne, List.forall_mem_singleton.mpr (shape_ne_nil hleaf)⟩
      exact Or.inr (Or.inl ⟨rfl, hsplit, blames_of_no_shape hs hl hnone (.malformed hne)⟩)
    · exact Or.inr (Or.inr ⟨rfl, hnode⟩)

/-! ## Operators -/

theorem isOperation_of_pair (hs : t.symbol = s.name) (hr : s.operand? = some r) (hchildren : t.children = [o, a]) :
    t.isOperation = true := by
  have hnode : s ∈ Symbol.nonterminals := by cases s <;> first | decide | cases hr
  rw [isOperation_eq hs hnode, hr, hchildren]
  rfl

theorem parts_of_pair (hs : t.symbol = s.name) (hr : s.operand? = some r) (hchildren : t.children = [o, a])
    (ha : a.symbol = r.name) : t.parts = [a] := by
  have hnode : r ∈ Symbol.nonterminals := by cases s <;> cases hr <;> decide
  rw [parts, isOperation_of_pair hs hr hchildren, if_pos rfl, hchildren, List.tail_cons,
    List.filter_singleton, ha, Symbol.ofNonterminal?_name hnode]
  rfl

theorem sound_of_pair (hs : t.symbol = s.name) (hr : s.operand? = some r) (hchildren : t.children = [o, a])
    (ha : a.symbol = r.name) (ho : o.token ≠ none) (hsound : a.Sound) : t.Sound := by
  refine sound_iff.mpr ⟨.operation hs hr hchildren ha ho, ?_⟩
  rw [parts_of_pair hs hr hchildren ha]
  exact List.forall_mem_singleton.mpr hsound

theorem Fits.operation_or_shape (h : t.Fits) (hs : t.symbol = s.name) (hr : s.operand? = some r) :
    (∃ o a, t.children = [o, a] ∧ a.symbol = r.name ∧ o.token ≠ none) ∨
      ∃ l ∈ shapes s, t.shape = l.map Symbol.name := by
  cases h with
  | rule hs' hl hshape =>
    obtain rfl := Symbol.name_injective (hs.symm.trans hs')
    exact Or.inr ⟨_, mem_shapes.mpr hl, hshape⟩
  | group hs' =>
    obtain rfl := Symbol.name_injective (hs.symm.trans hs')
    cases hr
  | operation hs' hr' hchildren ha ho =>
    obtain rfl := Symbol.name_injective (hs.symm.trans hs')
    obtain rfl := Option.some.inj (hr.symm.trans hr')
    exact Or.inl ⟨_, _, hchildren, ha, ho⟩
  | statement hs' =>
    obtain rfl := Symbol.name_injective (hs.symm.trans hs')
    cases hr

/-- The operator is read first. -/
theorem settles_operator (hs : t.symbol = s.name) (hr : s.operand? = some r) (hchildren : t.children = [o, a])
    (hne : ∀ l ∈ shapes s, t.shape ≠ l.map Symbol.name) : Settles (o.token ≠ none) t.Blames fun _ => o.lexeme := by
  unfold Tree.lexeme
  cases hk : o.token with
  | some k => exact .ok (by simp) k.lexeme
  | none =>
    refine .error (.self (fun hfits => ?_) (.tokenMissing (by simp [hchildren]) hk))
    cases hfits.operation_or_shape hs hr with
    | inl h =>
      obtain ⟨o', a', hchildren', -, ho⟩ := h
      rw [hchildren, List.cons.injEq] at hchildren'
      exact ho (hchildren'.1 ▸ hk)
    | inr h =>
      obtain ⟨l, hl, hshape⟩ := h
      exact hne l hl hshape

theorem blames_of_not_pair (hs : t.symbol = s.name) (hr : s.operand? = some r)
    (hne : ∀ l ∈ shapes s, t.shape ≠ l.map Symbol.name)
    (hpair : ∀ o a, t.children = [o, a] → a.symbol ≠ r.name) : t.Blames t.unexpected := by
  refine .self (fun hfits => ?_) .unexpected
  cases hfits.operation_or_shape hs hr with
  | inl h =>
    obtain ⟨o, a, hchildren, ha, -⟩ := h
    exact hpair o a hchildren ha
  | inr h =>
    obtain ⟨l, hl, hshape⟩ := h
    exact hne l hl hshape

theorem Fits.exists_converted (h : t.Fits) (hs : t.symbol = Symbol.stmt.name) :
    ∃ r a, r ∈ converted ∧ t.children = [a] ∧ a.symbol = r.name := by
  cases h with
  | rule hs' hl hshape =>
    obtain rfl := Symbol.name_injective (hs.symm.trans hs')
    obtain ⟨r, hr, rfl⟩ := (by decide : ∀ l ∈ shapes .stmt, ∃ r ∈ converted, l = [r]) _ (mem_shapes.mpr hl)
    obtain ⟨a, hchildren, ha⟩ := List.map_eq_singleton_iff.mp hshape
    exact ⟨r, a, hr, hchildren, ha⟩
  | group hs' => exact absurd (Symbol.name_injective (hs.symm.trans hs')) (by decide)
  | operation hs' hr =>
    obtain rfl := Symbol.name_injective (hs.symm.trans hs')
    cases hr
  | statement _ hr hchildren ha => exact ⟨_, _, hr, hchildren, ha⟩

/-! ## Wrappers -/

theorem wrapped?_eq (hs : t.symbol = s.name) (hnode : s ∈ Symbol.nonterminals) (hw : wrapperShape? s = some (l, i)) :
    t.wrapped? =
      if t.shape = l.map Symbol.name ∧ (t.children.eraseIdx i).all isLeaf = true then t.children[i]? else none := by
  rw [wrapped?, hs, Symbol.ofNonterminal?_name hnode, Option.bind_some, hw]
  simp only [hasShape, Bool.and_eq_true, decide_eq_true_eq]

theorem wrapped?_of_wrapperShape (hs : t.symbol = s.name) (hnode : s ∈ Symbol.nonterminals)
    (hw : wrapperShape? s = none) : t.wrapped? = none := by
  rw [wrapped?, hs, Symbol.ofNonterminal?_name hnode, Option.bind_some, hw]

theorem exists_of_wrapped (h : t.wrapped? = some c) : ∃ s l i, t.symbol = s.name ∧ wrapperShape? s = some (l, i) ∧
    t.shape = l.map Symbol.name ∧ (t.children.eraseIdx i).all isLeaf = true ∧ t.children[i]? = some c := by
  have h' := h
  unfold wrapped? at h'
  split at h'
  · rename_i l i hw
    obtain ⟨s, hs, hw⟩ := Option.bind_eq_some_iff.mp hw
    obtain ⟨hnode, hname⟩ := Symbol.ofNonterminal?_eq_some.mp hs
    rw [wrapped?_eq hname hnode hw] at h
    split at h
    · rename_i hshape
      exact ⟨s, l, i, hname, hw, hshape.1, hshape.2, h⟩
    · cases h
  · cases h'

theorem wrapped?_of_not_expression (h : ∀ r ∈ expressions, t.symbol ≠ r.name) : t.wrapped? = none := by
  cases hw : t.wrapped? with
  | none => rfl
  | some c =>
    obtain ⟨s, l, i, hs, hshape, -⟩ := exists_of_wrapped hw
    exact absurd hs (h s (by cases s <;> first | decide | cases hshape))

theorem eq_single (h : cs.length = 1) (hc : cs[0]? = some c) : cs = [c] := by
  obtain ⟨a, rfl⟩ := List.length_eq_one_iff.mp h
  rw [Option.some.inj hc]

theorem eq_pair (h : cs.length = 2) (hleaves : (cs.eraseIdx 0).all isLeaf = true) (hc : cs[0]? = some c) :
    ∃ b, cs = [c, b] ∧ b.isLeaf = true := by
  obtain ⟨a, b, rfl⟩ := List.length_eq_two.mp h
  obtain rfl := Option.some.inj hc
  exact ⟨b, rfl, by simpa using hleaves⟩

theorem eq_triple (h : cs.length = 3) (hleaves : (cs.eraseIdx 1).all isLeaf = true) (hc : cs[1]? = some c) :
    ∃ a b, cs = [a, c, b] ∧ a.isLeaf = true ∧ b.isLeaf = true := by
  obtain ⟨a, e, b, rfl⟩ := List.length_eq_three.mp h
  obtain rfl := Option.some.inj hc
  exact ⟨a, b, rfl, by simpa using hleaves⟩

/-- A part that decides about the whole. -/
structure Wraps (t c : Tree) : Prop where
  mem_parts : c ∈ t.parts
  sound : c.Sound → t.Sound
  expression : ∃ r ∈ expressions, c.symbol = r.name

theorem wraps_of_single (hs : t.symbol = s.name) (hshape : t.shape = [r].map Symbol.name) (hc : t.children[0]? = some c)
    (hl : (s, [r]) ∈ plainRules ∧ r ∈ expressions ∧ r.role = .node) : t.Wraps c := by
  have v : t.Node s [r] t.children := ⟨hs, rfl, hshape, hl.1⟩
  refine ⟨v.mem_parts 0 hc rfl hl.2.2, fun hsound => ?_, r, hl.2.1, v.symbol_at 0 hc rfl⟩
  rw [eq_single v.length_eq hc] at v
  exact v.sound (.cons (good_of_node hl.2.2 hsound) .nil)

theorem wraps_of_pair {r' : Symbol} (hs : t.symbol = s.name) (hshape : t.shape = [r, r'].map Symbol.name)
    (hleaves : (t.children.eraseIdx 0).all isLeaf = true) (hc : t.children[0]? = some c)
    (hl : (s, [r, r']) ∈ plainRules ∧ r ∈ expressions ∧ r.role = .node ∧ r'.role = .node ∧ (r', []) ∈ plainRules) :
    t.Wraps c := by
  obtain ⟨hrule, hmem, hrole, hrole', hempty⟩ := hl
  have v : t.Node s [r, r'] t.children := ⟨hs, rfl, hshape, hrule⟩
  refine ⟨v.mem_parts 0 hc rfl hrole, fun hsound => ?_, r, hmem, v.symbol_at 0 hc rfl⟩
  obtain ⟨b, hchildren, hb⟩ := eq_pair v.length_eq hleaves hc
  rw [hchildren] at v
  have htail := sound_of_isLeaf (v.symbol_at 1 rfl rfl) hempty hb
  exact v.sound (.cons (good_of_node hrole hsound) (.cons (good_of_node hrole' htail) .nil))

theorem wraps_of_group (hs : t.symbol = Symbol.primaryExpr.name) (hshape : t.shape = groupShape.map Symbol.name)
    (hleaves : (t.children.eraseIdx 1).all isLeaf = true) (hc : t.children[1]? = some c) : t.Wraps c := by
  have hne : t.isOperation = false := by rw [isOperation_eq hs (by decide)]; rfl
  have hexpr : c.symbol = Symbol.expr.name := by
    have h := congrArg (·[1]?) hshape
    simpa [shape, hc, groupShape] using h
  refine ⟨mem_parts hne (List.mem_of_getElem? hc) hexpr (by decide), fun hsound => ?_, .expr, by decide, hexpr⟩
  refine sound_iff.mpr ⟨.group hs hshape hleaves, fun u hu => ?_⟩
  -- Among the three children only the one in the middle is a node.
  have hnode := (List.mem_filter.mp hu).2
  have hmark : ∀ s ∈ [Symbol.leftParen, .rightParen], s.name ≠ u.symbol := by
    intro s hs heq
    rw [← heq] at hnode
    exact absurd hnode ((by decide : ∀ s ∈ [Symbol.leftParen, .rightParen],
      ¬ (Symbol.ofNonterminal? s.name).isSome = true) s hs)
  obtain ⟨i, hi⟩ := List.mem_iff_getElem?.mp (mem_children_of_parts hu)
  have hsymbol : (groupShape.map Symbol.name)[i]? = some u.symbol := by
    rw [← hshape, shape, List.getElem?_map, hi, Option.map_some]
  obtain _ | _ | _ | i := i
  · exact absurd (Option.some.inj hsymbol) (hmark .leftParen (by decide))
  · obtain rfl := Option.some.inj (hc.symm.trans hi)
    exact hsound
  · exact absurd (Option.some.inj hsymbol) (hmark .rightParen (by decide))
  · simp [groupShape] at hsymbol

theorem wraps_of_wrapped (h : t.wrapped? = some c) : t.Wraps c := by
  obtain ⟨s, l, i, hs, hw, hshape, hleaves, hc⟩ := exists_of_wrapped h
  cases s <;> cases hw
  case primaryExpr => exact wraps_of_group hs hshape hleaves hc
  case expr | unaryExpr => exact wraps_of_single hs hshape hc (by decide)
  all_goals exact wraps_of_pair hs hshape hleaves hc (by decide)

/-- A node in the shape of a wrapper is one unless some child that should be empty is not. -/
theorem not_all_isLeaf (hs : t.symbol = s.name) (hnode : s ∈ Symbol.nonterminals)
    (hw : wrapperShape? s = some (l, i) ∧ i < l.length) (hshape : t.shape = l.map Symbol.name)
    (h : t.wrapped? = none) : (t.children.eraseIdx i).all isLeaf ≠ true := by
  intro hleaves
  have hlength : t.children.length = l.length := by simpa [shape] using congrArg List.length hshape
  rw [wrapped?_eq hs hnode hw.1, if_pos ⟨hshape, hleaves⟩, List.getElem?_eq_none_iff] at h
  omega

end Tree
end Lookahead
