import Lookahead.Proofs.Program.Node
import Lookahead.Proofs.Program.Tails

/-! Trees that no conversion tells apart: the same but for wrappers around expressions and for commas at the end of
a list. -/
namespace Lookahead

open Script

namespace Tree

/-- The lists in which a comma may come last, with their items and tails. -/
def lists : List (Symbol × Symbol × Symbol) := [(.propList, .prop, .propTail), (.elements, .expr, .elementsTail)]

/-- The nodes look the same from above. -/
structure Similar (t t' : Tree) : Prop where
  symbol_eq : t.symbol = t'.symbol
  token_eq : t.token = t'.token
  isLeaf_eq : t.isLeaf = t'.isLeaf

/-- The expressions that can stand in parentheses where they are. -/
def grouped : List Symbol := [.expr, .primaryExpr]

inductive Alike : Tree → Tree → Prop
  | refl (t : Tree) : Alike t t
  | wrapped {t t' : Tree} {s : Symbol} : t.Similar t' → s ∈ grouped → t.symbol = s.name → t.core = t'.core → Alike t t'
  | list {t t' : Tree} {l : Symbol × Symbol × Symbol} : t.Similar t' → l ∈ lists → t.symbol = l.1.name →
      t.entries l.1 l.2.1 l.2.2 = t'.entries l.1 l.2.1 l.2.2 → Alike t t'
  | node {s : String} {p p' : Option Int} {k : Option Token} {cs : List (Tree × Tree)} : (∀ c ∈ cs, Alike c.1 c.2) →
      Alike (.node s p k (cs.map Prod.fst)) (.node s p' k (cs.map Prod.snd))

variable {α : Type} {s : Symbol} {l : List Symbol} {i : ℕ} {t t' c c' : Tree} {cs cs' : List Tree}

theorem Similar.refl (t : Tree) : t.Similar t := ⟨rfl, rfl, rfl⟩

theorem Alike.similar (h : t.Alike t') : t.Similar t' := by
  cases h with
  | refl => exact .refl t
  | wrapped hsim => exact hsim
  | list hsim => exact hsim
  | @node s p p' k cs => cases cs <;> exact ⟨rfl, rfl, rfl⟩

/-- The nodes are alike because their children are. -/
structure Parallel (t t' : Tree) : Prop extends t.Similar t' where
  children : List.Forall₂ Alike t.children t'.children

theorem Parallel.refl (t : Tree) : t.Parallel t := ⟨.refl t, List.forall₂_same.mpr fun c _ => .refl c⟩

/-- The symbols of the nodes that may be alike in other ways. -/
def flexible : List Symbol := grouped ++ lists.map Prod.fst

theorem parallel_node {s : String} {p p' : Option Int} {k : Option Token} {cs : List (Tree × Tree)}
    (h : ∀ c ∈ cs, Alike c.1 c.2) : (node s p k (cs.map Prod.fst)).Parallel (.node s p' k (cs.map Prod.snd)) := by
  refine ⟨(Alike.node h).similar, ?_⟩
  rw [Tree.children, Tree.children, List.forall₂_map_left_iff, List.forall₂_map_right_iff, List.forall₂_same]
  exact h

theorem Alike.inside {s : String} {p p' : Option Int} {k : Option Token} (h : c.Alike c') (ds ds' : List Tree) :
    (Tree.node s p k (ds ++ c :: ds')).Alike (.node s p' k (ds ++ c' :: ds')) := by
  have hpairs : ∀ d ∈ ds.map (fun d => (d, d)) ++ (c, c') :: ds'.map (fun d => (d, d)), Alike d.1 d.2 := by
    rw [List.forall_mem_append, List.forall_mem_cons, List.forall_mem_map, List.forall_mem_map]
    exact ⟨fun d _ => .refl d, h, fun d _ => .refl d⟩
  simpa [List.map_map, Function.comp_def] using @Alike.node s p p' k _ hpairs

theorem Alike.parallel_of_ne (h : t.Alike t') (hs : ∀ s ∈ flexible, t.symbol ≠ s.name) : t.Parallel t' := by
  cases h with
  | refl => exact .refl t
  | wrapped _ hmem hs' => exact absurd hs' (hs _ (List.mem_append_left _ hmem))
  | list _ hmem hlist => exact absurd hlist (hs _ (List.mem_append_right _ (List.mem_map_of_mem hmem)))
  | node hcs => exact parallel_node hcs

theorem Alike.parallel (h : t.Alike t') (hs : t.symbol = s.name) (hnot : s ∉ flexible) : t.Parallel t' :=
  h.parallel_of_ne fun _ hmem hr => hnot (Symbol.name_injective (hs.symm.trans hr) ▸ hmem)

theorem Alike.lexeme_eq (h : t.Alike t') : t.lexeme = t'.lexeme := by
  rw [lexeme, lexeme, h.similar.token_eq, h.similar.symbol_eq]

/-! ## Parallel nodes -/

theorem all_isLeaf_eq (h : List.Forall₂ Alike cs cs') (i : ℕ) :
    (cs.eraseIdx i).all isLeaf = (cs'.eraseIdx i).all isLeaf := by
  induction h generalizing i with
  | nil => rfl
  | @cons c c' cs cs' hc hcs ih =>
    cases i with
    | zero =>
      have hmap : cs.map isLeaf = cs'.map isLeaf := by
        rw [← List.forall₂_eq_eq_eq, List.forall₂_map_left_iff, List.forall₂_map_right_iff]
        exact hcs.imp fun _ _ hc => hc.similar.isLeaf_eq
      simpa using congrArg (fun bs => bs.all id) hmap
    | succ i => simp only [List.eraseIdx_cons_succ, List.all_cons, hc.similar.isLeaf_eq, ih]

/-- Children in the shape of a rule, alike one by one. -/
inductive Pairs : List Symbol → List Tree → List Tree → Prop
  | nil : Pairs [] [] []
  | cons {s : Symbol} {l : List Symbol} {c c' : Tree} {cs cs' : List Tree} : c.symbol = s.name → c.Alike c' →
      Pairs l cs cs' → Pairs (s :: l) (c :: cs) (c' :: cs')

theorem pairs_of_forall₂ (h : List.Forall₂ Alike cs cs') (hshape : cs.map symbol = l.map Symbol.name) :
    Pairs l cs cs' := by
  induction h generalizing l with
  | nil =>
    obtain rfl : l = [] := List.map_eq_nil_iff.mp hshape.symm
    exact .nil
  | cons hc _ ih =>
    cases l with
    | nil => cases hshape
    | cons s l =>
      rw [List.map_cons, List.map_cons, List.cons.injEq] at hshape
      exact .cons hshape.1 hc (ih hshape.2)

namespace Parallel

theorem shape_eq (h : t.Parallel t') : t.shape = t'.shape := by
  rw [shape, shape, ← List.forall₂_eq_eq_eq, List.forall₂_map_left_iff, List.forall₂_map_right_iff]
  exact h.children.imp fun _ _ hc => hc.similar.symbol_eq

theorem malformed_eq (h : t.Parallel t') (l : List Symbol) : t.malformed l = t'.malformed l := by
  rw [malformed, malformed, h.symbol_eq, h.shape_eq]

theorem unexpected_eq (h : t.Parallel t') : t.unexpected = t'.unexpected := by
  rw [unexpected, unexpected, h.symbol_eq, h.shape_eq]

theorem hasShape_eq (h : t.Parallel t') (l : List Symbol) : t.hasShape l = t'.hasShape l := by
  rw [hasShape, hasShape, h.shape_eq]

theorem split?_cases (h : t.Parallel t') (l : List Symbol) : (t.split? l = none ∧ t'.split? l = none) ∨
    ∃ cs cs', t.split? l = some cs ∧ t'.split? l = some cs' ∧ t.children = cs ∧ Pairs l cs cs' := by
  have hl : t'.split? l = if t.hasShape l then some t'.children else none := by rw [split?, h.hasShape_eq]
  rw [hl, split?]
  cases hshape : t.hasShape l with
  | false => exact Or.inl ⟨rfl, rfl⟩
  | true => exact Or.inr ⟨_, _, rfl, rfl, rfl, pairs_of_forall₂ h.children (of_decide_eq_true hshape)⟩

theorem single_cases (h : t.Parallel t') : (∃ a a', t.children = [a] ∧ t'.children = [a'] ∧ a.Alike a') ∨
    ((∀ a, t.children ≠ [a]) ∧ ∀ a, t'.children ≠ [a]) := by
  have hchildren := h.children
  generalize t.children = cs, t'.children = cs' at hchildren
  obtain _ | ⟨ha, _ | _⟩ := hchildren
  · exact Or.inr ⟨by simp, by simp⟩
  · exact Or.inl ⟨_, _, rfl, rfl, ha⟩
  · exact Or.inr ⟨by simp, by simp⟩

theorem pair_cases (h : t.Parallel t') (x : String) :
    (∃ o a o' a', t.children = [o, a] ∧ t'.children = [o', a'] ∧ a.symbol = x ∧ o.Alike o' ∧ a.Alike a') ∨
      ((∀ o a, t.children = [o, a] → a.symbol ≠ x) ∧ ∀ o a, t'.children = [o, a] → a.symbol ≠ x) := by
  have hchildren := h.children
  generalize t.children = cs, t'.children = cs' at hchildren
  obtain _ | ⟨ho, _ | @⟨a, _, _, _, ha, _ | _⟩⟩ := hchildren
  · exact Or.inr ⟨by simp, by simp⟩
  · exact Or.inr ⟨by simp, by simp⟩
  · by_cases hx : a.symbol = x
    · exact Or.inl ⟨_, _, _, _, rfl, rfl, hx, ho, ha⟩
    · refine Or.inr ⟨by simpa using hx, ?_⟩
      rw [ha.similar.symbol_eq] at hx
      simpa using hx
  · exact Or.inr ⟨by simp, by simp⟩

theorem wrapped?_cases (h : t.Parallel t') : (t.wrapped? = none ∧ t'.wrapped? = none) ∨
    ∃ c c', t.wrapped? = some c ∧ t'.wrapped? = some c' ∧ c.Alike c' := by
  unfold wrapped?
  rw [h.symbol_eq]
  cases (Symbol.ofNonterminal? t'.symbol).bind wrapperShape? with
  | none => exact Or.inl ⟨rfl, rfl⟩
  | some w =>
    obtain ⟨l, i⟩ := w
    simp only [h.hasShape_eq, all_isLeaf_eq h.children i]
    split
    · cases hc : t.children[i]? with
      | none =>
        rw [List.getElem?_eq_none_iff, h.children.length_eq] at hc
        exact Or.inl ⟨rfl, List.getElem?_eq_none_iff.mpr hc⟩
      | some c =>
        obtain ⟨hi, rfl⟩ := List.getElem?_eq_some_iff.mp hc
        have hi' : i < t'.children.length := h.children.length_eq ▸ hi
        exact Or.inr ⟨_, _, rfl, List.getElem?_eq_getElem hi', h.children.get hi hi'⟩
    · exact Or.inl ⟨rfl, rfl⟩

end Parallel

theorem Alike.list_cases {l : Symbol × Symbol × Symbol} (hl : l ∈ lists) (h : t.Alike t') (hs : t.symbol = l.1.name) :
    t.entries l.1 l.2.1 l.2.2 = t'.entries l.1 l.2.1 l.2.2 ∨ t.Parallel t' := by
  cases h with
  | refl => exact Or.inl rfl
  | wrapped _ hmem hs' =>
    have hname := Symbol.name_injective (hs.symm.trans hs')
    exact absurd hname ((by decide : ∀ l ∈ lists, ∀ s ∈ grouped, l.1 ≠ s) _ hl _ hmem)
  | list _ hl' hs' hentries =>
    have hname := Symbol.name_injective (hs.symm.trans hs')
    obtain rfl := (by decide : ∀ l ∈ lists, ∀ l' ∈ lists, l.1 = l'.1 → l = l') _ hl _ hl' hname
    exact Or.inl hentries
  | node hcs => exact Or.inr (parallel_node hcs)

theorem ne_list_of_expression (hs : t.symbol = s.name) (hmem : s ∈ expressions) : ∀ l ∈ lists, t.symbol ≠ l.1.name :=
  fun _ hl h => (by decide : ∀ l ∈ lists, l.1 ∉ expressions) _ hl (Symbol.name_injective (hs.symm.trans h) ▸ hmem)

/-- Under the wrappers of alike trees is the same node, or parallel ones are. -/
theorem Alike.core_cases (h : t.Alike t') (hs : ∀ l ∈ lists, t.symbol ≠ l.1.name) :
    t.core = t'.core ∨ t.core.Parallel t'.core := by
  induction hn : sizeOf t using Nat.strong_induction_on generalizing t t' with
  | _ n ih =>
    have hcases : t.core = t'.core ∨ t.Parallel t' := by
      cases h with
      | refl => exact Or.inl rfl
      | wrapped _ _ _ hcore => exact Or.inl hcore
      | list _ hl hlist => exact absurd hlist (hs _ hl)
      | node hcs => exact Or.inr (parallel_node hcs)
    cases hcases with
    | inl hcore => exact Or.inl hcore
    | inr hpar =>
      obtain ⟨hnone, hnone'⟩ | ⟨c, c', hc, hc', halike⟩ := hpar.wrapped?_cases
      · rw [core_of_none hnone, core_of_none hnone']
        exact Or.inr hpar
      · obtain ⟨r, hr, hsymbol⟩ := (wraps_of_wrapped hc).expression
        rw [core_of_some hc, core_of_some hc']
        exact ih _ (hn ▸ sizeOf_child (wrapped?_mem hc)) halike (ne_list_of_expression hsymbol hr) rfl

/-- A list is not a wrapper. -/
theorem core_of_list {l : Symbol × Symbol × Symbol} (hl : l ∈ lists) (hs : t.symbol = l.1.name) : t.core = t :=
  core_of_none (wrapped?_of_wrapperShape hs ((by decide : ∀ l ∈ lists, l.1 ∈ Symbol.nonterminals) l hl)
    ((by decide : ∀ l ∈ lists, wrapperShape? l.1 = none) l hl))

end Tree
end Lookahead
