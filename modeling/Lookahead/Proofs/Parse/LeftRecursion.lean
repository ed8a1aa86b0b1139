import Lookahead.Proofs.Parse.Below
import Lookahead.Proofs.Grammar.Begins
import Lookahead.Proofs.Tree.Derivation
import Mathlib.Order.WellFounded

/-! Left recursion against the table. A lookahead opens a node of a derivation tree if it is the first leaf below it
or, where there is none, a follower of its symbol. It opens the nodes further down on the left as well, and
each of them has a symbol that is below the one above it. Below a symbol there is never the symbol itself,
unless the table has conflicts. -/
namespace Lookahead
open Relation

namespace Tree

/-- The first tree is somewhere below the root of the second, with the leaves `w` to its left. -/
inductive Under : List String → Tree → Tree → Prop
  | child (s : String) (i : Option Int) (k : Option Token) (L R : List Tree) (c : Tree) :
      Under (L.flatMap frontier) c (node s i k (L ++ c :: R))
  | deeper (s : String) (i : Option Int) (k : Option Token) (L R : List Tree) {c l : Tree} {w : List String} :
      Under w l c → Under (L.flatMap frontier ++ w) l (node s i k (L ++ c :: R))

/-- The lookahead is at the front of what the tree derives and what follows it. -/
def Opens (g : Grammar) (t : String) (u : Tree) : Prop :=
  u.frontier.head? = some t ∨ (u.frontier = [] ∧ g.Follows t u.symbol)

variable {g : Grammar} {ok : String → Option Token → Prop} {p : Production} {t s : String} {i : Option Int}
  {k : Option Token} {c d l u : Tree} {cs L R : List Tree} {w : List String}

/-! ## Frontiers of derivation trees -/

theorem allVanish_of_forall (hv : ∀ c ∈ cs, c.frontier = [] → g.Vanishes c.symbol) (hcs : cs.flatMap frontier = []) :
    g.AllVanish (cs.map symbol) := by
  intro s hs
  obtain ⟨c, hc, rfl⟩ := List.mem_map.mp hs
  exact hv c hc (List.flatMap_eq_nil_iff.mp hcs c hc)

theorem heads_of_forall (hv : ∀ c ∈ cs, c.frontier = [] → g.Vanishes c.symbol)
    (hs : ∀ c ∈ cs, c.frontier.head? = some t → g.Starts t c.symbol) (hcs : (cs.flatMap frontier).head? = some t) :
    g.Heads t (cs.map symbol) := by
  induction cs with
  | nil => cases hcs
  | cons c cs ih =>
    rw [List.forall_mem_cons] at hv hs
    rw [List.flatMap_cons] at hcs
    rw [List.map_cons, Grammar.heads_cons]
    cases hc : c.frontier with
    | nil =>
      rw [hc, List.nil_append] at hcs
      exact Or.inr ⟨hv.1 hc, ih hv.2 hs.2 hcs⟩
    | cons a w =>
      rw [hc] at hcs
      exact Or.inl (hs.1 (hc ▸ hcs))

namespace Derivation

theorem vanishes (h : Derivation g ok d) (hd : d.frontier = []) : g.Vanishes d.symbol := by
  induction h with
  | leaf hs hk =>
    rw [frontier_leaf] at hd
    cases hd
  | @node p cs hp hcs _ ih =>
    rw [frontier_node] at hd
    exact .production hp (hcs ▸ allVanish_of_forall ih hd)

theorem starts (h : Derivation g ok d) (hε : d.symbol ≠ epsilon) (hd : d.frontier.head? = some t) :
    g.Starts t d.symbol := by
  induction h with
  | leaf hs hk =>
    rw [frontier_leaf] at hd
    obtain rfl := Option.some.inj hd
    exact .terminal hs hε
  | @node p cs hp hcs hderivation ih =>
    rw [frontier_node] at hd
    apply Grammar.Starts.of_heads hp
    rw [← hcs]
    refine heads_of_forall (fun c hc => (hderivation c hc).vanishes) (fun c hc => ih c hc ?_) hd
    exact Grammar.WellFormed.ne_epsilon_of_mem_body (hcs ▸ List.mem_map_of_mem hc)

theorem of_mem_subtrees (h : Derivation g ok d) (hu : u ∈ d.subtrees) : Derivation g ok u := by
  induction h with
  | leaf hs hk =>
    rw [subtrees_node, List.flatMap_nil, List.mem_singleton] at hu
    exact hu ▸ .leaf hs hk
  | node hp hcs hderivation ih =>
    rw [subtrees_node, List.mem_cons, List.mem_flatMap] at hu
    rcases hu with rfl | ⟨c, hc, hu⟩
    · exact .node hp hcs hderivation
    · exact ih c hc hu

end Derivation

/-! ## A node and one of its children -/

/-- A production with derivation trees for its body, one of them set apart. -/
structure Place (g : Grammar) (ok : String → Option Token → Prop) (p : Production) (L : List Tree) (c : Tree)
    (R : List Tree) : Prop where
  mem : p ∈ g.productions
  symbols : (L ++ c :: R).map symbol = p.body
  derivation : ∀ x ∈ L ++ c :: R, Derivation g ok x

theorem Derivation.exists_place (h : Derivation g ok (Tree.node s i k (L ++ c :: R))) :
    ∃ p, s = p.lhs ∧ i = some p.id ∧ Place g ok p L c R := by
  generalize hu : Tree.node s i k (L ++ c :: R) = u at h
  cases h with
  | leaf hs hk =>
    rw [node.injEq] at hu
    exact absurd hu.2.2.2 (List.append_ne_nil_of_right_ne_nil L (List.cons_ne_nil c R))
  | node hp hcs hderivation =>
    rw [node.injEq] at hu
    obtain ⟨rfl, rfl, -, rfl⟩ := hu
    exact ⟨_, rfl, rfl, hp, hcs, hderivation⟩

namespace Place

theorem body_eq (h : Place g ok p L c R) : p.body = L.map symbol ++ c.symbol :: R.map symbol := by
  rw [← h.symbols, List.map_append, List.map_cons]

theorem child (h : Place g ok p L c R) : Derivation g ok c :=
  h.derivation c (List.mem_append_right L List.mem_cons_self)

theorem vanishes (h : Place g ok p L c R) : ∀ x ∈ L ++ c :: R, x.frontier = [] → g.Vanishes x.symbol :=
  fun x hx => (h.derivation x hx).vanishes

theorem starts (h : Place g ok p L c R) :
    ∀ x ∈ L ++ c :: R, x.frontier.head? = some t → g.Starts t x.symbol := fun x hx =>
  (h.derivation x hx).starts (Grammar.WellFormed.ne_epsilon_of_mem_body (h.symbols ▸ List.mem_map_of_mem hx))

theorem predicts (h : Place g ok p L c R) (ht : Opens g t (node p.lhs (some p.id) k (L ++ c :: R))) :
    g.Predicts p t := by
  rw [Opens, frontier_node] at ht
  rw [Grammar.Predicts, ← h.symbols]
  exact ht.imp (heads_of_forall h.vanishes h.starts) (And.imp_left (allVanish_of_forall h.vanishes))

/-- What comes after a child is what the siblings to its right derive, and then what comes after the node. -/
theorem follows (hg : g.WellFormed) (h : Place g ok p L c R) (hc : c.symbol ∈ g.nonterminals)
    (ht : (R.flatMap frontier).head? = some t ∨ (R.flatMap frontier = [] ∧ g.Follows t p.lhs)) :
    g.Follows t c.symbol := by
  have hR : ∀ x ∈ R, x ∈ L ++ c :: R := fun x hx => List.mem_append_right L (List.mem_cons_of_mem c hx)
  have hv : ∀ x ∈ R, x.frontier = [] → g.Vanishes x.symbol := fun x hx => h.vanishes x (hR x hx)
  rcases ht with ht | ⟨hnil, hf⟩
  · exact .of_heads hg h.mem h.body_eq hc (heads_of_forall hv (fun x hx => h.starts x (hR x hx)) ht)
  · exact .of_allVanish hg h.mem h.body_eq hc (allVanish_of_forall hv hnil) hf

theorem opens (hg : g.WellFormed) (h : Place g ok p L c R) (hL : L.flatMap frontier = [])
    (ht : Opens g t (node p.lhs (some p.id) k (L ++ c :: R))) : Opens g t c := by
  rw [Opens, frontier_node, List.flatMap_append, hL, List.nil_append, List.flatMap_cons] at ht
  cases hc : c.frontier with
  | nil =>
    -- The first leaf below the node is further to the right, so it follows the child.
    rw [hc, List.nil_append] at ht
    exact Or.inr ⟨hc, h.follows hg ((h.child.vanishes hc).mem_nonterminals hg) ht⟩
  | cons a w =>
    rw [hc] at ht
    refine Or.inl (hc ▸ ht.resolve_right fun hnil => ?_)
    exact List.cons_ne_nil a _ hnil.1

theorem follows_left (hg : g.WellFormed) (h : Place g ok p L c R) (hL : L.flatMap frontier = [])
    (ht : Opens g t (node p.lhs (some p.id) k (L ++ c :: R))) :
    ∀ r ∈ L, g.Vanishes r.symbol ∧ g.Follows t r.symbol := by
  intro r hr
  have hnil : r.frontier = [] := List.flatMap_eq_nil_iff.mp hL r hr
  obtain ⟨L₁, L₂, rfl⟩ := List.append_of_mem hr
  rw [List.flatMap_append, List.append_eq_nil_iff] at hL
  have hcut : L₁ ++ r :: L₂ ++ c :: R = L₁ ++ r :: (L₂ ++ c :: R) := by rw [List.append_assoc, List.cons_append]
  have hplace : Place g ok p L₁ r (L₂ ++ c :: R) := ⟨h.mem, hcut ▸ h.symbols, hcut ▸ h.derivation⟩
  refine ⟨hplace.child.vanishes hnil, ?_⟩
  rcases hplace.opens hg hL.1 (hcut ▸ ht) with hhead | hopens
  · rw [hnil] at hhead
    cases hhead
  · exact hopens.2

end Place

/-- Something follows every nonterminal of a derivation tree if something follows its root. -/
theorem Derivation.exists_follows (hg : g.WellFormed) (h : Derivation g ok d)
    (hd : d.symbol ∈ g.nonterminals → ∃ t, g.Follows t d.symbol) :
    ∀ u ∈ d.subtrees, u.symbol ∈ g.nonterminals → ∃ t, g.Follows t u.symbol := by
  induction h with
  | leaf hs hk =>
    intro u hu
    rw [subtrees_node, List.flatMap_nil, List.mem_singleton] at hu
    exact hu ▸ hd
  | @node p cs hp hcs hderivation ih =>
    intro u hu
    rw [subtrees_node, List.mem_cons, List.mem_flatMap] at hu
    rcases hu with rfl | ⟨c, hc, hu⟩
    · exact hd
    · apply ih c hc ?_ u hu
      intro hcn
      obtain ⟨L, R, rfl⟩ := List.append_of_mem hc
      have hplace : Place g ok p L c R := ⟨hp, hcs, hderivation⟩
      cases hR : R.flatMap frontier with
      | nil =>
        obtain ⟨t, ht⟩ := hd (hg.lhs_mem p hp)
        exact ⟨t, hplace.follows hg hcn (Or.inr ⟨hR, ht⟩)⟩
      | cons t w => exact ⟨t, hplace.follows hg hcn (Or.inl (hR ▸ rfl))⟩

theorem Derivation.exists_opens (hg : g.WellFormed) (h : Derivation g ok d) (hstart : d.symbol = g.start)
    (hu : u ∈ d.subtrees) (hn : u.symbol ∈ g.nonterminals) : ∃ t, Opens g t u := by
  cases hfront : u.frontier with
  | nil =>
    obtain ⟨t, ht⟩ := h.exists_follows hg (fun _ => ⟨endMarker, hstart ▸ .finish rfl⟩) u hu hn
    exact ⟨t, Or.inr ⟨hfront, ht⟩⟩
  | cons t w => exact ⟨t, Or.inl (hfront ▸ rfl)⟩

theorem Under.symbol_mem (hg : g.WellFormed) (h : Under w l u) (hu : Derivation g ok u) :
    u.symbol ∈ g.nonterminals := by
  cases h <;>
  · obtain ⟨p, rfl, -, hplace⟩ := hu.exists_place
    exact hg.lhs_mem p hplace.mem

end Tree

/-! ## Nodes on the left are below one another -/

namespace Parser
open Lookahead.Tree
variable {P : Parser} {p : Production} {t : String} {ok : String → Option Token → Prop} {k : Option Token}
  {c l u : Tree} {L R : List Tree} {w : List String}

theorem passes_of_follows {s : String} (h : P.grammar.Decides P.table) (hv : P.grammar.Vanishes s)
    (hf : P.grammar.Follows t s) : P.Passes t s := by
  obtain ⟨p, hp, rfl, hbody⟩ := hv.exists_production
  refine ⟨p, predict_of_predicts h hp (Or.inr ⟨hbody, hf⟩), hbody, fun hheads => ?_⟩
  exact h.not_follows hv (.of_heads hp hheads) hf

theorem below_of_opens (h : P.grammar.Decides P.table) (hplace : Place P.grammar ok p L c R)
    (hL : L.flatMap frontier = []) (ht : Opens P.grammar t (node p.lhs (some p.id) k (L ++ c :: R))) :
    P.Below t c.symbol p.lhs := by
  refine ⟨p, _, _, predict_of_predicts h hplace.mem (hplace.predicts ht), hplace.body_eq, ?_⟩
  intro s hs
  obtain ⟨r, hr, rfl⟩ := List.mem_map.mp hs
  obtain ⟨hv, hf⟩ := hplace.follows_left h.wellFormed hL ht r hr
  exact passes_of_follows h hv hf

/-- The induction is on the way down from the upper node. The lookahead opens every node on it, for there are no
leaves to the left. -/
theorem transGen_below (h : P.grammar.Decides P.table) (hl : Under w l u) (hw : w = [])
    (hu : Derivation P.grammar ok u) (ht : Opens P.grammar t u) : TransGen (P.Below t) l.symbol u.symbol := by
  induction hl with
  | child s i k L R c =>
    obtain ⟨p, rfl, rfl, hplace⟩ := hu.exists_place
    exact .single (below_of_opens h hplace hw ht)
  | deeper s i k L R _ ih =>
    obtain ⟨p, rfl, rfl, hplace⟩ := hu.exists_place
    rw [List.append_eq_nil_iff] at hw
    exact (ih hw.2 hplace.child (hplace.opens h.wellFormed hw.1 ht)).tail (below_of_opens h hplace hw.1 ht)

end Parser

namespace Grammar
open Lookahead.Tree
variable {g : Grammar}

/-- If a node of a derivation tree of a sentence is somewhere above one with its own symbol, and no leaf below it is
to the left of that one, then the table has conflicts. -/
theorem conflicts_of_leftRecursion (hg : g.defects = []) {ok : String → Option Token → Prop} {d u l : Tree}
    (hd : Derivation g ok d) (hstart : d.symbol = g.start) (hu : u ∈ d.subtrees) (hl : Under [] l u)
    (hsymbol : l.symbol = u.symbol) : ∃ a, g.analyze = .ok a ∧ a.table.conflicts ≠ [] := by
  obtain ⟨a, ha, hdecides⟩ := analyze_decides hg
  refine ⟨a, ha, fun hc => ?_⟩
  have h : g.Decides a.table := hdecides hc
  have hu' : Derivation g ok u := hd.of_mem_subtrees hu
  obtain ⟨t, ht⟩ := hd.exists_opens h.wellFormed hstart hu (hl.symbol_mem h.wellFormed hu')
  -- Any parser with this table will do.
  let P : Parser := ⟨a.table, Token.lexeme, ""⟩
  have hP : P.grammar = g := h.grammar_eq
  have hbelow : TransGen (P.Below t) l.symbol u.symbol :=
    Parser.transGen_below (hP.symm ▸ h) hl rfl (hP.symm ▸ hu') (hP.symm ▸ ht)
  rw [hsymbol] at hbelow
  exact (Parser.below_wellFounded (P := P) (hP.symm ▸ h) t).transGen.irrefl.irrefl u.symbol hbelow

/-- Trees of `circular` with one `S` in the other, each behind an `A` that derives nothing. -/
def nested : Nat → Tree
  | 0 => .node "S" (some 1) none [.node "A" (some 3) none [], .node "B" (some 5) none []]
  | n + 1 =>
    .node "S" (some 1) none [.node "A" (some 3) none [], .node "B" (some 4) none [nested n, .node "b" none none []]]

theorem nested_symbol (n : Nat) : (nested n).symbol = "S" := by cases n <;> rfl

theorem nested_derivation (n : Nat) : Derivation circular (fun _ k => k = none) (nested n) := by
  have hA : Derivation circular (fun _ k => k = none) (.node "A" (some 3) none []) :=
    .node (p := ⟨3, "A", [epsilon]⟩) (by decide +kernel) rfl (by simp)
  have hB : Derivation circular (fun _ k => k = none) (.node "B" (some 5) none []) :=
    .node (p := ⟨5, "B", [epsilon]⟩) (by decide +kernel) rfl (by simp)
  have hb : Derivation circular (fun _ k => k = none) (.node "b" none none []) := .leaf (by decide +kernel) rfl
  induction n with
  | zero =>
    exact .node (p := ⟨1, "S", ["A", "B"]⟩) (by decide +kernel) rfl (by simp [hA, hB])
  | succ n ih =>
    have hB' : Derivation circular (fun _ k => k = none) (.node "B" (some 4) none [nested n, .node "b" none none []]) :=
      .node (p := ⟨4, "B", ["S", "b"]⟩) (by decide +kernel) (by rw [List.map_cons, nested_symbol]; rfl)
        (by simp [ih, hb])
    exact .node (p := ⟨1, "S", ["A", "B"]⟩) (by decide +kernel) rfl (by simp [hA, hB'])

theorem nested_under (n : Nat) : Under [] (nested n) (nested (n + 1)) := by
  have hB := Under.child "B" (some 4) none [] [.node "b" none none []] (nested n)
  have hS := Under.deeper "S" (some 1) none [.node "A" (some 3) none []] [] hB
  simpa [nested] using hS

theorem conflicts_of_leftRecursion_nested : circular.defects = [] ∧
    Derivation circular (fun _ k => k = none) (nested 1) ∧ (nested 1).symbol = circular.start ∧
      Under [] (nested 0) (nested 1) ∧ ∃ a, circular.analyze = .ok a ∧ a.table.conflicts ≠ [] := by
  have hg : circular.defects = [] := by decide +kernel
  have hu : nested 1 ∈ (nested 1).subtrees := by
    rw [nested, subtrees_node]
    exact List.mem_cons_self
  exact ⟨hg, nested_derivation 1, rfl, nested_under 0,
    conflicts_of_leftRecursion hg (nested_derivation 1) rfl hu (nested_under 0) rfl⟩

end Grammar
end Lookahead
