import Lookahead.Proofs.Grammar.Derivation
import Lookahead.Proofs.Tree.Listing
import Lookahead.Tree.OfRun

/-! Derivation trees of a grammar, and forests over the symbols of a stack. -/
namespace Lookahead
namespace Tree

/-- A derivation tree: every node is a terminal without children, whose symbol and token are as `ok` has it,
or it carries the number of a production for its symbol and has the body of that production below it. -/
inductive Derivation (g : Grammar) (ok : String → Option Token → Prop) : Tree → Prop
  | leaf {s : String} {k : Option Token} : s ∈ g.terminals → ok s k → Derivation g ok (node s none k [])
  | node {p : Production} {cs : List Tree} : p ∈ g.productions → cs.map symbol = p.body →
      (∀ c ∈ cs, Derivation g ok c) → Derivation g ok (node p.lhs (some p.id) none cs)

/-- A forest over the symbols `σ` whose leaves carry the tokens `w`, as a run makes it. -/
inductive Grows (g : Grammar) (ok : String → Token → Prop) : List String → List Token → List Tree → Prop
  | nil : Grows g ok [] [] []
  | leaf {s : String} {k : Token} {σ : List String} {w : List Token} {F : List Tree} : s ∈ g.terminals → ok s k →
      Grows g ok σ w F → Grows g ok (s :: σ) (k :: w) (Tree.leaf s k :: F)
  | node {p : Production} {σ : List String} {w : List Token} {F : List Tree} : p ∈ g.productions →
      Grows g ok (p.body ++ σ) w F →
      Grows g ok (p.lhs :: σ) w (Tree.node p.lhs (some p.id) none (F.take p.body.length) :: F.drop p.body.length)

theorem forest_cons (s : Step) (steps : List Step) : forest (s :: steps) = grow s (forest steps) := rfl

namespace Grows
variable {g : Grammar} {ok : String → Token → Prop} {σ : List String} {w : List Token} {F : List Tree}

theorem symbols (h : Grows g ok σ w F) : F.map symbol = σ := by
  induction h with
  | nil => rfl
  | leaf _ _ _ ih => rw [List.map_cons, ih, Tree.leaf, symbol]
  | node _ _ ih => rw [List.map_cons, symbol, List.map_drop, ih, List.drop_left]

theorem derivation (h : Grows g ok σ w F) :
    ∀ T ∈ F, Derivation g (fun s k => ∃ x, k = some x ∧ ok s x) T := by
  induction h with
  | nil => exact fun T hT => absurd hT List.not_mem_nil
  | leaf hs hok _ ih => exact List.forall_mem_cons.mpr ⟨.leaf hs ⟨_, rfl, hok⟩, ih⟩
  | node hp hF ih =>
    refine List.forall_mem_cons.mpr ⟨.node hp ?_ ?_, ?_⟩
    · rw [List.map_take, hF.symbols, List.take_left]
    · exact fun T hT => ih T (List.mem_of_mem_take hT)
    · exact fun T hT => ih T (List.mem_of_mem_drop hT)

theorem leaves (h : Grows g ok σ w F) : (F.flatMap Tree.leaves).map token = w.map some := by
  induction h with
  | nil => rfl
  | leaf _ _ _ ih => rw [List.flatMap_cons, leaves_leaf, List.map_append, ih, List.map_cons]; rfl
  | @node p σ w F _ _ ih =>
    rw [List.flatMap_cons, leaves_node, ← List.flatMap_append, List.take_append_drop, ih]

theorem mono {ok' : String → Token → Prop} (hok : ∀ s ∈ g.terminals, ∀ k, ok s k → ok' s k) (h : Grows g ok σ w F) :
    Grows g ok' σ w F := by
  induction h with
  | nil => exact .nil
  | leaf hs hk _ ih => exact .leaf hs (hok _ hs _ hk) ih
  | node hp _ ih => exact .node hp ih

theorem length_le {β : List String} (h : Grows g ok (β ++ σ) w F) : β.length ≤ F.length := by
  have hlength := congrArg List.length h.symbols
  rw [List.length_map, List.length_append] at hlength
  omega

theorem append {τ : List String} {v : List Token} {G : List Tree} (h : Grows g ok σ w F) (h' : Grows g ok τ v G) :
    Grows g ok (σ ++ τ) (w ++ v) (F ++ G) := by
  induction h with
  | nil => exact h'
  | leaf hs hk _ ih => exact .leaf hs hk ih
  | @node p σ w F hp hF ih =>
    rw [List.append_assoc] at ih
    have hnode := Grows.node hp ih
    rwa [List.take_append_of_le_length hF.length_le, List.drop_append_of_le_length hF.length_le] at hnode

/-- A forest is cut where its symbols are. -/
theorem exists_append {τ : List String} (h : Grows g ok (σ ++ τ) w F) :
    ∃ w₁ w₂ F₁ F₂, w = w₁ ++ w₂ ∧ F = F₁ ++ F₂ ∧ Grows g ok σ w₁ F₁ ∧ Grows g ok τ w₂ F₂ := by
  generalize hρ : σ ++ τ = ρ at h
  induction h generalizing σ with
  | nil =>
    obtain ⟨rfl, rfl⟩ := List.append_eq_nil_iff.mp hρ
    exact ⟨[], [], [], [], rfl, rfl, .nil, .nil⟩
  | leaf hs hk hF ih =>
    rcases List.append_eq_cons_iff.mp hρ with ⟨rfl, rfl⟩ | ⟨σ, rfl, rfl⟩
    · exact ⟨[], _, [], _, rfl, rfl, .nil, .leaf hs hk hF⟩
    · obtain ⟨w₁, w₂, F₁, F₂, rfl, rfl, h₁, h₂⟩ := ih rfl
      exact ⟨_ :: w₁, w₂, _ :: F₁, F₂, rfl, rfl, .leaf hs hk h₁, h₂⟩
  | node hp hF ih =>
    rcases List.append_eq_cons_iff.mp hρ with ⟨rfl, rfl⟩ | ⟨σ, rfl, rfl⟩
    · exact ⟨[], _, [], _, rfl, rfl, .nil, .node hp hF⟩
    · obtain ⟨w₁, w₂, F₁, F₂, rfl, rfl, h₁, h₂⟩ := ih (List.append_assoc _ _ _)
      refine ⟨w₁, w₂, _ :: F₁.drop _, F₂, rfl, ?_, .node hp h₁, h₂⟩
      rw [List.take_append_of_le_length h₁.length_le, List.drop_append_of_le_length h₁.length_le, List.cons_append]

theorem derives {terminalOf : Token → String} (h : Grows g (fun s k => terminalOf k = s) σ w F) :
    (∀ s ∈ w.map terminalOf, s ∈ g.terminals) ∧ g.Derives σ (w.map terminalOf) := by
  induction h with
  | nil => exact ⟨fun s hs => absurd hs List.not_mem_nil, .refl⟩
  | leaf hs hk _ ih =>
    rw [List.map_cons, hk, List.forall_mem_cons]
    exact ⟨⟨hs, ih.1⟩, ih.2.cons _⟩
  | node hp _ ih => exact ⟨ih.1, ih.2.expand hp⟩

end Grows

/-! ## Tokens for a derivation tree -/

section Tokens
variable {g : Grammar} {terminalOf : Token → String} {σ : List String} {w v : List Token} {F : List Tree}

/-- The children of a node are put in front of a forest from the last to the first. -/
theorem exists_grows_children {cs : List Tree}
    (hcs : ∀ c ∈ cs, ∀ {σ : List String} {w v : List Token} {F : List Tree},
      Grows g (fun s k => terminalOf k = s) σ w F → v.map terminalOf = c.frontier →
        ∃ T, T.strip = c ∧ Grows g (fun s k => terminalOf k = s) (c.symbol :: σ) (v ++ w) (T :: F))
    (hF : Grows g (fun s k => terminalOf k = s) σ w F) (hv : v.map terminalOf = cs.flatMap frontier) :
    ∃ Ts : List Tree, Ts.map strip = cs ∧
      Grows g (fun s k => terminalOf k = s) (cs.map symbol ++ σ) (v ++ w) (Ts ++ F) := by
  induction cs generalizing v with
  | nil =>
    rw [List.flatMap_nil, List.map_eq_nil_iff] at hv
    exact ⟨[], rfl, by rw [hv]; exact hF⟩
  | cons c cs ih =>
    rw [List.flatMap_cons, List.map_eq_append_iff] at hv
    obtain ⟨v₁, v₂, rfl, hv₁, hv₂⟩ := hv
    obtain ⟨Ts, hTs, hgrows⟩ := ih (fun c hc => hcs c (List.mem_cons_of_mem _ hc)) hv₂
    obtain ⟨T, hT, hT'⟩ := hcs c List.mem_cons_self hgrows hv₁
    refine ⟨T :: Ts, by rw [List.map_cons, hT, hTs], ?_⟩
    rw [List.append_assoc]
    exact hT'

/-- A derivation tree without tokens can be put in front of a forest, with tokens at its leaves that stand
for the terminals at its frontier. -/
theorem Derivation.exists_grows {d : Tree} (h : Derivation g (fun _ k => k = none) d)
    (hF : Grows g (fun s k => terminalOf k = s) σ w F) (hv : v.map terminalOf = d.frontier) :
    ∃ T, T.strip = d ∧ Grows g (fun s k => terminalOf k = s) (d.symbol :: σ) (v ++ w) (T :: F) := by
  induction h generalizing σ w v F with
  | @leaf s k hs hk =>
    rw [frontier_leaf, List.map_eq_singleton_iff] at hv
    obtain ⟨x, rfl, hx⟩ := hv
    exact ⟨Tree.leaf s x, by rw [Tree.leaf, strip_node, hk, List.map_nil], .leaf hs hx hF⟩
  | @node p cs hp hcs _ ih =>
    rw [frontier_node] at hv
    obtain ⟨Ts, hTs, hgrows⟩ := exists_grows_children ih hF hv
    have hlength : Ts.length = p.body.length := by rw [← hcs, ← hTs, List.length_map, List.length_map]
    rw [hcs] at hgrows
    have hnode := Grows.node hp hgrows
    rw [← hlength, List.take_left, List.drop_left] at hnode
    exact ⟨_, by rw [strip_node, hTs], hnode⟩

end Tokens
end Tree
end Lookahead
