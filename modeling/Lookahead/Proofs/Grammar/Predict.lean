import Lookahead.Proofs.Grammar.WellFormed

/-! Which symbols derive the empty word, which terminals a symbol can start with and be followed by, and
so for which lookaheads a production is the one to expand. All of it is said by rules and without sets. -/
namespace Lookahead
namespace Grammar

inductive Vanishes (g : Grammar) : String → Prop
  | production {p : Production} : p ∈ g.productions → (∀ s ∈ p.body, Vanishes g s) → Vanishes g p.lhs

def AllVanish (g : Grammar) (l : List String) : Prop := ∀ s ∈ l, g.Vanishes s

/-- The terminal `t` can start what the symbol derives. -/
inductive Starts (g : Grammar) (t : String) : String → Prop
  | terminal : t ∈ g.terminals → t ≠ epsilon → Starts g t t
  | production {p : Production} {α β : List String} {s : String} : p ∈ g.productions → p.body = α ++ s :: β →
      g.AllVanish α → Starts g t s → Starts g t p.lhs

def Heads (g : Grammar) (t : String) (l : List String) : Prop :=
  ∃ α s β, l = α ++ s :: β ∧ g.AllVanish α ∧ g.Starts t s

/-- The terminal `t`, or the end marker, can come right after the nonterminal. -/
inductive Follows (g : Grammar) (t : String) : String → Prop
  | finish : t = endMarker → Follows g t g.start
  | next {p : Production} {α β : List String} {s : String} : p ∈ g.productions → p.rhs = α ++ s :: β →
      s ∈ g.nonterminals → g.Heads t β → Follows g t s
  | inherit {p : Production} {α β : List String} {s : String} : p ∈ g.productions → p.rhs = α ++ s :: β →
      s ∈ g.nonterminals → g.AllVanish β → Follows g t p.lhs → Follows g t s

/-- The lookahead `t` calls for the production. -/
def Predicts (g : Grammar) (p : Production) (t : String) : Prop :=
  g.Heads t p.body ∨ (g.AllVanish p.body ∧ g.Follows t p.lhs)

variable {g : Grammar} {p : Production} {t s : String} {l m : List String}

/-! ## Sequences -/

theorem allVanish_nil : g.AllVanish [] := fun _ h => absurd h List.not_mem_nil

@[simp] theorem allVanish_cons : g.AllVanish (s :: l) ↔ g.Vanishes s ∧ g.AllVanish l := List.forall_mem_cons

@[simp] theorem allVanish_append : g.AllVanish (l ++ m) ↔ g.AllVanish l ∧ g.AllVanish m := List.forall_mem_append

@[simp] theorem not_heads_nil : ¬ g.Heads t [] := by
  rintro ⟨α, s, β, h, -⟩
  exact List.append_ne_nil_of_right_ne_nil α (List.cons_ne_nil s β) h.symm

@[simp] theorem heads_cons : g.Heads t (s :: l) ↔ g.Starts t s ∨ (g.Vanishes s ∧ g.Heads t l) := by
  constructor
  · rintro ⟨α, r, β, h, hα, hr⟩
    cases α with
    | nil =>
      rw [List.nil_append, List.cons.injEq] at h
      exact Or.inl (h.1 ▸ hr)
    | cons a α =>
      rw [List.cons_append, List.cons.injEq] at h
      rw [allVanish_cons] at hα
      exact Or.inr ⟨h.1 ▸ hα.1, α, r, β, h.2, hα.2, hr⟩
  · rintro (hs | ⟨hv, α, r, β, h, hα, hr⟩)
    · exact ⟨[], s, l, rfl, allVanish_nil, hs⟩
    · exact ⟨s :: α, r, β, by rw [h, List.cons_append], allVanish_cons.mpr ⟨hv, hα⟩, hr⟩

@[simp] theorem heads_append : g.Heads t (l ++ m) ↔ g.Heads t l ∨ (g.AllVanish l ∧ g.Heads t m) := by
  induction l with
  | nil => simp [allVanish_nil]
  | cons s l ih =>
    rw [List.cons_append, heads_cons, ih, heads_cons, allVanish_cons]
    tauto

/-! ## Productions -/

theorem Starts.of_heads (hp : p ∈ g.productions) (h : g.Heads t p.body) : g.Starts t p.lhs := by
  obtain ⟨α, s, β, hb, hα, hs⟩ := h
  exact .production hp hb hα hs

theorem Starts.mem_terminals (h : g.Starts t s) : t ∈ g.terminals ∧ t ≠ epsilon := by
  induction h with
  | terminal ht hε => exact ⟨ht, hε⟩
  | production _ _ _ _ ih => exact ih

theorem Heads.mem_terminals (h : g.Heads t l) : t ∈ g.terminals ∧ t ≠ epsilon := by
  obtain ⟨_, _, _, _, _, hs⟩ := h
  exact hs.mem_terminals

theorem Starts.exists_production (h : g.Starts t s) (hs : s ∈ g.nonterminals) (hg : g.WellFormed) :
    ∃ p ∈ g.productions, p.lhs = s ∧ g.Heads t p.body := by
  cases h with
  | terminal ht _ => exact absurd hs (hg.disjoint t ht)
  | production hp hb hα hr => exact ⟨_, hp, rfl, _, _, _, hb, hα, hr⟩

theorem Vanishes.exists_production (h : g.Vanishes s) : ∃ p ∈ g.productions, p.lhs = s ∧ g.AllVanish p.body := by
  cases h with
  | production hp hb => exact ⟨_, hp, rfl, hb⟩

theorem Follows.mem_terminals (h : g.Follows t s) : t = endMarker ∨ t ∈ g.terminals := by
  induction h with
  | finish ht => exact Or.inl ht
  | next _ _ _ ht => exact Or.inr ht.mem_terminals.1
  | inherit _ _ _ _ _ ih => exact ih

theorem Follows.ne_epsilon (h : g.Follows t s) : t ≠ epsilon := by
  induction h with
  | finish ht =>
    rw [ht]
    decide
  | next _ _ _ ht => exact ht.mem_terminals.2
  | inherit _ _ _ _ _ ih => exact ih

theorem Predicts.mem_terminals (h : g.Predicts p t) : t = endMarker ∨ t ∈ g.terminals := by
  rcases h with h | ⟨-, h⟩
  · exact Or.inr h.mem_terminals.1
  · exact h.mem_terminals

theorem Predicts.ne_epsilon (h : g.Predicts p t) : t ≠ epsilon := by
  rcases h with h | ⟨-, h⟩
  · exact h.mem_terminals.2
  · exact h.ne_epsilon

/-! ## Places in a body -/

section Body
variable {α β : List String}

theorem Follows.of_heads (hg : g.WellFormed) (hp : p ∈ g.productions) (hb : p.body = α ++ s :: β)
    (hs : s ∈ g.nonterminals) (h : g.Heads t β) : g.Follows t s := .next hp (hg.rhs_of_body hp hb) hs h

theorem Follows.of_allVanish (hg : g.WellFormed) (hp : p ∈ g.productions) (hb : p.body = α ++ s :: β)
    (hs : s ∈ g.nonterminals) (hβ : g.AllVanish β) (h : g.Follows t p.lhs) : g.Follows t s :=
  .inherit hp (hg.rhs_of_body hp hb) hs hβ h

theorem Vanishes.mem_nonterminals (hg : g.WellFormed) (h : g.Vanishes s) : s ∈ g.nonterminals := by
  cases h with
  | production hp _ => exact hg.lhs_mem _ hp

end Body
end Grammar
end Lookahead
