import Lookahead.Proofs.Grammar.Predict
import Mathlib.Logic.Relation

/-! Derivations of sentential forms, and leftmost derivations cut short as soon as a given word stands at
the front. The first symbol of that word decides what the derivation starts with. -/
namespace Lookahead
namespace Grammar
open Relation

/-- One nonterminal of a sentential form is rewritten; the empty word leaves no symbol. -/
inductive Rewrites (g : Grammar) : List String → List String → Prop
  | production {p : Production} (α β : List String) : p ∈ g.productions →
      Rewrites g (α ++ p.lhs :: β) (α ++ (p.body ++ β))

def Derives (g : Grammar) : List String → List String → Prop := ReflTransGen g.Rewrites

def Sentence (g : Grammar) (u : List String) : Prop := (∀ s ∈ u, s ∈ g.terminals) ∧ g.Derives [g.start] u

/-- A word that the start symbol and the end marker derive the beginning of. The symbols of a word are not
nonterminals. -/
def Viable (g : Grammar) (u : List String) : Prop :=
  (∀ s ∈ u, s ∉ g.nonterminals) ∧ ∃ γ, g.Derives [g.start, endMarker] (u ++ γ)

/-- A leftmost derivation brings the word to the front of the sentential form. -/
inductive Reaches (g : Grammar) : List String → List String → Prop
  | stop (σ : List String) : Reaches g σ []
  | shift {s : String} {σ u : List String} : s ∉ g.nonterminals → Reaches g σ u → Reaches g (s :: σ) (s :: u)
  | expand {p : Production} {σ u : List String} : p ∈ g.productions → Reaches g (p.body ++ σ) u →
      Reaches g (p.lhs :: σ) u

variable {g : Grammar} {p : Production} {s t : String} {σ τ u v α β : List String}

/-! ## Derivations -/

theorem Rewrites.cons (h : g.Rewrites σ τ) (s : String) : g.Rewrites (s :: σ) (s :: τ) := by
  cases h with
  | production α β hp => exact .production (s :: α) β hp

theorem Rewrites.append_right (h : g.Rewrites σ τ) (γ : List String) : g.Rewrites (σ ++ γ) (τ ++ γ) := by
  cases h with
  | production α β hp =>
    have hstep := Rewrites.production α (β ++ γ) hp
    rwa [List.append_assoc, List.cons_append, List.append_assoc, List.append_assoc]

theorem Derives.cons (h : g.Derives σ τ) (s : String) : g.Derives (s :: σ) (s :: τ) :=
  ReflTransGen.lift (p := g.Rewrites) (s :: ·) (fun _ _ hstep => hstep.cons s) σ τ h

theorem Derives.append_right (h : g.Derives σ τ) (γ : List String) : g.Derives (σ ++ γ) (τ ++ γ) :=
  ReflTransGen.lift (p := g.Rewrites) (· ++ γ) (fun _ _ hstep => hstep.append_right γ) σ τ h

theorem Derives.expand (hp : p ∈ g.productions) (h : g.Derives (p.body ++ σ) τ) : g.Derives (p.lhs :: σ) τ :=
  ReflTransGen.head (.production [] σ hp) h

/-! ## Leftmost derivations -/

theorem Reaches.not_mem_nonterminals (h : g.Reaches σ u) : ∀ s ∈ u, s ∉ g.nonterminals := by
  induction h with
  | stop σ => exact fun s hs => absurd hs List.not_mem_nil
  | shift hs _ ih => exact List.forall_mem_cons.mpr ⟨hs, ih⟩
  | expand _ _ ih => exact ih

theorem Reaches.derives (h : g.Reaches σ u) : ∃ γ, g.Derives σ (u ++ γ) := by
  induction h with
  | stop σ => exact ⟨σ, .refl⟩
  | shift _ _ ih =>
    obtain ⟨γ, hγ⟩ := ih
    exact ⟨γ, hγ.cons _⟩
  | expand hp _ ih =>
    obtain ⟨γ, hγ⟩ := ih
    exact ⟨γ, hγ.expand hp⟩

theorem Reaches.of_append (h : g.Reaches σ (u ++ v)) : g.Reaches σ u := by
  generalize hw : u ++ v = w at h
  induction h generalizing u with
  | stop σ =>
    rw [List.append_eq_nil_iff] at hw
    rw [hw.1]
    exact .stop σ
  | @shift s σ w hs _ ih =>
    cases u with
    | nil => exact .stop _
    | cons a u =>
      rw [List.cons_append, List.cons.injEq] at hw
      rw [hw.1]
      exact .shift hs (ih hw.2)
  | expand hp _ ih => exact .expand hp (ih hw)

theorem reaches_append (hu : ∀ s ∈ u, s ∉ g.nonterminals) (γ : List String) : g.Reaches (u ++ γ) u := by
  induction u with
  | nil => exact .stop γ
  | cons s u ih =>
    rw [List.forall_mem_cons] at hu
    exact .shift hu.1 (ih hu.2)

/-- A production anywhere in a sentential form can be put off until its nonterminal is leftmost. -/
theorem Reaches.unrewrite (hp : p ∈ g.productions) (h : g.Reaches (α ++ (p.body ++ β)) u) :
    g.Reaches (α ++ p.lhs :: β) u := by
  generalize hσ : α ++ (p.body ++ β) = σ at h
  induction h generalizing α with
  | stop σ => exact .stop _
  | @shift s σ u hs h ih =>
    cases α with
    | nil =>
      rw [List.nil_append] at hσ
      exact .expand hp (hσ ▸ .shift hs h)
    | cons a α =>
      rw [List.cons_append, List.cons.injEq] at hσ
      rw [hσ.1]
      exact .shift hs (ih hσ.2)
  | @expand q σ u hq h ih =>
    cases α with
    | nil =>
      rw [List.nil_append] at hσ
      exact .expand hp (hσ ▸ .expand hq h)
    | cons a α =>
      rw [List.cons_append, List.cons.injEq] at hσ
      have hrest := ih (α := q.body ++ α) (by rw [List.append_assoc, hσ.2])
      rw [List.append_assoc] at hrest
      rw [hσ.1]
      exact .expand hq hrest

theorem Derives.reaches (h : g.Derives σ (u ++ v)) (hu : ∀ s ∈ u, s ∉ g.nonterminals) : g.Reaches σ u := by
  induction h using ReflTransGen.head_induction_on with
  | refl => exact reaches_append hu v
  | head hstep _ ih =>
    cases hstep with
    | production α β hp => exact ih.unrewrite hp

theorem viable_iff : g.Viable u ↔ g.Reaches [g.start, endMarker] u := by
  constructor
  · rintro ⟨hu, γ, hγ⟩
    exact hγ.reaches hu
  · intro h
    exact ⟨h.not_mem_nonterminals, h.derives⟩

/-! ## The first symbol -/

theorem reaches_terminal (hs : s ∉ g.nonterminals) (hg : g.WellFormed) :
    g.Reaches (s :: σ) (t :: u) ↔ s = t ∧ g.Reaches σ u := by
  constructor
  · intro h
    cases h with
    | shift _ h => exact ⟨rfl, h⟩
    | expand hp _ => exact absurd (hg.lhs_mem _ hp) hs
  · rintro ⟨rfl, h⟩
    exact .shift hs h

theorem reaches_nonterminal (hs : s ∈ g.nonterminals) :
    g.Reaches (s :: σ) (t :: u) ↔ ∃ p ∈ g.productions, p.lhs = s ∧ g.Reaches (p.body ++ σ) (t :: u) := by
  constructor
  · intro h
    cases h with
    | shift hs' _ => exact absurd hs hs'
    | expand hp h => exact ⟨_, hp, rfl, h⟩
  · rintro ⟨p, hp, rfl, h⟩
    exact .expand hp h

/-- The first symbol of a word comes out of a part of the sentential form, or that part vanishes. -/
theorem Reaches.split (hg : g.WellFormed) (hα : ∀ s ∈ α, (s ∈ g.terminals ∨ s ∈ g.nonterminals) ∧ s ≠ epsilon)
    (h : g.Reaches (α ++ β) (t :: u)) : g.Heads t α ∨ (g.AllVanish α ∧ g.Reaches β (t :: u)) := by
  generalize hσ : α ++ β = σ at h
  generalize hw : t :: u = w at h
  induction h generalizing α with
  | stop σ => cases hw
  | @shift s σ u hs h ih =>
    cases α with
    | nil =>
      rw [List.nil_append] at hσ
      rw [hσ]
      exact Or.inr ⟨allVanish_nil, .shift hs h⟩
    | cons a α =>
      rw [List.cons_append, List.cons.injEq] at hσ
      rw [List.cons.injEq] at hw
      have ha := (List.forall_mem_cons.mp hα).1
      have hat : a ∈ g.terminals := ha.1.resolve_right (hσ.1 ▸ hs)
      refine Or.inl (heads_cons.mpr (Or.inl ?_))
      rw [hw.1, ← hσ.1]
      exact .terminal hat ha.2
  | @expand q σ u hq h ih =>
    cases α with
    | nil =>
      rw [List.nil_append] at hσ
      rw [hσ]
      exact Or.inr ⟨allVanish_nil, .expand hq h⟩
    | cons a α =>
      rw [List.cons_append, List.cons.injEq] at hσ
      have hbody : ∀ s ∈ q.body ++ α, (s ∈ g.terminals ∨ s ∈ g.nonterminals) ∧ s ≠ epsilon :=
        List.forall_mem_append.mpr ⟨hg.body_symbols hq, (List.forall_mem_cons.mp hα).2⟩
      rw [hσ.1, heads_cons, allVanish_cons]
      rcases ih hbody (by rw [List.append_assoc, hσ.2]) hw with hheads | ⟨hv, hβ⟩
      · rcases heads_append.mp hheads with hq' | ⟨hqv, hα'⟩
        · exact Or.inl (Or.inl (.of_heads hq hq'))
        · exact Or.inl (Or.inr ⟨.production hq hqv, hα'⟩)
      · rw [allVanish_append] at hv
        exact Or.inr ⟨⟨.production hq hv.1, hv.2⟩, hβ⟩

end Grammar
end Lookahead
