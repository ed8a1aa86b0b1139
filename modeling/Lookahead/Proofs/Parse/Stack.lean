import Lookahead.Proofs.Grammar.Derivation
import Lookahead.Proofs.Parse.Predict

/-! What a run keeps on its stack: declared symbols over the end marker, such that whatever can come after a
nonterminal on the stack can follow it in the grammar. So a table that has no conflicts has the production
for every lookahead that the stack can reach. -/
namespace Lookahead

/-- A stack without the end marker at its bottom. -/
structure Grammar.Coherent (g : Grammar) (σ : List String) : Prop where
  declared : ∀ s ∈ σ, s ∈ g.terminals ∨ s ∈ g.nonterminals
  follows : ∀ α s β, σ = α ++ s :: β → s ∈ g.nonterminals → ∀ t, g.Reaches (β ++ [endMarker]) [t] → g.Follows t s

namespace Grammar.Coherent
variable {g : Grammar} {p : Production} {s t : String} {σ u : List String}

theorem initial (hg : g.WellFormed) (hm : g.MarksReserved) : g.Coherent [g.start] := by
  refine ⟨fun s hs => Or.inr (List.mem_singleton.mp hs ▸ hg.start_mem), fun α s β hσ hs t ht => ?_⟩
  rw [List.singleton_eq_append_iff] at hσ
  rcases hσ with ⟨rfl, hσ⟩ | ⟨-, hσ⟩
  · rw [List.cons.injEq] at hσ
    obtain ⟨rfl, rfl⟩ := hσ
    exact .finish ((Grammar.reaches_terminal hm.marker_not_nonterminal hg).mp ht).1.symm
  · cases hσ

theorem tail (h : g.Coherent (s :: σ)) : g.Coherent σ := by
  refine ⟨fun r hr => h.declared r (List.mem_cons_of_mem s hr), fun α r β hσ hr t ht => ?_⟩
  exact h.follows (s :: α) r β (by rw [hσ, List.cons_append]) hr t ht

theorem head_follows (h : g.Coherent (s :: σ)) (hs : s ∈ g.nonterminals)
    (ht : g.Reaches (σ ++ [endMarker]) (t :: u)) : g.Follows t s :=
  h.follows [] s σ rfl hs t (ht.of_append (u := [t]))

theorem marker_not_mem (hm : g.MarksReserved) (h : g.Coherent σ) : endMarker ∉ σ := by
  intro hmem
  exact (h.declared endMarker hmem).elim hm.marker_not_terminal hm.marker_not_nonterminal

theorem expand (hg : g.WellFormed) (hp : p ∈ g.productions) (h : g.Coherent (p.lhs :: σ)) :
    g.Coherent (p.body ++ σ) := by
  have hbody := hg.body_symbols hp
  refine ⟨List.forall_mem_append.mpr ⟨fun s hs => (hbody s hs).1, h.tail.declared⟩, fun α s β hσ hs t ht => ?_⟩
  rcases List.append_eq_append_iff.mp hσ with ⟨m, hα, hβ⟩ | ⟨m, hb, hσ'⟩
  · exact h.tail.follows m s β hβ hs t ht
  · cases m with
    | nil => exact h.tail.follows [] s β (by rw [List.nil_append] at hσ' ⊢; exact hσ'.symm) hs t ht
    | cons a γ =>
      rw [List.cons_append, List.cons.injEq] at hσ'
      obtain ⟨rfl, rfl⟩ := hσ'
      have hγ : ∀ r ∈ γ, (r ∈ g.terminals ∨ r ∈ g.nonterminals) ∧ r ≠ epsilon := fun r hr =>
        hbody r (hb ▸ List.mem_append_right α (List.mem_cons_of_mem s hr))
      rw [List.append_assoc] at ht
      rcases ht.split hg hγ with hheads | ⟨hvanish, hrest⟩
      · exact .of_heads hg hp hb hs hheads
      · exact .of_allVanish hg hp hb hs hvanish (h.head_follows (hg.lhs_mem p hp) hrest)

/-- A production that brings the lookahead to the front of a coherent stack is predicted by it. -/
theorem predicts (hg : g.WellFormed) (hp : p ∈ g.productions) (h : g.Coherent (p.lhs :: σ))
    (ht : g.Reaches (p.body ++ (σ ++ [endMarker])) (t :: u)) : g.Predicts p t := by
  refine (ht.split hg (hg.body_symbols hp)).imp_right fun hrest => ?_
  exact ⟨hrest.1, h.head_follows (hg.lhs_mem p hp) hrest.2⟩

end Grammar.Coherent

/-! ## The bottom of a stack -/

section Bottom
variable {top : String} {below σ : List String}

theorem exists_of_cons_eq (htop : top ≠ endMarker) (h : top :: below = σ ++ [endMarker]) :
    ∃ τ, σ = top :: τ ∧ below = τ ++ [endMarker] := by
  rcases List.cons_eq_append_iff.mp h with ⟨-, hσ⟩ | ⟨τ, hσ, hbelow⟩
  · rw [List.cons.injEq] at hσ
    exact absurd hσ.1.symm htop
  · exact ⟨τ, hσ, hbelow⟩

theorem eq_nil_of_cons_eq (hσ : endMarker ∉ σ) (h : endMarker :: below = σ ++ [endMarker]) :
    σ = [] ∧ below = [] := by
  rcases List.cons_eq_append_iff.mp h with ⟨hnil, hbelow⟩ | ⟨τ, hcons, -⟩
  · rw [List.cons.injEq] at hbelow
    exact ⟨hnil, hbelow.2.symm⟩
  · exact absurd (hcons ▸ List.mem_cons_self) hσ

end Bottom
end Lookahead
