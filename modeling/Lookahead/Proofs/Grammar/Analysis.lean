import Lookahead.Grammar.Analysis
import Lookahead.Proofs.Grammar.Table

/-! Every grammar without defects is analysed. Where its table has no conflicts, a lookahead predicts one
production at most, and nothing that a vanishing symbol starts with can follow it. -/
namespace Lookahead
namespace Grammar
variable {g : Grammar}

theorem analyze_eq_ok {first follow : Settled Family} {t : Table} (hg : g.defects = []) (hfirst : g.first = .ok first)
    (hfollow : g.follow first.value = .ok follow) (ht : Table.build g first.value follow.value = .ok t) :
    g.analyze = .ok ⟨g, first, follow, t⟩ := by
  rw [analyze, hg, analysis, hfirst]
  simp only [bind, Except.bind, hfollow, ht]
  rfl

/-- The analysis of a grammar without defects returns, and its table has what every table has that is built from
exact sets. -/
theorem analyze_of_build {ok : Table → Prop} (hg : g.defects = [])
    (hbuild : ∀ first follow, g.FirstExact first → g.FollowExact follow →
      ∃ t, Table.build g first follow = .ok t ∧ ok t) : ∃ a, g.analyze = .ok a ∧ ok a.table := by
  obtain ⟨first, hfirst, hexact⟩ := first_exact (defects_eq_nil.mp hg)
  obtain ⟨follow, hfollow, hexact'⟩ := follow_exact (defects_eq_nil.mp hg) hexact
  obtain ⟨t, ht, hok⟩ := hbuild first.value follow.value hexact hexact'
  exact ⟨_, analyze_eq_ok hg hfirst hfollow ht, hok⟩

/-- A table without conflicts decides the grammar. -/
theorem analyze_decides (hg : g.defects = []) :
    ∃ a, g.analyze = .ok a ∧ (a.table.conflicts = [] → g.Decides a.table) :=
  analyze_of_build hg fun _ _ hfirst hfollow => build_decides (defects_eq_nil.mp hg) hfirst hfollow

theorem decides_of_analyze {a : Analysis} (ha : g.analyze = .ok a) (hc : a.table.conflicts = []) :
    g.Decides a.table := by
  have hg : g.defects = [] := by
    unfold analyze at ha
    split at ha
    · rename_i h
      exact List.isEmpty_iff.mp h
    · cases ha
  obtain ⟨b, hb, hdecides⟩ := analyze_decides hg
  have hab : b = a := Except.ok.inj (hb.symm.trans ha)
  exact hab ▸ hdecides (hab ▸ hc)

/-! ## What is ruled out without conflicts -/

namespace Decides
variable {t : Table}

theorem unique (h : g.Decides t) {p q : Production} {x : String} (hp : p ∈ g.productions) (hq : q ∈ g.productions)
    (hlhs : p.lhs = q.lhs) (hpx : g.Predicts p x) (hqx : g.Predicts q x) : p = q := by
  have h₁ := (h.get?_eq_some q.lhs x p).mpr ⟨hp, hlhs, hpx⟩
  have h₂ := (h.get?_eq_some q.lhs x q).mpr ⟨hq, rfl, hqx⟩
  exact Option.some.inj (h₁.symm.trans h₂)

/-- The production that a vanishing symbol starts with a follower by would have to vanish itself, and so
on down to the follower. The induction is on how the symbol starts. -/
theorem not_follows (h : g.Decides t) {s x : String} (hv : g.Vanishes s) (hs : g.Starts x s) : ¬ g.Follows x s := by
  induction hs with
  | terminal hx _ =>
    exact absurd (hv.mem_nonterminals h.wellFormed) (h.wellFormed.disjoint x hx)
  | @production p α β r hp hb hα hr ih =>
    intro hf
    obtain ⟨q, hq, hlhs, hvanish⟩ := hv.exists_production
    have hpq : p = q := h.unique hp hq hlhs.symm (Or.inl ⟨α, r, β, hb, hα, hr⟩) (Or.inr ⟨hvanish, hlhs ▸ hf⟩)
    subst hpq
    rw [hb, allVanish_append, allVanish_cons] at hvanish
    have hrn := hvanish.2.1.mem_nonterminals h.wellFormed
    exact ih hvanish.2.1 (.of_allVanish h.wellFormed hp hb hrn hvanish.2.2 hf)

end Decides
end Grammar
end Lookahead
