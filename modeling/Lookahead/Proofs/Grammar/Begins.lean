import Lookahead.Proofs.Grammar.Derivation
import Lookahead.Proofs.Grammar.First

/-! FIRST sets against derivations: a sequence of symbols has in its set the terminals that begin what it
derives, and the empty word if it derives that. The order of the productions is of no account. -/
namespace Lookahead
namespace Grammar

/-- The terminal begins a sentential form that the sequence derives, or it stands for the empty word and
the sequence derives that. -/
def Begins (g : Grammar) (l : List String) (t : String) : Prop :=
  (t ∈ g.terminals ∧ ∃ β, g.Derives l (t :: β)) ∨ (t = epsilon ∧ g.Derives l [])

/-- The same grammar with its productions listed otherwise. -/
def withProductions (g : Grammar) (ps : List Production) : Grammar := { g with productions := ps }

variable {g : Grammar} {f : Family} {ps : List Production} {s t : String} {l m : List String}

/-! ## Derivations of the empty word -/

theorem Derives.append_left (h : g.Derives l m) (α : List String) : g.Derives (α ++ l) (α ++ m) := by
  induction α with
  | nil => exact h
  | cons s α ih => exact ih.cons s

theorem Derives.of_production {p : Production} (hp : p ∈ g.productions) : g.Derives [p.lhs] p.body := by
  have h := Derives.expand (σ := []) hp (τ := p.body) (by rw [List.append_nil]; exact .refl)
  exact h

/-- Symbols that each derive the empty word can be taken away one after the other. -/
theorem derives_append_of_forall (h : ∀ s ∈ l, g.Derives [s] []) : g.Derives (l ++ m) m := by
  induction l with
  | nil => exact .refl
  | cons s l ih =>
    rw [List.forall_mem_cons] at h
    exact (h.1.append_right (l ++ m)).trans (ih h.2)

theorem Vanishes.derives (h : g.Vanishes s) : g.Derives [s] [] := by
  induction h with
  | production hp _ ih =>
    have hbody := derives_append_of_forall (m := []) ih
    rw [List.append_nil] at hbody
    exact (Derives.of_production hp).trans hbody

theorem AllVanish.derives (h : g.AllVanish l) (m : List String) : g.Derives (l ++ m) m :=
  derives_append_of_forall fun s hs => (h s hs).derives

/-- The induction is on the derivation from its last step back: a step that leads to vanishing symbols
rewrites a symbol that vanishes. -/
theorem Derives.allVanish (h : g.Derives l []) : g.AllVanish l := by
  induction h using Relation.ReflTransGen.head_induction_on with
  | refl => exact allVanish_nil
  | head hstep _ ih =>
    cases hstep with
    | production α β hp =>
      rw [allVanish_append, allVanish_append] at ih
      rw [allVanish_append, allVanish_cons]
      exact ⟨ih.1, .production hp ih.2.1, ih.2.2⟩

theorem derives_nil_iff : g.Derives l [] ↔ g.AllVanish l := by
  constructor
  · exact Derives.allVanish
  · intro h
    have hl := h.derives []
    rwa [List.append_nil] at hl

/-! ## Derivations of a first terminal -/

theorem Starts.derives (h : g.Starts t s) : ∃ β, g.Derives [s] (t :: β) := by
  induction h with
  | terminal _ _ => exact ⟨[], .refl⟩
  | @production p α β r hp hb hα _ ih =>
    obtain ⟨γ, hγ⟩ := ih
    have hbody := Derives.of_production hp
    rw [hb] at hbody
    exact ⟨γ ++ β, hbody.trans ((hα.derives (r :: β)).trans (hγ.append_right β))⟩

theorem Heads.derives (h : g.Heads t l) : ∃ β, g.Derives l (t :: β) := by
  obtain ⟨α, s, β, rfl, hα, hs⟩ := h
  obtain ⟨γ, hγ⟩ := hs.derives
  exact ⟨γ ++ β, (hα.derives (s :: β)).trans (hγ.append_right β)⟩

theorem Derives.heads (hg : g.WellFormed) (hl : ∀ s ∈ l, (s ∈ g.terminals ∨ s ∈ g.nonterminals) ∧ s ≠ epsilon)
    (ht : t ∈ g.terminals) {β : List String} (h : g.Derives l (t :: β)) : g.Heads t l := by
  have hreach : g.Reaches l [t] := by
    apply Derives.reaches (v := β) h
    exact List.forall_mem_singleton.mpr (hg.disjoint t ht)
  rw [← List.append_nil l] at hreach
  rcases hreach.split hg hl with hheads | ⟨-, hnil⟩
  · exact hheads
  · cases hnil

theorem begins_iff (hg : g.WellFormed) (hl : ∀ s ∈ l, (s ∈ g.terminals ∨ s ∈ g.nonterminals) ∧ s ≠ epsilon) :
    g.Begins l t ↔ g.Heads t l ∨ (t = epsilon ∧ g.AllVanish l) := by
  unfold Begins
  rw [derives_nil_iff]
  refine or_congr_left ⟨?_, ?_⟩
  · rintro ⟨ht, β, hβ⟩
    exact hβ.heads hg hl ht
  · intro h
    exact ⟨h.mem_terminals.1, h.derives⟩

/-! ## Sets without regard to the order of the productions -/

/-- No symbol is called as the empty word is. -/
def EpsilonReserved (g : Grammar) : Prop := epsilon ∉ g.terminals ∧ epsilon ∉ g.nonterminals

instance (g : Grammar) : Decidable g.EpsilonReserved :=
  inferInstanceAs (Decidable (epsilon ∉ g.terminals ∧ epsilon ∉ g.nonterminals))

theorem MarksReserved.epsilonReserved (h : g.MarksReserved) : g.EpsilonReserved := h epsilon (by decide)

theorem EpsilonReserved.ne (h : g.EpsilonReserved) (hs : s ∈ g.terminals ∨ s ∈ g.nonterminals) : s ≠ epsilon := by
  rintro rfl
  exact hs.elim h.1 h.2

theorem WellFormed.withProductions (hg : g.WellFormed) (hps : ps.Perm g.productions) :
    (g.withProductions ps).WellFormed := by
  refine ⟨hg.start_mem, hg.disjoint, ?_, ?_, ?_, ?_⟩
  · exact (hps.map Production.id).nodup_iff.mpr hg.ids_nodup
  · exact fun p hp => hg.lhs_mem p (hps.mem_iff.mp hp)
  · exact fun p hp => hg.epsilon_alone p (hps.mem_iff.mp hp)
  · exact fun p hp => hg.rhs_declared p (hps.mem_iff.mp hp)

theorem Vanishes.withProductions (hps : g.productions ⊆ ps) (h : g.Vanishes s) : (g.withProductions ps).Vanishes s := by
  induction h with
  | production hp _ ih => exact .production (hps hp) ih

theorem Starts.withProductions (hps : g.productions ⊆ ps) (h : g.Starts t s) : (g.withProductions ps).Starts t s := by
  induction h with
  | terminal ht hε => exact .terminal ht hε
  | production hp hb hα _ ih => exact .production (hps hp) hb (fun r hr => (hα r hr).withProductions hps) ih

-- The grammar itself is the reordered grammar with its productions put back.

theorem vanishes_withProductions (hps : ps.Perm g.productions) : (g.withProductions ps).Vanishes s ↔ g.Vanishes s :=
  ⟨Vanishes.withProductions (g := g.withProductions ps) hps.subset, Vanishes.withProductions hps.symm.subset⟩

theorem starts_withProductions (hps : ps.Perm g.productions) : (g.withProductions ps).Starts t s ↔ g.Starts t s :=
  ⟨Starts.withProductions (g := g.withProductions ps) hps.subset, Starts.withProductions hps.symm.subset⟩

/-- The empty word as a symbol has nothing but itself in its set. -/
theorem FirstSound.mem_members_epsilon (hg : g.WellFormed) (hε : g.EpsilonReserved) (h : g.FirstSound f) :
    t ∈ f.members epsilon ↔ t = epsilon := by
  constructor
  · intro ht
    by_contra hne
    have hstart := h.starts epsilon t hne ht
    generalize hs : epsilon = s at hstart
    cases hstart with
    | terminal _ _ => exact hne hs.symm
    | production hp _ _ _ => exact hε.2 (hs ▸ hg.lhs_mem _ hp)
  · rintro rfl
    apply h.seed_le.2
    rw [firstSeed, Family.members_ofKeys, if_pos (by simp), if_pos rfl]
    simp

/-- The sets are the same for every order of the productions. -/
theorem first_withProductions (hg : g.WellFormed) (hε : g.EpsilonReserved) (hps : ps.Perm g.productions)
    {f : Settled Family} (hf : g.first = .ok f) :
    ∃ f', (g.withProductions ps).first = .ok f' ∧ f'.value = f.value := by
  obtain ⟨e, he, -, hsound, hexact⟩ := first_settles hg
  have hfe : e = f := Except.ok.inj ((he g.firstBound le_rfl).symm.trans hf)
  subst hfe
  obtain ⟨e', he', -, hsound', hexact'⟩ := first_settles (hg.withProductions hps)
  have hmem : ∀ s t, t ∈ e'.value.members s ↔ t ∈ e.value.members s := by
    intro s t
    by_cases hs : s = epsilon
    · rw [hs, hsound.mem_members_epsilon hg hε, hsound'.mem_members_epsilon (hg.withProductions hps) hε]
    · by_cases ht : t = epsilon
      · rw [ht, hexact.vanishes s hs, hexact'.vanishes s hs, vanishes_withProductions hps]
      · rw [hexact.starts s t ht, hexact'.starts s t ht, starts_withProductions hps]
  have hkeys : NameMap.keys e'.value = NameMap.keys e.value :=
    NameSet.ext_mem fun s => by rw [hexact.keys, hexact'.keys]; rfl
  refine ⟨e', he' _ le_rfl, ?_⟩
  exact Family.Le.antisymm _ _ ⟨hkeys, fun s t ht => (hmem s t).mp ht⟩
    ⟨hkeys.symm, fun s t ht => (hmem s t).mpr ht⟩

/-! ## Exactness -/

/-- FIRST of a sequence of declared symbols is what the sequence begins with. -/
theorem FirstExact.firstOf_eq (hg : g.WellFormed) (hε : g.EpsilonReserved) (h : g.FirstExact f)
    (hl : ∀ s ∈ l, s ∈ g.terminals ∨ s ∈ g.nonterminals) :
    ∃ u, f.firstOf l = .ok u ∧ ∀ t, t ∈ u ↔ g.Begins l t := by
  have hsymbols : ∀ s ∈ l, (s ∈ g.terminals ∨ s ∈ g.nonterminals) ∧ s ≠ epsilon := fun s hs =>
    ⟨hl s hs, hε.ne (hl s hs)⟩
  obtain ⟨u, hu, hvanish, hheads⟩ := h.firstOf hsymbols
  refine ⟨u, hu, fun t => ?_⟩
  rw [begins_iff hg hsymbols]
  by_cases ht : t = epsilon
  · subst ht
    rw [hvanish, and_iff_right rfl]
    exact ⟨Or.inr, fun h => h.resolve_left fun h => h.mem_terminals.2 rfl⟩
  · rw [hheads t ht]
    exact ⟨Or.inl, fun h => h.resolve_right fun h => ht h.1⟩

theorem FirstExact.lookup_eq (hg : g.WellFormed) (hε : g.EpsilonReserved) (h : g.FirstExact f)
    (hs : s ∈ g.terminals ∨ s ∈ g.nonterminals) :
    ∃ u, f.lookup s = .ok u ∧ ∀ t, t ∈ u ↔ g.Begins [s] t := by
  have hkey : s ∈ f.keys := (h.keys s).mpr (hs.imp_right Or.inl)
  refine ⟨f.members s, Family.lookup_of_mem hkey, fun t => ?_⟩
  have hne := hε.ne hs
  rw [begins_iff hg (List.forall_mem_singleton.mpr ⟨hs, hne⟩), heads_cons, allVanish_cons]
  simp only [not_heads_nil, and_false, or_false, allVanish_nil, and_true]
  by_cases ht : t = epsilon
  · subst ht
    rw [h.vanishes s hne, and_iff_right rfl]
    exact ⟨Or.inr, fun h => h.resolve_left fun h => h.mem_terminals.2 rfl⟩
  · rw [h.starts s t ht]
    exact ⟨Or.inl, fun h => h.resolve_right fun h => ht h.1⟩

/-- The passes for FIRST end. Then every declared symbol has in its set what it begins with, and so has every
sequence of declared symbols, whichever the order of the productions. -/
theorem first_begins (hg : g.defects = []) (hm : g.MarksReserved) :
    ∃ f, g.first = .ok f ∧
      (∀ n, g.firstBound ≤ n → settle g.firstPass n g.firstSeed = .ok f) ∧ g.firstPass f.value = .ok f.value ∧
      (∀ s, s ∈ g.terminals ∨ s ∈ g.nonterminals → ∃ u, f.value.lookup s = .ok u ∧ ∀ t, t ∈ u ↔ g.Begins [s] t) ∧
      (∀ l, (∀ s ∈ l, s ∈ g.terminals ∨ s ∈ g.nonterminals) →
        ∃ u, f.value.firstOf l = .ok u ∧ ∀ t, t ∈ u ↔ g.Begins l t) ∧
      ∀ ps, ps.Perm g.productions → ∃ f', (g.withProductions ps).first = .ok f' ∧ f'.value = f.value := by
  have hwf := defects_eq_nil.mp hg
  have hε := hm.epsilonReserved
  obtain ⟨f, hf, hfix, -, hexact⟩ := first_settles hwf
  have hfirst : g.first = .ok f := hf g.firstBound le_rfl
  exact ⟨f, hfirst, hf, hfix, fun s hs => hexact.lookup_eq hwf hε hs, fun l hl => hexact.firstOf_eq hwf hε hl,
    fun ps hps => first_withProductions hwf hε hps hfirst⟩

/-- A nonterminal behind symbols that vanish, in a circle: `S` begins with whatever `B` begins with, and `B` with
whatever `S` begins with. -/
def circular : Grammar :=
  .ofRules "S" [("S", ["A", "B"]), ("A", ["a", "A"]), ("A", [epsilon]), ("B", ["S", "b"]), ("B", [epsilon])] ["a", "b"] []

theorem circular_vanishes : circular.Vanishes "A" ∧ circular.Vanishes "B" ∧ circular.Vanishes "S" := by
  have hA : circular.Vanishes "A" := .production (p := ⟨3, "A", [epsilon]⟩) (by decide +kernel) (by simp [Production.body])
  have hB : circular.Vanishes "B" := .production (p := ⟨5, "B", [epsilon]⟩) (by decide +kernel) (by simp [Production.body])
  refine ⟨hA, hB, .production (p := ⟨1, "S", ["A", "B"]⟩) (by decide +kernel) ?_⟩
  have hbody : Production.body ⟨1, "S", ["A", "B"]⟩ = ["A", "B"] := by decide +kernel
  rw [hbody]
  simp [hA, hB]

theorem first_begins_circular : circular.defects = [] ∧ circular.MarksReserved ∧
    ∃ f u, circular.first = .ok f ∧ f.value.lookup "S" = .ok u ∧ "b" ∈ u ∧ epsilon ∈ u := by
  have hg : circular.defects = [] := by decide +kernel
  have hm : circular.MarksReserved := by decide +kernel
  obtain ⟨hA, hB, hS⟩ := circular_vanishes
  obtain ⟨f, hf, -, -, hsymbols, -⟩ := first_begins hg hm
  obtain ⟨u, hu, hmem⟩ := hsymbols "S" (by decide +kernel)
  have hb : circular.Starts "b" "S" := by
    have hB' : circular.Starts "b" "B" :=
      .production (p := ⟨4, "B", ["S", "b"]⟩) (α := ["S"]) (β := []) (by decide +kernel) (by decide +kernel)
        (allVanish_cons.mpr ⟨hS, allVanish_nil⟩) (.terminal (by decide +kernel) (by decide +kernel))
    exact .production (p := ⟨1, "S", ["A", "B"]⟩) (α := ["A"]) (β := []) (by decide +kernel) (by decide +kernel)
      (allVanish_cons.mpr ⟨hA, allVanish_nil⟩) hB'
  refine ⟨hg, hm, f, u, hf, hu, (hmem "b").mpr (Or.inl ⟨by decide +kernel, hb.derives⟩), ?_⟩
  exact (hmem epsilon).mpr (Or.inr ⟨rfl, hS.derives⟩)

end Grammar
end Lookahead
