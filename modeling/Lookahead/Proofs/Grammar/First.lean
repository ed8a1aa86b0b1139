import Lookahead.Proofs.Grammar.Family
import Lookahead.Proofs.Grammar.Predict
import Lookahead.Proofs.Grammar.Settle

/-! The passes for FIRST settle, and what they settle on is exact: the empty word is in the set of a symbol
that vanishes, and a terminal in the sets of the symbols that it starts. -/
namespace Lookahead

/-! ## Sequences -/

namespace Family

def Gives (f : Family) (l : List String) (t : String) : Prop :=
  (t = epsilon ∧ ∀ s ∈ l, epsilon ∈ f.members s) ∨
    (t ≠ epsilon ∧ ∃ α s β, l = α ++ s :: β ∧ (∀ r ∈ α, epsilon ∈ f.members r) ∧ t ∈ f.members s)

theorem gives_nil {f : Family} {t : String} : f.Gives [] t ↔ t = epsilon := by
  unfold Gives
  constructor
  · rintro (h | ⟨-, α, s, β, h, -⟩)
    · exact h.1
    · exact absurd h.symm (List.append_ne_nil_of_right_ne_nil α (List.cons_ne_nil s β))
  · intro h
    exact Or.inl ⟨h, fun s hs => absurd hs List.not_mem_nil⟩

theorem gives_cons {f : Family} {s t : String} {l : List String} :
    f.Gives (s :: l) t ↔ (t ≠ epsilon ∧ t ∈ f.members s) ∨ (epsilon ∈ f.members s ∧ f.Gives l t) := by
  unfold Gives
  constructor
  · rintro (⟨ht, h⟩ | ⟨ht, α, r, β, h, hα, hr⟩)
    · rw [List.forall_mem_cons] at h
      exact Or.inr ⟨h.1, Or.inl ⟨ht, h.2⟩⟩
    · cases α with
      | nil =>
        rw [List.nil_append, List.cons.injEq] at h
        exact Or.inl ⟨ht, h.1 ▸ hr⟩
      | cons a α =>
        rw [List.cons_append, List.cons.injEq] at h
        rw [List.forall_mem_cons] at hα
        exact Or.inr ⟨h.1 ▸ hα.1, Or.inr ⟨ht, α, r, β, h.2, hα.2, hr⟩⟩
  · rintro (⟨ht, h⟩ | ⟨hs, ⟨ht, h⟩ | ⟨ht, α, r, β, h, hα, hr⟩⟩)
    · exact Or.inr ⟨ht, [], s, l, rfl, fun r hr => absurd hr List.not_mem_nil, h⟩
    · exact Or.inl ⟨ht, List.forall_mem_cons.mpr ⟨hs, h⟩⟩
    · exact Or.inr ⟨ht, s :: α, r, β, by rw [h, List.cons_append], List.forall_mem_cons.mpr ⟨hs, hα⟩, hr⟩

theorem mem_firstOf {f : Family} {l : List String} (h : ∀ s ∈ l, s ∈ f.keys) :
    ∃ u, f.firstOf l = .ok u ∧ ∀ t, t ∈ u ↔ f.Gives l t := by
  induction l with
  | nil => exact ⟨NameSet.insert epsilon ∅, rfl, fun t => by rw [gives_nil]; simp⟩
  | cons s l ih =>
    rw [List.forall_mem_cons] at h
    have hs := lookup_of_mem h.1
    obtain ⟨u, hu, hmem⟩ := ih h.2
    by_cases hε : epsilon ∈ f.members s
    · refine ⟨(f.members s).erase epsilon ∪ u, ?_, fun t => ?_⟩
      · rw [firstOf, hs]
        simp only [bind, Except.bind, if_pos hε, hu]
        rfl
      · rw [NameSet.mem_union, NameSet.mem_erase, hmem, gives_cons]
        tauto
    · refine ⟨f.members s, ?_, fun t => ?_⟩
      · rw [firstOf, hs]
        simp only [bind, Except.bind, if_neg hε]
        rfl
      · rw [gives_cons]
        constructor
        · intro ht
          exact Or.inl ⟨fun e => hε (e ▸ ht), ht⟩
        · intro ht
          exact ht.elim (·.2) fun h => absurd h.1 hε

end Family

namespace Grammar

/-- The sets say of every symbol but the empty word what holds of it. -/
structure FirstExact (g : Grammar) (f : Family) : Prop where
  keys : ∀ s, s ∈ f.keys ↔ s ∈ g.terminals ∨ s ∈ g.nonterminals ∨ s = epsilon
  vanishes : ∀ s, s ≠ epsilon → (epsilon ∈ f.members s ↔ g.Vanishes s)
  starts : ∀ s t, t ≠ epsilon → (t ∈ f.members s ↔ g.Starts t s)

/-- The sets hold what they started with, and nothing but what is so. -/
structure FirstSound (g : Grammar) (f : Family) : Prop where
  seed_le : g.firstSeed.Le f
  vanishes : ∀ s, epsilon ∈ f.members s → s = epsilon ∨ g.Vanishes s
  starts : ∀ s t, t ≠ epsilon → t ∈ f.members s → g.Starts t s

variable {g : Grammar} {f : Family} {p : Production}

theorem mem_keys_firstSeed {s : String} :
    s ∈ g.firstSeed.keys ↔ s ∈ g.terminals ∨ s ∈ g.nonterminals ∨ s = epsilon := by
  rw [firstSeed, NameMap.keys_ofKeys, NameSet.mem_insert, NameSet.mem_union]
  tauto

theorem FirstSound.mem_keys (h : g.FirstSound f) {s : String} :
    s ∈ f.keys ↔ s ∈ g.terminals ∨ s ∈ g.nonterminals ∨ s = epsilon := by
  rw [← h.seed_le.1]
  exact mem_keys_firstSeed

theorem FirstSound.seed (g : Grammar) : g.FirstSound g.firstSeed := by
  have hmem : ∀ s t, t ∈ g.firstSeed.members s → (s = epsilon ∧ t = epsilon) ∨
      (s ≠ epsilon ∧ s ∈ g.terminals ∧ t = s) := by
    intro s t ht
    rw [firstSeed, Family.members_ofKeys] at ht
    split at ht
    · rename_i hs
      split at ht
      · rename_i hε
        rw [NameSet.mem_insert] at ht
        exact Or.inl ⟨hε, ht.resolve_right (NameSet.not_mem_empty t)⟩
      · rename_i hε
        split at ht
        · exact absurd ht (NameSet.not_mem_empty t)
        · rename_i hn
          rw [NameSet.mem_insert] at ht hs
          rw [NameSet.mem_union] at hs
          exact Or.inr ⟨hε, (hs.resolve_left hε).resolve_right hn, ht.resolve_right (NameSet.not_mem_empty t)⟩
    · exact absurd ht (NameSet.not_mem_empty t)
  refine ⟨Family.Le.refl _, fun s h => ?_, fun s t hε h => ?_⟩
  · rcases hmem s epsilon h with h | ⟨hs, -, e⟩
    · exact Or.inl h.1
    · exact absurd e.symm hs
  · rcases hmem s t h with h | ⟨hs, ht, rfl⟩
    · exact absurd h.2 hε
    · exact .terminal ht hε

/-! ## One production -/

theorem FirstSound.vanishes_of_gives (h : g.FirstSound f) (hp : p ∈ g.productions) (hgive : f.Gives p.body epsilon) :
    g.Vanishes p.lhs := by
  rcases hgive with ⟨-, hall⟩ | ⟨hne, -⟩
  · apply Vanishes.production hp
    intro s hs
    exact (h.vanishes s (hall s hs)).resolve_left (WellFormed.ne_epsilon_of_mem_body hs)
  · exact absurd rfl hne

theorem FirstSound.starts_of_gives (h : g.FirstSound f) (hp : p ∈ g.productions) {t : String} (ht : t ≠ epsilon)
    (hgive : f.Gives p.body t) : g.Starts t p.lhs := by
  rcases hgive with ⟨rfl, -⟩ | ⟨-, α, s, β, hb, hα, hs⟩
  · exact absurd rfl ht
  · refine .production hp hb (fun r hr => ?_) (h.starts s t ht hs)
    have hmem : r ∈ p.body := hb ▸ List.mem_append_left _ hr
    exact (h.vanishes r (hα r hr)).resolve_left (WellFormed.ne_epsilon_of_mem_body hmem)

/-- A step adds to the set of a left-hand side what the right-hand side can start with. -/
theorem firstStep_eq (hg : g.WellFormed) (h : g.FirstSound f) (hp : p ∈ g.productions) :
    ∃ v, firstStep f p = .ok (f.set p.lhs v) ∧ ∀ t, t ∈ v ↔ t ∈ f.members p.lhs ∨ f.Gives p.body t := by
  have hkey : p.lhs ∈ f.keys := h.mem_keys.mpr (Or.inr (Or.inl (hg.lhs_mem p hp)))
  by_cases hε : p.isEpsilon = true
  · refine ⟨(f.members p.lhs).insert epsilon, ?_, fun t => ?_⟩
    · rw [firstStep, Family.lookup_of_mem hkey]
      simp only [bind, Except.bind, hε, if_true]
      rfl
    · rw [NameSet.mem_insert, WellFormed.body_of_isEpsilon hε, Family.gives_nil, or_comm]
  · rw [Bool.not_eq_true] at hε
    have hkeys : ∀ s ∈ p.rhs, s ∈ f.keys := fun s hs => h.mem_keys.mpr (hg.rhs_declared p hp s hs)
    obtain ⟨u, hu, hmem⟩ := Family.mem_firstOf hkeys
    refine ⟨f.members p.lhs ∪ u, ?_, fun t => ?_⟩
    · rw [firstStep, Family.lookup_of_mem hkey]
      simp only [bind, Except.bind, hε, hu]
      rfl
    · rw [NameSet.mem_union, hmem, hg.body_eq_rhs hp hε]

theorem FirstSound.step (hg : g.WellFormed) (h : g.FirstSound f) (hp : p ∈ g.productions) :
    ∃ f', firstStep f p = .ok f' ∧ g.FirstSound f' ∧ f.Le f' := by
  obtain ⟨v, hv, hmem⟩ := firstStep_eq hg h hp
  have hkey : p.lhs ∈ f.keys := h.mem_keys.mpr (Or.inr (Or.inl (hg.lhs_mem p hp)))
  have hle : f.Le (f.set p.lhs v) := Family.le_set hkey fun t ht => (hmem t).mpr (Or.inl ht)
  refine ⟨f.set p.lhs v, hv, ⟨Family.Le.trans _ _ _ h.seed_le hle, fun s hs => ?_, fun s t ht hs => ?_⟩, hle⟩
  · rw [Family.members_set] at hs
    split at hs
    · rename_i e
      subst e
      rcases (hmem epsilon).mp hs with hs | hs
      · exact h.vanishes p.lhs hs
      · exact Or.inr (h.vanishes_of_gives hp hs)
    · exact h.vanishes s hs
  · rw [Family.members_set] at hs
    split at hs
    · rename_i e
      subst e
      rcases (hmem t).mp hs with hs | hs
      · exact h.starts p.lhs t ht hs
      · exact h.starts_of_gives hp ht hs
    · exact h.starts s t ht hs

/-- Where a step changes nothing, the set of the left-hand side has all that the right-hand side gives. -/
theorem FirstSound.closed_of_step_eq (hg : g.WellFormed) (h : g.FirstSound f) (hp : p ∈ g.productions)
    (hstep : firstStep f p = .ok f) {t : String} (ht : f.Gives p.body t) : t ∈ f.members p.lhs := by
  obtain ⟨v, hv, hmem⟩ := firstStep_eq hg h hp
  rw [hstep, Except.ok.injEq] at hv
  have hset : f.members p.lhs = v := by
    have := congrArg (fun f' : Family => f'.members p.lhs) hv
    simpa only [Family.members_set, if_true] using this
  rw [hset]
  exact (hmem t).mpr (Or.inr ht)

/-! ## All passes -/

theorem FirstSound.members_subset (h : g.FirstSound f) (s : String) : f.members s ⊆ g.terminals.insert epsilon := by
  intro t ht
  rw [NameSet.mem_insert]
  by_cases hε : t = epsilon
  · exact Or.inl hε
  · exact Or.inr (h.starts s t hε ht).mem_terminals.1

theorem FirstSound.weight_le (h : g.FirstSound f) :
    f.weight ≤ (g.terminals.size + g.nonterminals.size + 1) * (g.terminals.size + 1) := by
  have hkeys : (NameMap.keys f).size ≤ g.terminals.size + g.nonterminals.size + 1 := by
    rw [← h.seed_le.1, firstSeed, NameMap.keys_ofKeys]
    have h₁ := NameSet.size_insert_le epsilon (g.terminals ∪ g.nonterminals)
    have h₂ := NameSet.size_union_le g.terminals g.nonterminals
    omega
  calc f.weight ≤ (NameMap.keys f).size * (g.terminals.insert epsilon).size := Family.weight_le h.members_subset
    _ ≤ _ := Nat.mul_le_mul hkeys (NameSet.size_insert_le epsilon g.terminals)

theorem FirstSound.exact (hg : g.WellFormed) (h : g.FirstSound f)
    (hclosed : ∀ p ∈ g.productions, ∀ t, f.Gives p.body t → t ∈ f.members p.lhs) : g.FirstExact f := by
  have hvanish : ∀ s, g.Vanishes s → epsilon ∈ f.members s := by
    intro s hs
    induction hs with
    | production hp _ ih => exact hclosed _ hp epsilon (Or.inl ⟨rfl, ih⟩)
  refine ⟨fun s => h.mem_keys, fun s hs => ⟨fun hm => (h.vanishes s hm).resolve_left hs, hvanish s⟩,
    fun s t ht => ⟨h.starts s t ht, fun hs => ?_⟩⟩
  induction hs with
  | terminal hmem _ =>
    apply h.seed_le.2 t t
    rw [firstSeed, Family.members_ofKeys, if_pos (by simp [hmem]), if_neg ht, if_neg (hg.disjoint t hmem)]
    simp
  | production hp hb hα _ ih =>
    exact hclosed _ hp t (Or.inr ⟨ht, _, _, _, hb, fun r hr => hvanish r (hα r hr), ih⟩)

/-- The passes for FIRST come to rest within the bound on their number, on sets that are exact. -/
theorem first_settles (hg : g.WellFormed) :
    ∃ f, (∀ n, g.firstBound ≤ n → settle g.firstPass n g.firstSeed = .ok f) ∧
      g.firstPass f.value = .ok f.value ∧ g.FirstSound f.value ∧ g.FirstExact f.value := by
  have hfold : ∀ f, g.FirstSound f → ∃ f', g.firstPass f = .ok f' ∧ g.FirstSound f' ∧ f.Le f' ∧
      (f' = f → ∀ p ∈ g.productions, firstStep f p = .ok f) := fun f hf =>
    foldlM_grows Family.Le.refl Family.Le.trans Family.Le.antisymm g.productions
      (fun p hp f hf => FirstSound.step hg hf hp) f hf
  obtain ⟨f, hf, hsound, hfix⟩ := settle_fixed g.firstPass g.FirstSound Family.weight
    (fun f hf => by
      obtain ⟨f', hf', hok, hle, -⟩ := hfold f hf
      exact ⟨f', hf', hok, Family.weight_lt hle⟩)
    (fun f hf => hf.weight_le) g.firstBound g.firstSeed (FirstSound.seed g) (by unfold firstBound; omega)
  refine ⟨f, hf, hfix, hsound, hsound.exact hg fun p hp t ht => ?_⟩
  obtain ⟨f', hf', -, -, hsteps⟩ := hfold f.value hsound
  rw [hfix, Except.ok.injEq] at hf'
  exact hsound.closed_of_step_eq hg hp (hsteps hf'.symm p hp) ht

/-- FIRST is computed for every grammar without defects, and it is exact. -/
theorem first_exact (hg : g.WellFormed) : ∃ f, g.first = .ok f ∧ g.FirstExact f.value := by
  obtain ⟨f, hf, -, -, hexact⟩ := first_settles hg
  exact ⟨f, hf g.firstBound le_rfl, hexact⟩

/-! ## Sequences of declared symbols -/

theorem FirstExact.firstOf (h : g.FirstExact f) {l : List String}
    (hl : ∀ s ∈ l, (s ∈ g.terminals ∨ s ∈ g.nonterminals) ∧ s ≠ epsilon) :
    ∃ u, f.firstOf l = .ok u ∧ (epsilon ∈ u ↔ g.AllVanish l) ∧ ∀ t, t ≠ epsilon → (t ∈ u ↔ g.Heads t l) := by
  obtain ⟨u, hu, hmem⟩ := Family.mem_firstOf (f := f) (l := l) fun s hs =>
    (h.keys s).mpr ((hl s hs).1.elim Or.inl fun hn => Or.inr (Or.inl hn))
  have hvanish : ∀ m ⊆ l, ((∀ s ∈ m, epsilon ∈ f.members s) ↔ g.AllVanish m) := fun m hm =>
    forall₂_congr fun s hs => h.vanishes s (hl s (hm hs)).2
  refine ⟨u, hu, ?_, fun t ht => ?_⟩
  · rw [hmem, Family.Gives, ← hvanish l (List.Subset.refl l)]
    simp
  · rw [hmem, Family.Gives]
    constructor
    · rintro (⟨e, -⟩ | ⟨-, α, s, β, hl', hα, hs⟩)
      · exact absurd e ht
      · exact ⟨α, s, β, hl', (hvanish α (hl' ▸ List.subset_append_left α _)).mp hα, (h.starts s t ht).mp hs⟩
    · rintro ⟨α, s, β, hl', hα, hs⟩
      exact Or.inr ⟨ht, α, s, β, hl', (hvanish α (hl' ▸ List.subset_append_left α _)).mpr hα,
        (h.starts s t ht).mpr hs⟩

end Grammar
end Lookahead
