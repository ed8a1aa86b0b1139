import Lookahead.Grammar.Follow
import Lookahead.Proofs.Grammar.First

/-! The passes for FOLLOW settle, and what they settle on is exact: the set of a nonterminal holds what can
come right after it. -/
namespace Lookahead
namespace Grammar

structure FollowExact (g : Grammar) (f : Family) : Prop where
  keys : ∀ s, s ∈ f.keys ↔ s ∈ g.nonterminals
  follows : ∀ s t, t ∈ f.members s ↔ g.Follows t s

structure FollowSound (g : Grammar) (f : Family) : Prop where
  keys : f.keys = g.nonterminals
  finish : endMarker ∈ f.members g.start
  follows : ∀ s t, t ∈ f.members s → g.Follows t s

/-- All followers that a sequence within a right-hand side of `lhs` asks for are in the sets. -/
def FollowClosed (g : Grammar) (f : Family) (lhs : String) (l : List String) : Prop :=
  ∀ α s β, l = α ++ s :: β → s ∈ g.nonterminals →
    (∀ t, g.Heads t β → t ∈ f.members s) ∧ (g.AllVanish β → f.members lhs ⊆ f.members s)

variable {g : Grammar} {f first : Family} {p : Production}

theorem followClosed_nil {lhs : String} : g.FollowClosed f lhs [] := by
  intro α s β h
  exact absurd h.symm (List.append_ne_nil_of_right_ne_nil α (List.cons_ne_nil s β))

theorem followClosed_cons {lhs s : String} {l : List String}
    (hs : s ∈ g.nonterminals → (∀ t, g.Heads t l → t ∈ f.members s) ∧ (g.AllVanish l → f.members lhs ⊆ f.members s))
    (hl : g.FollowClosed f lhs l) : g.FollowClosed f lhs (s :: l) := by
  intro α r β h hr
  cases α with
  | nil =>
    rw [List.nil_append, List.cons.injEq] at h
    obtain ⟨rfl, rfl⟩ := h
    exact hs hr
  | cons a α =>
    rw [List.cons_append, List.cons.injEq] at h
    exact hl α r β h.2 hr

theorem followSeed_eq (hg : g.WellFormed) : ∃ f, g.followSeed = .ok f ∧ g.FollowSound f := by
  refine ⟨_, if_pos hg.start_mem, NameMap.keys_ofKeys, ?_, fun s t ht => ?_⟩
  · rw [Family.members_ofKeys, if_pos hg.start_mem, if_pos rfl]
    simp
  · rw [Family.members_ofKeys] at ht
    split at ht
    · split at ht
      · rename_i hs
        rw [NameSet.mem_insert] at ht
        rw [hs]
        exact .finish (ht.resolve_right (NameSet.not_mem_empty t))
      · exact absurd ht (NameSet.not_mem_empty t)
    · exact absurd ht (NameSet.not_mem_empty t)

theorem WellFormed.declared_after (hg : g.WellFormed) (hp : p ∈ g.productions) {α β : List String} {s : String}
    (h : p.rhs = α ++ s :: β) : ∀ r ∈ β, (r ∈ g.terminals ∨ r ∈ g.nonterminals) ∧ r ≠ epsilon := by
  intro r hr
  have hmem : r ∈ p.rhs := h ▸ List.mem_append_right α (List.mem_cons_of_mem s hr)
  have hε : r ≠ epsilon := by
    rintro rfl
    have hlen := congrArg List.length (h.symm.trans (hg.epsilon_alone p hp hmem))
    have hpos := List.length_pos_of_mem hr
    simp only [List.length_append, List.length_cons, List.length_nil] at hlen
    omega
  rcases hg.rhs_declared p hp r hmem with ht | hn | he
  · exact ⟨Or.inl ht, hε⟩
  · exact ⟨Or.inr hn, hε⟩
  · exact absurd he hε

/-! ## One place of a right-hand side -/

/-- What the symbols `β` after a nonterminal of a right-hand side of `lhs` contribute to it. -/
theorem trailer_eq (hfirst : g.FirstExact first) (hf : g.FollowSound f) (hp : p ∈ g.productions) (hg : g.WellFormed)
    {β : List String} (hβ : ∀ r ∈ β, (r ∈ g.terminals ∨ r ∈ g.nonterminals) ∧ r ≠ epsilon) :
    ∃ u v, first.firstOf β = .ok u ∧ (if epsilon ∈ u then f.lookup p.lhs else .ok ∅) = .ok v ∧
      ∀ t, t ∈ u.erase epsilon ∨ t ∈ v ↔ g.Heads t β ∨ (g.AllVanish β ∧ t ∈ f.members p.lhs) := by
  obtain ⟨u, hu, hvanish, hheads⟩ := hfirst.firstOf hβ
  have herase : ∀ t, t ∈ u.erase epsilon ↔ g.Heads t β := by
    intro t
    rw [NameSet.mem_erase]
    constructor
    · rintro ⟨ht, hm⟩
      exact (hheads t ht).mp hm
    · intro h
      exact ⟨h.mem_terminals.2, (hheads t h.mem_terminals.2).mpr h⟩
  by_cases hε : epsilon ∈ u
  · refine ⟨u, f.members p.lhs, hu, ?_, fun t => ?_⟩
    · rw [if_pos hε, Family.lookup_of_mem (hf.keys ▸ hg.lhs_mem p hp)]
    · rw [herase, and_iff_right (hvanish.mp hε)]
  · refine ⟨u, ∅, hu, if_neg hε, fun t => ?_⟩
    rw [herase, ← hvanish]
    simp [hε]

theorem FollowSound.set (hf : g.FollowSound f) {s : String} {v : NameSet} (hs : s ∈ g.nonterminals)
    (hle : f.members s ⊆ v) (hv : ∀ t, t ∈ v → g.Follows t s) : g.FollowSound (f.set s v) ∧ f.Le (f.set s v) := by
  have hset : f.Le (f.set s v) := Family.le_set (hf.keys ▸ hs) hle
  refine ⟨⟨hset.1.symm.trans hf.keys, hset.2 _ _ hf.finish, fun r t ht => ?_⟩, hset⟩
  rw [Family.members_set] at ht
  split at ht
  · rename_i e
    exact e ▸ hv t ht
  · exact hf.follows r t ht

/-- The nonterminals of a right-hand side, from left to right: every set keeps to true followers, and if
none grows then none lacks any. The induction is on what is left of the right-hand side. -/
theorem followAlong_grows (hg : g.WellFormed) (hfirst : g.FirstExact first) (hp : p ∈ g.productions)
    (l : List String) (pre : List String) (hl : p.rhs = pre ++ l) (f : Family) (hf : g.FollowSound f) :
    ∃ f', g.followAlong first p.lhs l f = .ok f' ∧ g.FollowSound f' ∧ f.Le f' ∧
      (f' = f → g.FollowClosed f p.lhs l) := by
  induction l generalizing pre f with
  | nil =>
    exact ⟨f, rfl, hf, Family.Le.refl f, fun _ => followClosed_nil⟩
  | cons s l ih =>
    have hl' : p.rhs = (pre ++ [s]) ++ l := by rw [hl, List.append_assoc, List.singleton_append]
    by_cases hs : s ∈ g.nonterminals
    · obtain ⟨u, v, hu, hv, hmem⟩ := trailer_eq hfirst hf hp hg (hg.declared_after hp hl)
      have hw : ∀ t, t ∈ f.members s ∪ u.erase epsilon ∪ v ↔
          t ∈ f.members s ∨ g.Heads t l ∨ (g.AllVanish l ∧ t ∈ f.members p.lhs) := by
        intro t
        rw [NameSet.mem_union, NameSet.mem_union, or_assoc, hmem]
      obtain ⟨hsound, hle⟩ := hf.set hs (v := f.members s ∪ u.erase epsilon ∪ v)
        (fun t ht => (hw t).mpr (Or.inl ht)) (fun t ht => by
          rcases (hw t).mp ht with ht | ht | ⟨hvanish, ht⟩
          · exact hf.follows s t ht
          · exact .next hp hl hs ht
          · exact .inherit hp hl hs hvanish (hf.follows p.lhs t ht))
      obtain ⟨f', hf', hsound', hle', hclosed⟩ := ih (pre ++ [s]) hl' _ hsound
      refine ⟨f', ?_, hsound', hle.trans _ _ _ hle', fun hff' => ?_⟩
      · rw [followAlong, if_pos hs, Family.lookup_of_mem (hf.keys ▸ hs), hu]
        simp only [bind, Except.bind]
        by_cases hε : epsilon ∈ u
        · rw [if_pos hε] at hv ⊢
          rw [hv]
          exact hf'
        · rw [if_neg hε, Except.ok.injEq] at hv
          rw [if_neg hε, hv]
          exact hf'
      · subst hff'
        have heq : f'.set s (f'.members s ∪ u.erase epsilon ∪ v) = f' := Family.Le.antisymm _ _ hle' hle
        rw [heq] at hclosed
        have hsame : f'.members s = f'.members s ∪ u.erase epsilon ∪ v := by
          have := congrArg (fun h : Family => h.members s) heq
          simpa only [Family.members_set, if_true] using this.symm
        rw [← hsame] at hw
        refine followClosed_cons (fun _ => ⟨fun t ht => ?_, fun hvanish t ht => ?_⟩) (hclosed rfl)
        · exact (hw t).mpr (Or.inr (Or.inl ht))
        · exact (hw t).mpr (Or.inr (Or.inr ⟨hvanish, ht⟩))
    · obtain ⟨f', hf', hsound', hle', hclosed⟩ := ih (pre ++ [s]) hl' f hf
      refine ⟨f', ?_, hsound', hle', fun hff' => ?_⟩
      · rw [followAlong, if_neg hs]
        exact hf'
      · exact followClosed_cons (fun h => absurd h hs) (hclosed hff')

/-! ## All passes -/

theorem FollowSound.weight_le (h : g.FollowSound f) : f.weight ≤ g.nonterminals.size * (g.terminals.size + 1) := by
  have hsub : ∀ s, f.members s ⊆ g.terminals.insert endMarker := by
    intro s t ht
    rw [NameSet.mem_insert]
    exact (h.follows s t ht).mem_terminals
  calc f.weight ≤ (NameMap.keys f).size * (g.terminals.insert endMarker).size := Family.weight_le hsub
    _ ≤ _ := by
      rw [h.keys]
      exact Nat.mul_le_mul_left _ (NameSet.size_insert_le endMarker g.terminals)

theorem FollowSound.exact (h : g.FollowSound f) (hclosed : ∀ p ∈ g.productions, g.FollowClosed f p.lhs p.rhs) :
    g.FollowExact f := by
  refine ⟨fun s => by rw [h.keys], fun s t => ⟨h.follows s t, fun ht => ?_⟩⟩
  induction ht with
  | finish ht => exact ht ▸ h.finish
  | next hp hrhs hs hβ => exact (hclosed _ hp _ _ _ hrhs hs).1 t hβ
  | inherit hp hrhs hs hβ _ ih => exact (hclosed _ hp _ _ _ hrhs hs).2 hβ t ih

/-- The passes for FOLLOW come to rest within the bound on their number, on sets that are exact. -/
theorem follow_settles (hg : g.WellFormed) (hfirst : g.FirstExact first) :
    ∃ seed f, g.followSeed = .ok seed ∧ (∀ n, g.followBound ≤ n → settle (g.followPass first) n seed = .ok f) ∧
      g.followPass first f.value = .ok f.value ∧ g.FollowExact f.value := by
  have hstep : ∀ p ∈ g.productions, ∀ f, g.FollowSound f → ∃ f', g.followAlong first p.lhs p.rhs f = .ok f' ∧
      g.FollowSound f' ∧ f.Le f' ∧ (f' = f → g.FollowClosed f p.lhs p.rhs) := fun p hp f hf =>
    followAlong_grows hg hfirst hp p.rhs [] rfl f hf
  have hfold : ∀ f, g.FollowSound f → ∃ f', g.followPass first f = .ok f' ∧ g.FollowSound f' ∧ f.Le f' ∧
      (f' = f → ∀ p ∈ g.productions, g.followAlong first p.lhs p.rhs f = .ok f) := fun f hf =>
    foldlM_grows Family.Le.refl Family.Le.trans Family.Le.antisymm g.productions
      (fun p hp f hf => by
        obtain ⟨f', hf', hok, hle, -⟩ := hstep p hp f hf
        exact ⟨f', hf', hok, hle⟩) f hf
  obtain ⟨seed, hseed, hsound⟩ := followSeed_eq hg
  obtain ⟨f, hf, hsound', hfix⟩ := settle_fixed (g.followPass first) g.FollowSound Family.weight
    (fun f hf => by
      obtain ⟨f', hf', hok, hle, -⟩ := hfold f hf
      exact ⟨f', hf', hok, Family.weight_lt hle⟩)
    (fun f hf => hf.weight_le) g.followBound seed hsound (by unfold followBound; omega)
  refine ⟨seed, f, hseed, hf, hfix, hsound'.exact fun p hp => ?_⟩
  obtain ⟨f', hf', -, -, hsteps⟩ := hfold f.value hsound'
  rw [hfix, Except.ok.injEq] at hf'
  obtain ⟨f'', hf'', -, -, hclosed⟩ := hstep p hp f.value hsound'
  rw [hsteps hf'.symm p hp, Except.ok.injEq] at hf''
  exact hclosed hf''.symm

/-- FOLLOW is computed for every grammar without defects from its FIRST sets, and it is exact. -/
theorem follow_exact (hg : g.WellFormed) (hfirst : g.FirstExact first) :
    ∃ f, g.follow first = .ok f ∧ g.FollowExact f.value := by
  obtain ⟨seed, f, hseed, hf, -, hexact⟩ := follow_settles hg hfirst
  refine ⟨f, ?_, hexact⟩
  rw [follow, hseed]
  exact hf g.followBound le_rfl

end Grammar
end Lookahead
