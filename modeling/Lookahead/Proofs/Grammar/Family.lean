import Lookahead.Grammar.First
import Mathlib.Algebra.Order.BigOperators.Group.List
import Mathlib.Algebra.Order.Ring.Nat
import Mathlib.Data.Finset.Card

/-! Families of sets ordered by inclusion on equal keys. A family that grows gains weight, the number of
memberships in it, and a common bound on its sets bounds its weight. -/
namespace Lookahead

/-! ## Sizes of sets -/

namespace NameSet

instance : HasSubset NameSet := ⟨fun s t => ∀ a, a ∈ s → a ∈ t⟩

def toFinset (s : NameSet) : Finset String := s.toList.toFinset

@[simp] theorem mem_toFinset {a : String} {s : NameSet} : a ∈ s.toFinset ↔ a ∈ s := List.mem_toFinset

theorem card_toFinset (s : NameSet) : s.toFinset.card = s.size := List.toFinset_card_of_nodup s.nodup

theorem size_le_of_subset {s t : NameSet} (h : s ⊆ t) : s.size ≤ t.size := by
  rw [← card_toFinset, ← card_toFinset]
  exact Finset.card_le_card fun a ha => mem_toFinset.mpr (h a (mem_toFinset.mp ha))

theorem size_lt_of_ssubset {s t : NameSet} (h : s ⊆ t) (hne : s ≠ t) : s.size < t.size := by
  have hsub : s.toFinset ⊆ t.toFinset := fun a ha => mem_toFinset.mpr (h a (mem_toFinset.mp ha))
  rw [← card_toFinset, ← card_toFinset]
  refine Finset.card_lt_card ⟨hsub, fun hback => hne (ext_mem fun a => ⟨h a, fun ha => ?_⟩)⟩
  exact mem_toFinset.mp (hback (mem_toFinset.mpr ha))

theorem size_insert_le (a : String) (s : NameSet) : (s.insert a).size ≤ s.size + 1 := by
  have h : (s.insert a).toFinset = Insert.insert a s.toFinset := by
    ext c
    simp
  rw [← card_toFinset, ← card_toFinset, h]
  exact Finset.card_insert_le a s.toFinset

theorem size_union_le (s t : NameSet) : (s ∪ t).size ≤ s.size + t.size := by
  have h : (s ∪ t).toFinset = s.toFinset ∪ t.toFinset := by
    ext c
    simp
  rw [← card_toFinset, ← card_toFinset, ← card_toFinset, h]
  exact Finset.card_union_le s.toFinset t.toFinset

end NameSet

/-! ## Maps with equal values are equal -/

theorem NameMap.find_eq_some {α : Type} {l : List (String × α)} (h : l.Pairwise fun e f => e.1 < f.1)
    {k : String} {v : α} : NameMap.find k l = some v ↔ (k, v) ∈ l := by
  induction l with
  | nil => simp [NameMap.find]
  | cons e l ih =>
    obtain ⟨he, hl⟩ := List.pairwise_cons.mp h
    rw [NameMap.find]
    by_cases hk : k = e.1
    · rw [if_pos hk, Option.some.injEq, List.mem_cons]
      constructor
      · intro hv
        exact Or.inl (Prod.ext hk hv.symm)
      · intro hv
        rcases hv with hv | hv
        · exact (congrArg Prod.snd hv).symm
        · exact absurd (he (k, v) hv) (hk ▸ String.lt_irrefl k)
    · rw [if_neg hk, ih hl, List.mem_cons]
      exact ⟨Or.inr, fun hv => hv.resolve_left fun hv => hk (congrArg Prod.fst hv)⟩

theorem NameMap.ext_get? {α : Type} {m n : NameMap α} (h : ∀ k, m.get? k = n.get? k) : m = n := by
  have hmem : ∀ e, e ∈ m.entries ↔ e ∈ n.entries := by
    intro e
    have hm := NameMap.find_eq_some m.sorted (k := e.1) (v := e.2)
    have hn := NameMap.find_eq_some n.sorted (k := e.1) (v := e.2)
    rw [← hm, ← hn]
    exact iff_of_eq (congrArg (· = some e.2) (h e.1))
  have hperm : m.entries.Perm n.entries := by
    refine (List.perm_ext_iff_of_nodup ?_ ?_).mpr hmem
    · exact m.sorted.imp fun {a b} hab (e : a = b) => String.lt_irrefl b.1 (e ▸ hab)
    · exact n.sorted.imp fun {a b} hab (e : a = b) => String.lt_irrefl b.1 (e ▸ hab)
  have hlist : m.entries = n.entries :=
    hperm.eq_of_pairwise (fun a b _ _ hab hba => absurd hab (String.lt_asymm hba)) m.sorted n.sorted
  cases m
  cases n
  cases hlist
  rfl

theorem NameMap.ext_getD {α : Type} {m n : NameMap α} (d : α) (hkeys : m.keys = n.keys)
    (h : ∀ k, (m.get? k).getD d = (n.get? k).getD d) : m = n := by
  apply NameMap.ext_get?
  intro k
  have hk := h k
  have hsome : (m.get? k).isSome = (n.get? k).isSome := by
    rw [Bool.eq_iff_iff, NameMap.get?_isSome, NameMap.get?_isSome, hkeys]
  cases hm : m.get? k with
  | none =>
    have hn : n.get? k = none := by
      rw [← Option.not_isSome_iff_eq_none, ← hsome, hm]
      exact Bool.false_ne_true
    rw [hn]
  | some v =>
    rw [hm, Option.isSome_some] at hsome
    obtain ⟨w, hw⟩ := Option.isSome_iff_exists.mp hsome.symm
    rw [hm, hw, Option.getD_some, Option.getD_some] at hk
    rw [hw, hk]

/-! ## Families -/

namespace Family

/-- The set of a symbol, which is empty if the family has none for it. -/
def members (f : Family) (s : String) : NameSet := (f.get? s).getD ∅

theorem lookup_of_mem {f : Family} {s : String} (h : s ∈ f.keys) : f.lookup s = .ok (f.members s) := by
  obtain ⟨t, ht⟩ := Option.isSome_iff_exists.mp (NameMap.get?_isSome.mpr h)
  simp [lookup, members, ht]

theorem members_of_not_mem {f : Family} {s : String} (h : s ∉ f.keys) : f.members s = ∅ := by
  have hs : f.get? s = none := by
    rw [← Option.not_isSome_iff_eq_none, NameMap.get?_isSome]
    exact h
  simp [members, hs]

theorem members_set (f : Family) (k s : String) (t : NameSet) :
    members (f.set k t) s = if s = k then t else f.members s := by
  unfold members
  rw [NameMap.get?_set]
  split <;> rfl

theorem members_ofKeys (keys : NameSet) (v : String → NameSet) (s : String) :
    members (NameMap.ofKeys keys v) s = if s ∈ keys then v s else ∅ := by
  unfold members
  rw [NameMap.get?_ofKeys]
  split <;> rfl

/-- The same keys, and on each of them at least the members. -/
def Le (f g : Family) : Prop := f.keys = g.keys ∧ ∀ s, f.members s ⊆ g.members s

theorem Le.refl (f : Family) : f.Le f := ⟨rfl, fun _ _ h => h⟩

theorem Le.trans (f g h : Family) (hfg : f.Le g) (hgh : g.Le h) : f.Le h :=
  ⟨hfg.1.trans hgh.1, fun s a ha => hgh.2 s a (hfg.2 s a ha)⟩

theorem Le.antisymm (f g : Family) (hfg : f.Le g) (hgf : g.Le f) : f = g :=
  NameMap.ext_getD ∅ hfg.1 fun k => NameSet.ext_mem fun a => ⟨hfg.2 k a, hgf.2 k a⟩

theorem le_set {f : Family} {k : String} {t : NameSet} (hk : k ∈ f.keys) (h : f.members k ⊆ t) :
    f.Le (f.set k t) := by
  refine ⟨?_, fun s a ha => ?_⟩
  · rw [NameMap.keys_set]
    apply NameSet.ext_mem
    intro a
    rw [NameSet.mem_insert]
    exact ⟨Or.inr, fun ha => ha.elim (fun e => e ▸ hk) id⟩
  · rw [members_set]
    by_cases hs : s = k
    · rw [if_pos hs]
      exact h a (hs ▸ ha)
    · rw [if_neg hs]
      exact ha

/-! ## Weight -/

def weight (f : Family) : ℕ := (f.keys.toList.map fun k => (f.members k).size).sum

theorem weight_lt {f g : Family} (h : f.Le g) (hne : g ≠ f) : f.weight < g.weight := by
  have hex : ∃ s, f.members s ≠ g.members s := by
    by_contra hall
    push Not at hall
    exact hne (Le.antisymm g f ⟨h.1.symm, fun s a ha => hall s ▸ ha⟩ h)
  obtain ⟨s, hs⟩ := hex
  have hsk : s ∈ f.keys := by
    by_contra hk
    exact hs ((members_of_not_mem hk).trans (members_of_not_mem (h.1 ▸ hk)).symm)
  unfold weight
  rw [← h.1]
  exact List.sum_lt_sum _ _ (fun k _ => NameSet.size_le_of_subset (h.2 k))
    ⟨s, hsk, NameSet.size_lt_of_ssubset (h.2 s) hs⟩

theorem weight_le {f : Family} {b : NameSet} (h : ∀ s, f.members s ⊆ b) : f.weight ≤ f.keys.size * b.size := by
  have hle := List.sum_le_card_nsmul (f.keys.toList.map fun k => (f.members k).size) b.size
    (fun n hn => by
      obtain ⟨k, _, rfl⟩ := List.mem_map.mp hn
      exact NameSet.size_le_of_subset (h k))
  rw [List.length_map, nsmul_eq_mul] at hle
  exact hle

end Family
end Lookahead
