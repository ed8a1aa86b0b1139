import Lookahead.Grammar.Defect
import Mathlib.Data.List.Nodup

/-! What a grammar without defects satisfies. -/
namespace Lookahead
namespace Grammar

/-- The empty word stands alone on a right-hand side, numbers are not shared, and every symbol is
declared in one role at most. -/
structure WellFormed (g : Grammar) : Prop where
  start_mem : g.start ∈ g.nonterminals
  disjoint : ∀ s ∈ g.terminals, s ∉ g.nonterminals
  ids_nodup : (g.productions.map Production.id).Nodup
  lhs_mem : ∀ p ∈ g.productions, p.lhs ∈ g.nonterminals
  epsilon_alone : ∀ p ∈ g.productions, epsilon ∈ p.rhs → p.rhs = [epsilon]
  rhs_declared : ∀ p ∈ g.productions, ∀ s ∈ p.rhs, s ∈ g.terminals ∨ s ∈ g.nonterminals ∨ s = epsilon

/-- Neither the empty word nor the end marker is declared as a symbol. -/
def MarksReserved (g : Grammar) : Prop :=
  ∀ s ∈ [epsilon, endMarker], s ∉ g.terminals ∧ s ∉ g.nonterminals

instance (g : Grammar) : Decidable g.MarksReserved :=
  inferInstanceAs (Decidable (∀ s ∈ [epsilon, endMarker], s ∉ g.terminals ∧ s ∉ g.nonterminals))

theorem MarksReserved.marker_not_terminal {g : Grammar} (h : g.MarksReserved) : endMarker ∉ g.terminals :=
  (h endMarker (by decide)).1

theorem MarksReserved.marker_not_nonterminal {g : Grammar} (h : g.MarksReserved) : endMarker ∉ g.nonterminals :=
  (h endMarker (by decide)).2

/-! ## No defects -/

theorem eq_singleton_iff_length {l : List String} {s : String} (h : s ∈ l) : l = [s] ↔ l.length = 1 := by
  rw [List.length_eq_one_iff]
  constructor
  · intro hl
    exact ⟨s, hl⟩
  · rintro ⟨r, rfl⟩
    rw [List.mem_singleton.mp h]

theorem productionDefects_eq_nil {g : Grammar} {used : List Int} {p : Production} :
    g.productionDefects used p = [] ↔
      p.id ∉ used ∧ p.lhs ∈ g.nonterminals ∧ (epsilon ∈ p.rhs → p.rhs = [epsilon]) ∧
        ∀ s ∈ p.rhs, s ∈ g.terminals ∨ s ∈ g.nonterminals ∨ s = epsilon := by
  have hmixed : (p.rhs.contains epsilon && p.rhs.length ≠ 1) = true ↔ ¬ (epsilon ∈ p.rhs → p.rhs = [epsilon]) := by
    rw [Bool.and_eq_true, List.contains_iff_mem, decide_eq_true_eq, Classical.not_imp]
    exact and_congr_right fun hmem => not_congr (eq_singleton_iff_length hmem).symm
  have hdeclared : (p.rhs.filter fun s => !g.declares s) = [] ↔
      ∀ s ∈ p.rhs, s ∈ g.terminals ∨ s ∈ g.nonterminals ∨ s = epsilon := by
    rw [List.filter_eq_nil_iff]
    refine forall₂_congr fun s _ => ?_
    simp [declares]
    tauto
  unfold productionDefects
  rw [List.append_eq_nil_iff, List.append_eq_nil_iff, List.append_eq_nil_iff, List.map_eq_nil_iff, hdeclared,
    and_assoc, and_assoc]
  refine and_congr ?_ (and_congr ?_ (and_congr ?_ Iff.rfl))
  · simp
  · split <;> simp_all
  · rw [← not_iff_not, ← hmixed]
    split <;> simp_all

theorem defectsFrom_eq_nil {g : Grammar} {used : List Int} {ps : List Production} :
    g.defectsFrom used ps = [] ↔
      (ps.map Production.id).Nodup ∧ (∀ p ∈ ps, p.id ∉ used) ∧
        ∀ p ∈ ps, p.lhs ∈ g.nonterminals ∧ (epsilon ∈ p.rhs → p.rhs = [epsilon]) ∧
          ∀ s ∈ p.rhs, s ∈ g.terminals ∨ s ∈ g.nonterminals ∨ s = epsilon := by
  induction ps generalizing used with
  | nil => simp [defectsFrom]
  | cons p ps ih =>
    rw [defectsFrom, List.append_eq_nil_iff, productionDefects_eq_nil, ih]
    simp only [List.map_cons, List.nodup_cons, List.forall_mem_cons]
    simp only [List.mem_cons, List.mem_map, not_or, not_exists, not_and]
    constructor
    · rintro ⟨⟨hid, hp⟩, hnodup, hused, hps⟩
      exact ⟨⟨fun q hq => (hused q hq).1, hnodup⟩, ⟨hid, fun q hq => (hused q hq).2⟩, hp, hps⟩
    · rintro ⟨⟨hne, hnodup⟩, ⟨hid, hused⟩, hp, hps⟩
      exact ⟨⟨hid, hp⟩, hnodup, fun q hq => ⟨hne q hq, hused q hq⟩, hps⟩

theorem defects_eq_nil {g : Grammar} : g.defects = [] ↔ g.WellFormed := by
  have hstart : (if g.start ∈ g.nonterminals then [] else [Defect.startUndeclared g.start]) = [] ↔
      g.start ∈ g.nonterminals := by
    split <;> simp_all
  have hshared : (g.terminals.filter (· ∈ g.nonterminals)).toList = [] ↔ ∀ s ∈ g.terminals, s ∉ g.nonterminals := by
    rw [List.eq_nil_iff_forall_not_mem]
    simp
  unfold defects
  rw [List.append_eq_nil_iff, List.append_eq_nil_iff, List.map_eq_nil_iff, hstart, hshared, defectsFrom_eq_nil]
  constructor
  · rintro ⟨⟨hs, hd⟩, hids, -, hps⟩
    exact ⟨hs, hd, hids, fun p hp => (hps p hp).1, fun p hp => (hps p hp).2.1, fun p hp => (hps p hp).2.2⟩
  · intro h
    exact ⟨⟨h.start_mem, h.disjoint⟩, h.ids_nodup, by simp,
      fun p hp => ⟨h.lhs_mem p hp, h.epsilon_alone p hp, h.rhs_declared p hp⟩⟩

theorem wellFormed_iff {g : Grammar} : g.WellFormed ↔
    g.start ∈ g.nonterminals ∧ (∀ s ∈ g.terminals, s ∉ g.nonterminals) ∧
      (g.productions.map Production.id).Nodup ∧ ∀ p ∈ g.productions, p.lhs ∈ g.nonterminals ∧
        (∀ s ∈ p.rhs, s ∈ g.terminals ∨ s ∈ g.nonterminals ∨ s = epsilon) ∧
          (epsilon ∈ p.rhs → p.rhs.length = 1) := by
  have halone (p : Production) : (epsilon ∈ p.rhs → p.rhs = [epsilon]) ↔ (epsilon ∈ p.rhs → p.rhs.length = 1) :=
    forall_congr' fun hmem => eq_singleton_iff_length hmem
  constructor
  · intro h
    exact ⟨h.start_mem, h.disjoint, h.ids_nodup, fun p hp =>
      ⟨h.lhs_mem p hp, h.rhs_declared p hp, (halone p).mp (h.epsilon_alone p hp)⟩⟩
  · rintro ⟨hstart, hdisjoint, hids, hps⟩
    exact ⟨hstart, hdisjoint, hids, fun p hp => (hps p hp).1, fun p hp => (halone p).mpr (hps p hp).2.2,
      fun p hp => (hps p hp).2.1⟩

/-! ## Numbered rules -/

theorem map_number (n : Int) (rules : List (String × List String)) :
    (number n rules).map (fun p => (p.lhs, p.rhs)) = rules := by
  induction rules generalizing n with
  | nil => rfl
  | cons r rules ih => rw [number, List.map_cons, ih]

theorem le_id_of_mem_number {n : Int} {rules : List (String × List String)} {p : Production}
    (h : p ∈ number n rules) : n ≤ p.id := by
  induction rules generalizing n with
  | nil => exact absurd h List.not_mem_nil
  | cons r rules ih =>
    rcases List.mem_cons.mp h with rfl | h
    · exact Int.le_refl n
    · have hid := ih h
      omega

theorem nodup_number (n : Int) (rules : List (String × List String)) : ((number n rules).map Production.id).Nodup := by
  induction rules generalizing n with
  | nil => exact List.nodup_nil
  | cons r rules ih =>
    rw [number, List.map_cons, List.nodup_cons]
    refine ⟨fun h => ?_, ih (n + 1)⟩
    obtain ⟨p, hp, hid⟩ := List.mem_map.mp h
    have hle : n + 1 ≤ p.id := le_id_of_mem_number hp
    have hn : p.id = n := hid
    omega

/-! ## Right-hand sides without the empty word -/

namespace WellFormed
variable {g : Grammar} {p : Production}

theorem body_of_isEpsilon (h : p.isEpsilon = true) : p.body = [] := by
  simp only [Production.isEpsilon, decide_eq_true_eq] at h
  simp [Production.body, h]

theorem body_eq_rhs (hg : g.WellFormed) (hp : p ∈ g.productions) (h : p.isEpsilon = false) : p.body = p.rhs := by
  rw [Production.body, List.filter_eq_self]
  intro s hs
  rw [decide_eq_true_eq]
  rintro rfl
  rw [Production.isEpsilon, decide_eq_false_iff_not] at h
  exact h (hg.epsilon_alone p hp hs)

theorem rhs_of_body (hg : g.WellFormed) (hp : p ∈ g.productions) {α β : List String} {s : String}
    (h : p.body = α ++ s :: β) : p.rhs = α ++ s :: β := by
  rw [← h]
  refine (hg.body_eq_rhs hp ?_).symm
  by_contra hε
  rw [body_of_isEpsilon (Bool.of_not_eq_false hε)] at h
  exact List.append_ne_nil_of_right_ne_nil α (List.cons_ne_nil s β) h.symm

theorem mem_rhs_of_mem_body {s : String} (h : s ∈ p.body) : s ∈ p.rhs := (List.mem_filter.mp h).1

theorem ne_epsilon_of_mem_body {s : String} (h : s ∈ p.body) : s ≠ epsilon := by
  have := (List.mem_filter.mp h).2
  exact of_decide_eq_true this

theorem body_declared (hg : g.WellFormed) (hp : p ∈ g.productions) {s : String} (h : s ∈ p.body) :
    s ∈ g.terminals ∨ s ∈ g.nonterminals := by
  rcases hg.rhs_declared p hp s (mem_rhs_of_mem_body h) with ht | hn | hε
  · exact Or.inl ht
  · exact Or.inr hn
  · exact absurd hε (ne_epsilon_of_mem_body h)

theorem body_symbols (hg : g.WellFormed) (hp : p ∈ g.productions) :
    ∀ s ∈ p.body, (s ∈ g.terminals ∨ s ∈ g.nonterminals) ∧ s ≠ epsilon :=
  fun _ hs => ⟨hg.body_declared hp hs, ne_epsilon_of_mem_body hs⟩

end WellFormed
end Grammar
end Lookahead
