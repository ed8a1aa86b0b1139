import Lookahead.Proofs.Grammar.Analysis
import Lookahead.Proofs.Grammar.Begins

/-! The table and the conflicts, read off the computed sets: the sets give every production its lookaheads, a
cell has the first production with its lookahead, and a conflict is any later one. -/
namespace Lookahead
namespace Table

/-- The lookaheads that the sets give a production: what its right-hand side begins with, and the followers of
its left-hand side where the right-hand side can vanish. -/
def predictSet (first follow : Family) (p : Production) : Except Undeclared NameSet := do
  let front ← first.firstOf p.rhs
  let after ← follow.lookup p.lhs
  return front.erase epsilon ∪ if epsilon ∈ front then after else ∅

/-! ## Cells and conflicts among the productions of one nonterminal -/

section Filled
variable {look : Production → List String} {ps : List Production} {t : Table} {A x : String} {p q : Production}

theorem Filled.congr {look' : Production → List String} (h : Filled look ps t)
    (hlook : ∀ p ∈ ps, ∀ x, x ∈ look p ↔ x ∈ look' p) : Filled look' ps t := by
  have hfind : ∀ l ⊆ ps, ∀ A x, (l.find? fun p => p.lhs = A ∧ x ∈ look p) = l.find? fun p => p.lhs = A ∧ x ∈ look' p := by
    intro l hl A x
    induction l with
    | nil => rfl
    | cons p l ih =>
      rw [List.cons_subset] at hl
      rw [List.find?_cons, List.find?_cons, ih hl.2]
      simp only [hlook p hl.1 x]
  refine ⟨fun A x => (h.get?_eq A x).trans (hfind ps (List.Subset.refl ps) A x), fun c => ?_⟩
  rw [h.mem_conflicts]
  refine exists_congr fun l => exists_congr fun p => exists_congr fun r => exists_congr fun q =>
    and_congr_right fun hps => ?_
  have hp : p ∈ ps := hps ▸ List.mem_append_right l List.mem_cons_self
  rw [hlook p hp, hfind l (hps ▸ List.subset_append_left l _)]

theorem Filled.get?_eq_filter (h : Filled look ps t) (A x : String) :
    t.get? A x = (ps.filter fun p => p.lhs = A).find? fun p => x ∈ look p := by
  rw [h.get?_eq, List.find?_filter]
  congr 1
  funext p
  simp

/-- The first production of a nonterminal with a lookahead is before every other one. -/
theorem before_of_find? (hq : ((ps.filter fun p => p.lhs = A).find? fun p => x ∈ look p) = some q)
    (hp : p ∈ ps.filter fun p => p.lhs = A) (hx : x ∈ look p) (hne : q ≠ p) :
    [q, p].Sublist (ps.filter fun p => p.lhs = A) := by
  obtain ⟨-, l, r, hps, hl⟩ := List.find?_eq_some_iff_append.mp hq
  rw [hps, List.mem_append, List.mem_cons] at hp
  rw [hps]
  rcases hp with hp | rfl | hp
  · exact absurd hx (by simpa using hl p hp)
  · exact absurd rfl hne
  · exact (List.cons_sublist_cons.mpr (List.singleton_sublist.mpr hp)).trans (List.sublist_append_right l _)

theorem find?_of_append {l r : List Production} {cell : Production → Bool} (hq : (l ++ r).find? cell = some q)
    (hmem : q ∈ l) : l.find? cell = some q := by
  have hcell := List.find?_some hq
  rw [List.find?_append] at hq
  cases hl : l.find? cell with
  | none => exact absurd hcell (List.find?_eq_none.mp hl q hmem)
  | some q' => rwa [hl, Option.some_or] at hq

theorem Filled.mem_conflicts_iff (h : Filled look ps t) (hids : (ps.map Production.id).Nodup) {e c : Int} :
    (⟨A, x, e, c⟩ : Conflict) ∈ t.conflicts ↔
      ∃ q p, ((ps.filter fun p => p.lhs = A).find? fun p => x ∈ look p) = some q ∧
        [q, p].Sublist (ps.filter fun p => p.lhs = A) ∧ x ∈ look p ∧ q.id = e ∧ p.id = c := by
  rw [h.mem_conflicts]
  constructor
  · rintro ⟨l, p, r, q, rfl, hx, hq, hid, hc⟩
    rw [Conflict.mk.injEq] at hc
    obtain ⟨rfl, -, rfl, rfl⟩ := hc
    have hfind : ((l ++ p :: r).filter fun q => q.lhs = p.lhs).find? (fun q => x ∈ look q) = some q := by
      rw [← h.get?_eq_filter, h.get?_eq, List.find?_append, hq]
      rfl
    refine ⟨q, p, hfind, before_of_find? hfind ?_ hx fun e => hid (congrArg Production.id e), hx, rfl, rfl⟩
    simp
  · rintro ⟨q, p, hq, hsub, hx, rfl, rfl⟩
    have hlhs : p.lhs = A := by
      have hp := hsub.subset (List.mem_cons_of_mem q List.mem_cons_self)
      exact of_decide_eq_true (List.mem_filter.mp hp).2
    have hpair := hsub.trans List.filter_sublist
    have hid : q.id ≠ p.id := by
      have hnodup := hids.sublist (hpair.map Production.id)
      simpa using hnodup
    obtain ⟨l, r, rfl, hql, hpr⟩ := List.cons_sublist_iff.mp hpair
    obtain ⟨m, r, rfl⟩ := List.append_of_mem (List.singleton_sublist.mp hpr)
    rw [← h.get?_eq_filter, h.get?_eq, ← List.append_assoc] at hq
    have hfind := find?_of_append hq (List.mem_append_left m hql)
    exact ⟨l ++ m, p, r, q, (List.append_assoc _ _ _).symm, hx, hlhs ▸ hfind, hid, by rw [hlhs]⟩

theorem Filled.conflicts_eq_nil_iff (h : Filled look ps t) (hids : (ps.map Production.id).Nodup) :
    t.conflicts = [] ↔ ∀ p ∈ ps, ∀ q ∈ ps, p.lhs = q.lhs → p ≠ q → ∀ x ∈ look p, x ∉ look q := by
  constructor
  · intro hc p hp q hq hlhs hne x hxp hxq
    have hfirst : ∀ r ∈ ps, r.lhs = q.lhs → x ∈ look r → t.get? q.lhs x = some r := fun r hr hrq hxr =>
      (h.get?_eq_some hids hc).mpr ⟨hr, hrq, hxr⟩
    exact hne (Option.some.inj ((hfirst p hp hlhs hxp).symm.trans (hfirst q hq rfl hxq)))
  · intro hsep
    rw [List.eq_nil_iff_forall_not_mem]
    rintro ⟨A, x, e, c⟩ hc
    obtain ⟨q, p, hq, hsub, hx, -, -⟩ := (h.mem_conflicts_iff hids).mp hc
    have hmem : ∀ r ∈ [q, p], r ∈ ps ∧ r.lhs = A := fun r hr => by
      simpa using List.mem_filter.mp (hsub.subset hr)
    obtain ⟨hqps, hqA⟩ := hmem q List.mem_cons_self
    obtain ⟨hpps, hpA⟩ := hmem p (List.mem_cons_of_mem q List.mem_cons_self)
    have hne : q ≠ p := by
      have hnodup := hids.of_map.sublist (hsub.trans List.filter_sublist)
      simpa using hnodup
    exact hsep q hqps p hpps (hqA.trans hpA.symm) hne x (by simpa using List.find?_some hq) hx

end Filled
end Table

/-! ## The computed sets -/

namespace Grammar
variable {g : Grammar} {p : Production} {ps : List Production} {s t : String} {first follow : Family}

/-- A table is filled by the same lookaheads as the sets give. In the set of the empty word stands nothing
else, so that its production needs no treatment of its own. -/
theorem predictSet_eq (hg : g.WellFormed) (hε : g.EpsilonReserved) (hsound : g.FirstSound first)
    (hfirst : g.FirstExact first) (hfollow : g.FollowExact follow) (hp : p ∈ g.productions) :
    ∃ l u, Table.lookaheads first follow p = .ok l ∧ Table.predictSet first follow p = .ok u ∧ ∀ t, t ∈ l ↔ t ∈ u := by
  have hafter := Family.lookup_of_mem ((hfollow.keys p.lhs).mpr (hg.lhs_mem p hp))
  obtain ⟨front, hfront, hgives⟩ := Family.mem_firstOf (f := first) (l := p.rhs) fun s hs =>
    (hfirst.keys s).mpr (hg.rhs_declared p hp s hs)
  refine ⟨if p.isEpsilon then (follow.members p.lhs).toList
    else (front.erase epsilon).toList ++ if epsilon ∈ front then (follow.members p.lhs).toList else [],
    front.erase epsilon ∪ if epsilon ∈ front then follow.members p.lhs else ∅, ?_, ?_, ?_⟩
  · rw [Table.lookaheads, hafter]
    simp only [bind, Except.bind, hfront]
    split <;> rfl
  · rw [Table.predictSet, hfront]
    simp only [bind, Except.bind, hafter]
    rfl
  · intro t
    by_cases he : p.isEpsilon = true
    · have hrhs : p.rhs = [epsilon] := of_decide_eq_true he
      have hmem : ∀ t, t ∈ front ↔ t = epsilon := by
        intro t
        rw [hgives, hrhs, Family.gives_cons, Family.gives_nil, hsound.mem_members_epsilon hg hε,
          hsound.mem_members_epsilon hg hε]
        tauto
      rw [if_pos he, if_pos ((hmem epsilon).mpr rfl), NameSet.mem_union, NameSet.mem_erase, hmem]
      simp
    · rw [if_neg he, List.mem_append, NameSet.mem_toList, NameSet.mem_union]
      refine or_congr_right ?_
      split <;> simp

/-! ## Any order of the productions -/

theorem Follows.withProductions (hps : g.productions ⊆ ps) (h : g.Follows t s) : (g.withProductions ps).Follows t s := by
  induction h with
  | finish ht => exact .finish ht
  | next hp hrhs hs hβ =>
    obtain ⟨γ, r, δ, hβ, hγ, hr⟩ := hβ
    exact .next (hps hp) hrhs hs
      ⟨γ, r, δ, hβ, fun q hq => (hγ q hq).withProductions hps, hr.withProductions hps⟩
  | inherit hp hrhs hs hβ _ ih =>
    exact .inherit (hps hp) hrhs hs (fun r hr => (hβ r hr).withProductions hps) ih

theorem follows_withProductions (hps : ps.Perm g.productions) : (g.withProductions ps).Follows t s ↔ g.Follows t s :=
  ⟨Follows.withProductions (g := g.withProductions ps) hps.subset, Follows.withProductions hps.symm.subset⟩

/-- The FOLLOW sets are the same for every order of the productions. -/
theorem follow_eq_of_perm (hps : ps.Perm g.productions) (hfollow : g.FollowExact follow) {follow' : Family}
    (hfollow' : (g.withProductions ps).FollowExact follow') : follow' = follow := by
  have hmem : ∀ s t, t ∈ follow'.members s ↔ t ∈ follow.members s := fun s t => by
    rw [hfollow.follows, hfollow'.follows, follows_withProductions hps]
  have hkeys : NameMap.keys follow' = NameMap.keys follow := NameSet.ext_mem fun s => by
    rw [hfollow.keys, hfollow'.keys]
    rfl
  exact Family.Le.antisymm _ _ ⟨hkeys, fun s t => (hmem s t).mp⟩ ⟨hkeys.symm, fun s t => (hmem s t).mpr⟩

/-! ## The analysis -/

/-- An analysis with exact sets, and a table filled by the lookaheads that they give. -/
structure Analyzed (g : Grammar) (a : Analysis) (predict : Production → NameSet) : Prop where
  analyze_eq : g.analyze = .ok a
  first_eq : g.first = .ok a.first
  followExact : g.FollowExact a.follow.value
  predict_eq : ∀ p ∈ g.productions, Table.predictSet a.first.value a.follow.value p = .ok (predict p)
  build_eq : Table.build g a.first.value a.follow.value = .ok a.table
  filled : Table.Filled (fun p => (predict p).toList) g.productions a.table

theorem exists_analyzed (hg : g.WellFormed) (hε : g.EpsilonReserved) : ∃ a predict, g.Analyzed a predict := by
  obtain ⟨first, hfirst, -, hsound, hexact⟩ := first_settles hg
  obtain ⟨follow, hfollow, hexact'⟩ := follow_exact hg hexact
  have hsets : ∀ p : Production, ∃ l u, p ∈ g.productions → Table.lookaheads first.value follow.value p = .ok l ∧
      Table.predictSet first.value follow.value p = .ok u ∧ ∀ t, t ∈ l ↔ t ∈ u := by
    intro p
    by_cases hp : p ∈ g.productions
    · obtain ⟨l, u, h⟩ := predictSet_eq hg hε hsound hexact hexact' hp
      exact ⟨l, u, fun _ => h⟩
    · exact ⟨[], ∅, fun h => absurd h hp⟩
  choose look predict hsets using hsets
  obtain ⟨t, ht, -, hfilled⟩ := Table.build_filled fun p hp => (hsets p hp).1
  have hfirst' : g.first = .ok first := hfirst g.firstBound le_rfl
  exact ⟨_, predict, analyze_eq_ok (defects_eq_nil.mpr hg) hfirst' hfollow ht, hfirst', hexact',
    fun p hp => (hsets p hp).2.1, ht, hfilled.congr fun p hp => (hsets p hp).2.2⟩

section Analyzed
variable {a b : Analysis} {predict predict' : Production → NameSet}

/-- No lookahead belongs to two productions of one nonterminal. -/
def Separated (g : Grammar) (predict : Production → NameSet) : Prop :=
  ∀ p ∈ g.productions, ∀ q ∈ g.productions, p.lhs = q.lhs → p ≠ q → ∀ t ∈ predict p, t ∉ predict q

theorem Analyzed.isLL1_iff (hg : g.WellFormed) (h : g.Analyzed a predict) : a.isLL1 = true ↔ g.Separated predict := by
  rw [Analysis.isLL1, Table.isLL1, List.isEmpty_iff, h.filled.conflicts_eq_nil_iff hg.ids_nodup]
  rfl

theorem Analyzed.mem_predict_iff (hg : g.WellFormed) (hε : g.EpsilonReserved) (h : g.Analyzed a predict)
    (hp : p ∈ g.productions) : t ∈ predict p ↔ g.Predicts p t := by
  obtain ⟨first, hfirst, -, hsound, hexact⟩ := first_settles hg
  have ha : a.first = first := Except.ok.inj (h.first_eq.symm.trans (hfirst g.firstBound le_rfl))
  obtain ⟨l, u, hl, hu, hlu⟩ := predictSet_eq hg hε hsound hexact h.followExact hp
  obtain ⟨l', hl', hpredicts⟩ := lookaheads_eq hg hexact h.followExact hp
  have hset := h.predict_eq p hp
  rw [ha, hu, Except.ok.injEq] at hset
  rw [hl', Except.ok.injEq] at hl
  rw [← hset, ← hlu, ← hl, hpredicts]

/-- A grammar in which no lookahead calls for two productions of one nonterminal has a table without conflicts. -/
theorem analyze_of_unambiguous (hg : g.WellFormed) (hε : g.EpsilonReserved)
    (hone : ∀ p ∈ g.productions, ∀ q ∈ g.productions, p.lhs = q.lhs → ∀ t, g.Predicts p t → g.Predicts q t → p = q) :
    ∃ a, g.analyze = .ok a ∧ a.table.conflicts = [] := by
  obtain ⟨a, predict, h⟩ := exists_analyzed hg hε
  refine ⟨a, h.analyze_eq, List.isEmpty_iff.mp ((h.isLL1_iff hg).mpr fun p hp q hq hlhs hne t htp htq => ?_)⟩
  rw [h.mem_predict_iff hg hε hp] at htp
  rw [h.mem_predict_iff hg hε hq] at htq
  exact hne (hone p hp q hq hlhs t htp htq)

/-- Another order of the productions gives each of them the same lookaheads. -/
theorem Analyzed.predict_eq_of_perm (hg : g.WellFormed) (hε : g.EpsilonReserved) (hps : ps.Perm g.productions)
    (h : g.Analyzed a predict) (h' : (g.withProductions ps).Analyzed b predict') :
    ∀ p ∈ g.productions, predict' p = predict p := by
  obtain ⟨first, hfirst, hvalue⟩ := first_withProductions hg hε hps h.first_eq
  have hb : b.first = first := Except.ok.inj (h'.first_eq.symm.trans hfirst)
  intro p hp
  have hset := h'.predict_eq p (hps.mem_iff.mpr hp)
  rw [hb, hvalue, follow_eq_of_perm hps h.followExact h'.followExact, h.predict_eq p hp, Except.ok.injEq] at hset
  exact hset.symm

theorem Separated.of_subset {g : Grammar} (g' : Grammar) (hsub : g'.productions ⊆ g.productions)
    (hpredict : ∀ p ∈ g'.productions, predict' p = predict p) (h : g.Separated predict) : g'.Separated predict' := by
  intro p hp q hq hlhs hne t ht
  rw [hpredict p hp] at ht
  rw [hpredict q hq]
  exact h p (hsub hp) q (hsub hq) hlhs hne t ht

theorem Analyzed.isLL1_eq_of_perm (hg : g.WellFormed) (hε : g.EpsilonReserved) (hps : ps.Perm g.productions)
    (h : g.Analyzed a predict) (h' : (g.withProductions ps).Analyzed b predict') : b.isLL1 = a.isLL1 := by
  have hpredict := h.predict_eq_of_perm hg hε hps h'
  rw [Bool.eq_iff_iff, h.isLL1_iff hg, h'.isLL1_iff (hg.withProductions hps)]
  constructor
  · exact Separated.of_subset g hps.symm.subset fun p hp => (hpredict p hp).symm
  · exact Separated.of_subset (g.withProductions ps) hps.subset fun p hp => hpredict p (hps.subset hp)

/-- A cell has the first production of its nonterminal that the sets give its lookahead, and the conflicts are
the productions after that one with the same lookahead. So a grammar is LL(1) if and only if no two productions
of a nonterminal share a lookahead, whatever their order, and a table is refused with its conflicts, afterwards or
by a strict construction, if and only if two of them do. -/
theorem analyze_predicts (hg : g.defects = []) (hε : g.EpsilonReserved) : ∃ a predict, g.analyze = .ok a ∧
    (∀ p ∈ g.productions, Table.predictSet a.first.value a.follow.value p = .ok (predict p)) ∧
    (∀ A t, a.table.get? A t = (g.productionsFor A).find? fun p => t ∈ predict p) ∧
    (∀ A t e c, ⟨A, t, e, c⟩ ∈ a.table.conflicts ↔ ∃ q p,
      ((g.productionsFor A).find? fun p => t ∈ predict p) = some q ∧ [q, p].Sublist (g.productionsFor A) ∧
        t ∈ predict p ∧ q.id = e ∧ p.id = c) ∧
    (a.isLL1 = true ↔ g.Separated predict) ∧
    (∀ ps, ps.Perm g.productions → ∃ b, (g.withProductions ps).analyze = .ok b ∧ b.isLL1 = a.isLL1) ∧
    Table.build g a.first.value a.follow.value = .ok a.table ∧
    (a.table.requireLL1 = .ok a.table ↔ g.Separated predict) ∧
    (a.table.requireLL1 = .error a.table.conflicts ↔ ¬ g.Separated predict) ∧
    Table.construct g a.first.value a.follow.value false = .ok a.table ∧
    (Table.construct g a.first.value a.follow.value true = .ok a.table ↔ g.Separated predict) ∧
    (Table.construct g a.first.value a.follow.value true = .error (.conflicting a.table.conflicts) ↔
      ¬ g.Separated predict) := by
  have hwf := defects_eq_nil.mp hg
  obtain ⟨a, predict, h⟩ := exists_analyzed hwf hε
  have hll1 := h.isLL1_iff hwf
  have hstrict : (a.table.requireLL1 = .ok a.table ↔ g.Separated predict) ∧
      (a.table.requireLL1 = .error a.table.conflicts ↔ ¬ g.Separated predict) := by
    rw [← hll1, Analysis.isLL1, Table.requireLL1]
    cases a.table.isLL1 <;> simp
  have hconstruct : ∀ strict, Table.construct g a.first.value a.follow.value strict =
      if strict && !a.table.isLL1 then .error (.conflicting a.table.conflicts) else .ok a.table := by
    intro strict
    rw [Table.construct, h.build_eq]
    rfl
  have hstrictly : (Table.construct g a.first.value a.follow.value true = .ok a.table ↔ g.Separated predict) ∧
      (Table.construct g a.first.value a.follow.value true = .error (.conflicting a.table.conflicts) ↔
        ¬ g.Separated predict) := by
    rw [← hll1, Analysis.isLL1, hconstruct]
    cases a.table.isLL1 <;> simp
  refine ⟨a, predict, h.analyze_eq, h.predict_eq, h.filled.get?_eq_filter,
    fun A t e c => h.filled.mem_conflicts_iff hwf.ids_nodup, hll1, fun ps hps => ?_, h.build_eq, hstrict.1, hstrict.2,
    hconstruct false, hstrictly⟩
  obtain ⟨b, predict', h'⟩ := exists_analyzed (hwf.withProductions hps) (g := g.withProductions ps) hε
  exact ⟨b, h'.analyze_eq, h.isLL1_eq_of_perm hwf hε hps h'⟩

end Analyzed

/-- Two productions of `S` for one lookahead, one of them by way of `A`. -/
def crossing : Grammar := .ofRules "S" [("S", ["a"]), ("S", ["A"]), ("A", ["a", "A"]), ("A", [epsilon])] ["a"] []

theorem analyze_predicts_crossing : crossing.defects = [] ∧ crossing.EpsilonReserved ∧
    ∃ a predict, crossing.analyze = .ok a ∧ Table.predictSet a.first.value a.follow.value ⟨2, "S", ["A"]⟩ =
      .ok (predict ⟨2, "S", ["A"]⟩) ∧ "a" ∈ predict ⟨2, "S", ["A"]⟩ ∧ ¬ crossing.Separated predict := by
  have hg : crossing.defects = [] := by decide +kernel
  have hε : crossing.EpsilonReserved := by decide +kernel
  obtain ⟨a, predict, ha, hsets, -, hconflicts, hll1, -⟩ := analyze_predicts hg hε
  have hcomputed : (crossing.analyze.toOption.map fun a => a.table.conflicts) = some [⟨"S", "a", 1, 2⟩] := by
    decide +kernel
  rw [ha] at hcomputed
  have hcrossing : a.table.conflicts = [⟨"S", "a", 1, 2⟩] := Option.some.inj hcomputed
  obtain ⟨q, p, -, hsub, ht, -, hid⟩ := (hconflicts "S" "a" 1 2).mp (hcrossing ▸ List.mem_cons_self)
  have hproductions : crossing.productionsFor "S" = [⟨1, "S", ["a"]⟩, ⟨2, "S", ["A"]⟩] := by decide +kernel
  have hp : p = ⟨2, "S", ["A"]⟩ := by
    have hmem := hsub.subset (List.mem_cons_of_mem q List.mem_cons_self)
    rw [hproductions, List.mem_cons, List.mem_singleton] at hmem
    rcases hmem with rfl | rfl
    · exact absurd hid (by decide)
    · rfl
  refine ⟨hg, hε, a, predict, ha, hsets _ (by decide +kernel), hp ▸ ht, fun hsep => ?_⟩
  have hempty := hll1.mpr hsep
  rw [Analysis.isLL1, Table.isLL1, hcrossing] at hempty
  cases hempty

end Grammar
end Lookahead
