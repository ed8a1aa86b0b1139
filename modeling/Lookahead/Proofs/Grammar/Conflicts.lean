import Lookahead.Proofs.Grammar.Analysis

/-! How often a conflict is recorded. A production is entered at what its right-hand side starts with and, if that
can vanish, at what follows its left-hand side. A cell named by both halves meets the production twice, and if the
cell belongs to another one, the conflict is recorded twice. -/
namespace Lookahead
namespace Table

/-! ## One production -/

/-- The conflict that a production meets at a cell of another one. -/
def Clashes (t : Table) (p : Production) (c : Conflict) : Prop :=
  ∃ q, t.get? p.lhs c.terminal = some q ∧ q.id ≠ p.id ∧ c = ⟨p.lhs, c.terminal, q.id, p.id⟩

section Assign
variable {p : Production} {t : Table} {c : Conflict}

theorem clashes_assign {terminal : String} : (assign p t terminal).Clashes p c ↔ t.Clashes p c := by
  refine exists_congr fun q => ?_
  constructor
  · rintro ⟨hq, hid, hc⟩
    exact ⟨(get?_assign_other hid).mp hq, hid, hc⟩
  · rintro ⟨hq, hid, hc⟩
    exact ⟨(get?_assign_other hid).mpr hq, hid, hc⟩

theorem count_assign_of_clashes (h : t.Clashes p c) (terminal : String) :
    (assign p t terminal).conflicts.count c = t.conflicts.count c + if terminal = c.terminal then 1 else 0 := by
  obtain ⟨q, hq, hid, hc⟩ := h
  unfold assign
  by_cases hx : terminal = c.terminal
  · subst hx
    rw [hq]
    dsimp only
    rw [if_neg hid, if_pos rfl, List.count_append, ← hc, List.count_singleton_self]
  · rw [if_neg hx, Nat.add_zero]
    cases t.get? p.lhs terminal with
    | none => rfl
    | some r =>
      dsimp only
      split
      · rfl
      · have hne : (⟨p.lhs, terminal, r.id, p.id⟩ : Conflict) ≠ c := fun e => hx (congrArg Conflict.terminal e)
        have hnew : c ∉ [⟨p.lhs, terminal, r.id, p.id⟩] := fun hc => hne (List.mem_singleton.mp hc).symm
        rw [List.count_append, List.count_eq_zero_of_not_mem hnew, Nat.add_zero]

/-- A conflict that is met is recorded once for every time that its terminal is listed. -/
theorem count_foldl_assign_of_clashes (h : t.Clashes p c) (l : List String) :
    (l.foldl (assign p) t).conflicts.count c = t.conflicts.count c + l.count c.terminal := by
  induction l generalizing t with
  | nil => rfl
  | cons x l ih =>
    rw [List.foldl_cons, ih (clashes_assign.mpr h), count_assign_of_clashes h, List.count_cons, Nat.add_assoc,
      Nat.add_comm (l.count c.terminal)]
    simp only [beq_iff_eq]

theorem conflicts_foldl_assign (l : List String) : ∃ new, (l.foldl (assign p) t).conflicts = t.conflicts ++ new ∧
    ∀ c ∈ new, c.candidate = p.id := by
  induction l generalizing t with
  | nil => exact ⟨[], (List.append_nil _).symm, fun c hc => absurd hc List.not_mem_nil⟩
  | cons x l ih =>
    obtain ⟨new, hnew, hcandidate⟩ := ih (t := assign p t x)
    rw [List.foldl_cons, hnew]
    unfold assign
    cases t.get? p.lhs x with
    | none => exact ⟨new, rfl, hcandidate⟩
    | some q =>
      dsimp only
      split
      · exact ⟨new, rfl, hcandidate⟩
      · exact ⟨⟨p.lhs, x, q.id, p.id⟩ :: new, by simp, List.forall_mem_cons.mpr ⟨rfl, hcandidate⟩⟩

theorem count_foldl_assign_of_ne (h : c.candidate ≠ p.id) (l : List String) :
    (l.foldl (assign p) t).conflicts.count c = t.conflicts.count c := by
  obtain ⟨new, hnew, hcandidate⟩ := conflicts_foldl_assign (p := p) (t := t) l
  rw [hnew, List.count_append, List.count_eq_zero_of_not_mem fun hc => h (hcandidate c hc), Nat.add_zero]

end Assign

/-! ## All productions -/

/-- The table of some productions, each of whose conflicts is recorded as often as the lookaheads of its candidate
list its terminal. -/
structure Counted (look : Production → List String) (ps : List Production) (t : Table) : Prop where
  filled : Filled look ps t
  count_eq : ∀ p ∈ ps, ∀ c ∈ t.conflicts, c.candidate = p.id → t.conflicts.count c = (look p).count c.terminal

section Build
variable {look : Production → List String} {ps : List Production} {t : Table}

theorem Filled.exists_candidate (h : Filled look ps t) {c : Conflict} (hc : c ∈ t.conflicts) :
    ∃ p ∈ ps, p.lhs = c.nonterminal ∧ p.id = c.candidate ∧ c.terminal ∈ look p := by
  obtain ⟨l, p, r, q, rfl, hx, -, -, hc⟩ := (h.mem_conflicts c).mp hc
  refine ⟨p, List.mem_append_right l List.mem_cons_self, ?_, ?_, hx⟩
  · rw [hc]
  · rw [hc]

theorem Counted.snoc (h : Counted look ps t) {p : Production} (hp : ∀ q ∈ ps, q.id ≠ p.id) :
    Counted look (ps ++ [p]) ((look p).foldl (assign p) t) := by
  refine ⟨h.filled.snoc p, fun r hr c hc hid => ?_⟩
  rcases List.mem_append.mp hr with hr | hr
  · -- A conflict of an earlier production is none of this one's.
    have hne : c.candidate ≠ p.id := hid ▸ hp r hr
    rw [count_foldl_assign_of_ne hne]
    refine h.count_eq r hr c ?_ hid
    rcases mem_conflicts_foldl_assign.mp hc with hc | ⟨x, -, q, -, -, rfl⟩
    · exact hc
    · exact absurd rfl hne
  · rw [List.mem_singleton] at hr
    subst hr
    have hfresh : c ∉ t.conflicts := by
      intro hc
      obtain ⟨q, hq, -, hqc, -⟩ := h.filled.exists_candidate hc
      exact hp q hq (hqc.trans hid)
    rcases mem_conflicts_foldl_assign.mp hc with hc | ⟨x, -, q, hq, hqid, rfl⟩
    · exact absurd hc hfresh
    · rw [count_foldl_assign_of_clashes ⟨q, hq, hqid, rfl⟩, List.count_eq_zero_of_not_mem hfresh, Nat.zero_add]

theorem build_counted {g : Grammar} {first follow : Family} (hids : (g.productions.map Production.id).Nodup)
    (hlook : ∀ p ∈ g.productions, lookaheads first follow p = .ok (look p)) :
    ∃ t, build g first follow = .ok t ∧ Counted look g.productions t := by
  have hblank : Counted look [] (blank g) := ⟨filled_blank g, fun p hp => absurd hp List.not_mem_nil⟩
  obtain ⟨t, ht, -, hcounted⟩ := build_induct hlook hblank fun pre p rest t hpre h => h.snoc fun q hq => by
    rw [hpre, List.map_append, List.map_cons] at hids
    exact fun e => (List.nodup_append.mp hids).2.2 q.id (List.mem_map_of_mem hq) p.id List.mem_cons_self e
  exact ⟨t, ht, hcounted⟩

end Build
end Table

/-! ## Conflicts on record -/

namespace Grammar
variable {g : Grammar}

/-- The lookahead calls for the production on both grounds: the right-hand side can start with it, and it can also
vanish before it. -/
def PredictsTwice (g : Grammar) (p : Production) (t : String) : Prop :=
  g.Heads t p.body ∧ g.AllVanish p.body ∧ g.Follows t p.lhs

theorem lookaheads_count {first follow : Family} {p : Production} (hg : g.WellFormed) (hfirst : g.FirstExact first)
    (hfollow : g.FollowExact follow) (hp : p ∈ g.productions) :
    ∃ l, Table.lookaheads first follow p = .ok l ∧ (∀ t, t ∈ l ↔ g.Predicts p t) ∧
      ∀ t ∈ l, (g.PredictsTwice p t → l.count t = 2) ∧ (¬ g.PredictsTwice p t → l.count t = 1) := by
  obtain ⟨front, after, hl, hfront, hmem, hafter, hmem'⟩ := lookaheads_halves hg hfirst hfollow hp
  refine ⟨front ++ after, hl, fun t => ?_, fun t ht => ?_⟩
  · rw [List.mem_append, hmem, hmem', Predicts]
  · have htwice : g.PredictsTwice p t ↔ t ∈ front ∧ t ∈ after := by
      rw [PredictsTwice, hmem, hmem']
    rw [htwice, List.count_append, hfront.count, hafter.count]
    rw [List.mem_append] at ht
    constructor
    · rintro ⟨h, h'⟩
      rw [if_pos h, if_pos h']
    · intro h
      rcases ht with ht | ht
      · rw [if_pos ht, if_neg fun h' => h ⟨ht, h'⟩]
      · rw [if_neg fun h' => h ⟨h', ht⟩, if_pos ht]

/-- What is on record after the analysis of a grammar without defects: a conflict stands there twice if its terminal
calls for its candidate on both grounds, and once otherwise. So no conflict is reported twice just if no candidate is
called for on both grounds. -/
theorem analyze_counts_conflicts (hg : g.defects = []) :
    ∃ a, g.analyze = .ok a ∧
      (∀ c ∈ a.table.conflicts, ∃ p ∈ g.productions, p.lhs = c.nonterminal ∧ p.id = c.candidate ∧
        g.Predicts p c.terminal ∧ (g.PredictsTwice p c.terminal → a.table.conflicts.count c = 2) ∧
          (¬ g.PredictsTwice p c.terminal → a.table.conflicts.count c = 1)) ∧
      (a.table.conflicts.Nodup ↔
        ∀ c ∈ a.table.conflicts, ∀ p ∈ g.productions, p.id = c.candidate → ¬ g.PredictsTwice p c.terminal) := by
  have hwf := defects_eq_nil.mp hg
  obtain ⟨first, hfirst, hexact⟩ := first_exact hwf
  obtain ⟨follow, hfollow, hexact'⟩ := follow_exact hwf hexact
  have hlook : ∀ p : Production, ∃ l, p ∈ g.productions → Table.lookaheads first.value follow.value p = .ok l ∧
      (∀ t, t ∈ l ↔ g.Predicts p t) ∧
        ∀ t ∈ l, (g.PredictsTwice p t → l.count t = 2) ∧ (¬ g.PredictsTwice p t → l.count t = 1) := by
    intro p
    by_cases hp : p ∈ g.productions
    · obtain ⟨l, hl⟩ := lookaheads_count hwf hexact hexact' hp
      exact ⟨l, fun _ => hl⟩
    · exact ⟨[], fun h => absurd h hp⟩
  choose look hlook using hlook
  obtain ⟨t, ht, hcounted⟩ := Table.build_counted hwf.ids_nodup fun p hp => (hlook p hp).1
  have hcount : ∀ c ∈ t.conflicts, ∃ p ∈ g.productions, p.lhs = c.nonterminal ∧ p.id = c.candidate ∧
      g.Predicts p c.terminal ∧ (g.PredictsTwice p c.terminal → t.conflicts.count c = 2) ∧
        (¬ g.PredictsTwice p c.terminal → t.conflicts.count c = 1) := by
    intro c hc
    obtain ⟨p, hp, hlhs, hid, hx⟩ := hcounted.filled.exists_candidate hc
    rw [hcounted.count_eq p hp c hc hid.symm]
    exact ⟨p, hp, hlhs, hid, ((hlook p hp).2.1 c.terminal).mp hx, (hlook p hp).2.2 c.terminal hx⟩
  refine ⟨_, analyze_eq_ok hg hfirst hfollow ht, hcount, fun hnodup c hc p hp hid htwice => ?_, fun hnone => ?_⟩
  · obtain ⟨q, hq, -, hqid, -, htwo, -⟩ := hcount c hc
    have hpq : p = q := List.inj_on_of_nodup_map hwf.ids_nodup hp hq (hid.trans hqid.symm)
    have h₁ : t.conflicts.count c = 1 := List.count_eq_one_of_mem hnodup hc
    have h₂ : t.conflicts.count c = 2 := htwo (hpq ▸ htwice)
    omega
  · rw [List.nodup_iff_count_le_one]
    intro c
    by_cases hc : c ∈ t.conflicts
    · obtain ⟨p, hp, -, hid, -, -, hone⟩ := hcount c hc
      exact (hone (hnone c hc p hp hid)).le
    · rw [List.count_eq_zero_of_not_mem hc]
      exact Nat.zero_le 1

/-- The third production can vanish and can start with what follows its left-hand side, in a cell of the second. -/
def overlapping : Grammar :=
  .ofRules "S" [("S", ["A", "a"]), ("A", ["a"]), ("A", ["B"]), ("B", ["a"]), ("B", [epsilon])] ["a"] []

theorem overlapping_conflicts : overlapping.defects = [] ∧
    (overlapping.analyze.toOption.map fun a => a.table.conflicts) =
      some [⟨"A", "a", 2, 3⟩, ⟨"A", "a", 2, 3⟩, ⟨"B", "a", 4, 5⟩] := by
  decide +kernel

/-- There are two collisions here, and three conflicts are reported. -/
theorem overlapping_reports_twice : overlapping.defects = [] ∧ ∃ a, overlapping.analyze = .ok a ∧
    a.table.requireLL1 = .error a.table.conflicts ∧ ¬ a.table.conflicts.Nodup ∧
      a.table.conflicts.dedup.length = 2 ∧ (Conflict.diagnostic a.table.conflicts).message =
        "Grammar is not LL(1): 3 conflict(s) at [A, a] (productions 2 and 3), [A, a] (productions 2 and 3), " ++
          "[B, a] (productions 4 and 5)" := by
  obtain ⟨hg, hconflicts⟩ := overlapping_conflicts
  obtain ⟨a, ha, -⟩ := analyze_decides hg
  rw [ha] at hconflicts
  have hc : a.table.conflicts = [⟨"A", "a", 2, 3⟩, ⟨"A", "a", 2, 3⟩, ⟨"B", "a", 4, 5⟩] := Option.some.inj hconflicts
  refine ⟨hg, a, ha, ?_, ?_⟩
  · rw [Table.requireLL1, Table.isLL1, hc]
    rfl
  · rw [hc]
    decide +kernel

theorem overlapping_counts : overlapping.defects = [] ∧ ∃ a, overlapping.analyze = .ok a ∧
    ∃ c ∈ a.table.conflicts, ∃ p ∈ overlapping.productions, p.id = c.candidate ∧
      overlapping.PredictsTwice p c.terminal ∧ a.table.conflicts.count c = 2 := by
  obtain ⟨hg, hconflicts⟩ := overlapping_conflicts
  obtain ⟨a, ha, hcount, -⟩ := analyze_counts_conflicts hg
  rw [ha] at hconflicts
  have hc : a.table.conflicts = [⟨"A", "a", 2, 3⟩, ⟨"A", "a", 2, 3⟩, ⟨"B", "a", 4, 5⟩] := Option.some.inj hconflicts
  have hmem : ⟨"A", "a", 2, 3⟩ ∈ a.table.conflicts := hc ▸ List.mem_cons_self
  obtain ⟨p, hp, -, hid, -, -, hone⟩ := hcount _ hmem
  have htwo : a.table.conflicts.count ⟨"A", "a", 2, 3⟩ = 2 := by
    rw [hc]
    decide +kernel
  refine ⟨hg, a, ha, _, hmem, p, hp, hid, ?_, htwo⟩
  by_contra h
  have hne : a.table.conflicts.count ⟨"A", "a", 2, 3⟩ = 1 := hone h
  omega

end Grammar
end Lookahead
