import Lookahead.Grammar.Table
import Lookahead.Proofs.Grammar.Follow

/-! A table has in each cell the first production that lists its lookahead, and records a conflict for every
later one. A table without conflicts therefore has in each cell the one production predicted there. -/
namespace Lookahead
namespace Table

/-! ## One production -/

section Assign
variable {p : Production} {t : Table}

theorem row_set {g : Grammar} {cells : NameMap (NameMap Production)} {conflicts : List Conflict} {A : String}
    {r : NameMap Production} (B : String) :
    (Table.mk g (cells.set A r) conflicts).row B = if B = A then r else (Table.mk g cells conflicts).row B := by
  unfold row
  rw [NameMap.get?_set]
  split <;> rfl

theorem get?_assign (terminal A x : String) :
    (assign p t terminal).get? A x =
      if A = p.lhs ∧ x = terminal then some ((t.get? A x).getD p) else t.get? A x := by
  unfold assign
  cases h : t.get? p.lhs terminal with
  | none =>
    dsimp only
    unfold get?
    rw [row_set]
    by_cases hA : A = p.lhs
    · subst hA
      rw [if_pos rfl, NameMap.get?_set]
      by_cases hx : x = terminal
      · subst hx
        rw [if_pos rfl, if_pos ⟨rfl, rfl⟩]
        unfold get? at h
        rw [h]
        rfl
      · rw [if_neg hx, if_neg fun h => hx h.2]
    · rw [if_neg hA, if_neg fun h => hA h.1]
  | some q =>
    have hsame : (if q.id = p.id then t else { t with conflicts := t.conflicts ++ [⟨p.lhs, terminal, q.id, p.id⟩] }).get?
        A x = t.get? A x := by
      split <;> rfl
    dsimp only
    rw [hsame]
    split
    · rename_i hcell
      rw [hcell.1, hcell.2, h]
      rfl
    · rfl

theorem mem_conflicts_assign {terminal : String} {c : Conflict} :
    c ∈ (assign p t terminal).conflicts ↔ c ∈ t.conflicts ∨
      ∃ q, t.get? p.lhs terminal = some q ∧ q.id ≠ p.id ∧ c = ⟨p.lhs, terminal, q.id, p.id⟩ := by
  unfold assign
  cases h : t.get? p.lhs terminal with
  | none => simp
  | some q =>
    dsimp only
    by_cases hid : q.id = p.id
    · rw [if_pos hid]
      simp [hid]
    · rw [if_neg hid, List.mem_append, List.mem_singleton]
      simp [hid]

theorem get?_foldl_assign (l : List String) (A x : String) :
    (l.foldl (assign p) t).get? A x =
      if A = p.lhs ∧ x ∈ l then some ((t.get? A x).getD p) else t.get? A x := by
  induction l generalizing t with
  | nil => simp
  | cons y l ih =>
    rw [List.foldl_cons, ih, get?_assign]
    by_cases hA : A = p.lhs
    · by_cases hy : x = y <;> by_cases hl : x ∈ l <;> simp [hA, hy, hl]
    · simp [hA]

/-- An assignment hides no conflict from a later one: what it adds to a row is the production itself. -/
theorem get?_assign_other {terminal x : String} {q : Production} (hq : q.id ≠ p.id) :
    (assign p t terminal).get? p.lhs x = some q ↔ t.get? p.lhs x = some q := by
  rw [get?_assign]
  split
  · cases h : t.get? p.lhs x with
    | none =>
      simp only [Option.getD_none, Option.some.injEq, reduceCtorEq, iff_false]
      exact fun e => hq (e ▸ rfl)
    | some r => simp
  · rfl

theorem mem_conflicts_foldl_assign {l : List String} {c : Conflict} :
    c ∈ (l.foldl (assign p) t).conflicts ↔ c ∈ t.conflicts ∨
      ∃ x ∈ l, ∃ q, t.get? p.lhs x = some q ∧ q.id ≠ p.id ∧ c = ⟨p.lhs, x, q.id, p.id⟩ := by
  induction l generalizing t with
  | nil => simp
  | cons y l ih =>
    rw [List.foldl_cons, ih, mem_conflicts_assign, or_assoc, List.exists_mem_cons_iff]
    refine or_congr Iff.rfl (or_congr Iff.rfl ?_)
    refine exists_congr fun x => and_congr_right fun _ => exists_congr fun q => ?_
    constructor
    · rintro ⟨h, hq, hc⟩
      exact ⟨(get?_assign_other hq).mp h, hq, hc⟩
    · rintro ⟨h, hq, hc⟩
      exact ⟨(get?_assign_other hq).mpr h, hq, hc⟩

theorem grammar_foldl_assign (l : List String) : (l.foldl (assign p) t).grammar = t.grammar := by
  induction l generalizing t with
  | nil => rfl
  | cons y l ih =>
    rw [List.foldl_cons, ih]
    unfold assign
    split
    · rfl
    · split <;> rfl

/-- A row that is there is replaced, and no other is added. -/
theorem keys_assign (h : p.lhs ∈ t.cells.keys) (terminal : String) :
    (assign p t terminal).cells.keys = t.cells.keys := by
  unfold assign
  split
  · rw [NameMap.keys_set]
    apply NameSet.ext_mem
    intro A
    rw [NameSet.mem_insert, or_iff_right_of_imp]
    rintro rfl
    exact h
  · split <;> rfl

theorem keys_foldl_assign (h : p.lhs ∈ t.cells.keys) (l : List String) :
    (l.foldl (assign p) t).cells.keys = t.cells.keys := by
  induction l generalizing t with
  | nil => rfl
  | cons x l ih =>
    have hkeys := keys_assign h x
    exact (ih (hkeys ▸ h)).trans hkeys

end Assign

/-! ## Rows -/

section Rows
variable {first follow : Family} {p : Production} {t u : Table}

theorem lhs_mem_of_lookaheads {l : List String} (h : lookaheads first follow p = .ok l) : p.lhs ∈ follow.keys := by
  rw [← NameMap.get?_isSome]
  rw [lookaheads, Family.lookup] at h
  cases hlhs : follow.get? p.lhs with
  | some s => rfl
  | none =>
    rw [hlhs] at h
    cases h

theorem keys_fill (h : t.cells.keys = follow.keys) (hu : fill first follow t p = .ok u) : u.cells.keys = follow.keys := by
  rw [fill] at hu
  cases hl : lookaheads first follow p with
  | error e =>
    rw [hl] at hu
    cases hu
  | ok l =>
    rw [hl] at hu
    rw [← Except.ok.inj hu]
    exact (keys_foldl_assign (h ▸ lhs_mem_of_lookaheads hl) l).trans h

/-- The rows of a table are the nonterminals that have followers, so every production whose lookaheads are known has
a row to be entered in. -/
theorem keys_foldlM_fill (h : t.cells.keys = follow.keys) {ps : List Production}
    (hu : ps.foldlM (fill first follow) t = .ok u) : u.cells.keys = follow.keys := by
  induction ps generalizing t with
  | nil => exact Except.ok.inj hu ▸ h
  | cons p ps ih =>
    rw [List.foldlM_cons] at hu
    cases hfill : fill first follow t p with
    | error e =>
      rw [hfill] at hu
      cases hu
    | ok v =>
      rw [hfill] at hu
      exact ih (keys_fill h hfill) hu

theorem keys_build {g : Grammar} (h : follow.keys = g.nonterminals) (ht : build g first follow = .ok t) :
    t.cells.keys = g.nonterminals :=
  (keys_foldlM_fill (NameMap.keys_ofKeys.trans h.symm) ht).trans h

end Rows

/-! ## All productions -/

/-- The table of some productions, each entered at its lookaheads: a cell has the first that lists it,
and every other one met a conflict there. -/
structure Filled (look : Production → List String) (ps : List Production) (t : Table) : Prop where
  get?_eq : ∀ A x, t.get? A x = ps.find? fun p => p.lhs = A ∧ x ∈ look p
  mem_conflicts : ∀ c, c ∈ t.conflicts ↔ ∃ l p r q, ps = l ++ p :: r ∧ c.terminal ∈ look p ∧
    (l.find? fun q => q.lhs = p.lhs ∧ c.terminal ∈ look q) = some q ∧ q.id ≠ p.id ∧
      c = ⟨p.lhs, c.terminal, q.id, p.id⟩

section Build
variable {look : Production → List String} {ps : List Production} {t : Table}

theorem filled_blank (g : Grammar) : Filled look [] (blank g) := by
  refine ⟨fun A x => ?_, fun c => ?_⟩
  · unfold get? row blank
    rw [NameMap.get?_ofKeys]
    split <;> rfl
  · constructor
    · intro h
      exact absurd h List.not_mem_nil
    · rintro ⟨l, p, r, q, h, -⟩
      exact absurd h.symm (List.append_ne_nil_of_right_ne_nil l (List.cons_ne_nil p r))

theorem Filled.snoc (h : Filled look ps t) (p : Production) :
    Filled look (ps ++ [p]) ((look p).foldl (assign p) t) := by
  refine ⟨fun A x => ?_, fun c => ?_⟩
  · rw [get?_foldl_assign, h.get?_eq, List.find?_append]
    by_cases hcell : A = p.lhs ∧ x ∈ look p
    · rw [if_pos hcell, hcell.1]
      cases (ps.find? fun q => decide (q.lhs = p.lhs ∧ x ∈ look q)) <;> simp [hcell.2]
    · have hp : ¬ (p.lhs = A ∧ x ∈ look p) := fun h => hcell ⟨h.1.symm, h.2⟩
      rw [if_neg hcell]
      simp [hp]
  · rw [mem_conflicts_foldl_assign, h.mem_conflicts]
    constructor
    · rintro (⟨l, p', r, q, rfl, hx, hq, hid, hc⟩ | ⟨x, hx, q, hq, hid, rfl⟩)
      · exact ⟨l, p', r ++ [p], q, by simp, hx, hq, hid, hc⟩
      · exact ⟨ps, p, [], q, rfl, hx, h.get?_eq p.lhs x ▸ hq, hid, rfl⟩
    · rintro ⟨l, p', r, q, hps, hx, hq, hid, hc⟩
      rcases List.eq_nil_or_concat r with rfl | ⟨r, p'', rfl⟩
      · obtain ⟨rfl, rfl⟩ := List.append_singleton_inj.mp hps
        exact Or.inr ⟨c.terminal, hx, q, (h.get?_eq p.lhs c.terminal).trans hq, hid, hc⟩
      · rw [List.concat_eq_append, ← List.cons_append, ← List.append_assoc] at hps
        obtain ⟨rfl, rfl⟩ := List.append_singleton_inj.mp hps
        exact Or.inl ⟨l, p', r, q, rfl, hx, hq, hid, hc⟩

/-- A construction succeeds where all lookaheads are known. What holds of the blank table and is kept by entering
one production after the others holds of its result. -/
theorem build_induct {g : Grammar} {first follow : Family} {ok : List Production → Table → Prop}
    (hlook : ∀ p ∈ g.productions, lookaheads first follow p = .ok (look p)) (hblank : ok [] (blank g))
    (hsnoc : ∀ pre p rest t, g.productions = pre ++ p :: rest → ok pre t →
      ok (pre ++ [p]) ((look p).foldl (assign p) t)) :
    ∃ t, build g first follow = .ok t ∧ t.grammar = g ∧ ok g.productions t := by
  have hfold : ∀ rest pre t, g.productions = pre ++ rest → t.grammar = g → ok pre t →
      ∃ t', rest.foldlM (fill first follow) t = .ok t' ∧ t'.grammar = g ∧ ok g.productions t' := by
    intro rest
    induction rest with
    | nil =>
      intro pre t hpre hg h
      rw [List.append_nil] at hpre
      exact ⟨t, rfl, hg, hpre ▸ h⟩
    | cons p rest ih =>
      intro pre t hpre hg h
      have hp : p ∈ g.productions := hpre ▸ List.mem_append_right pre List.mem_cons_self
      obtain ⟨t', ht', hg', h'⟩ := ih (pre ++ [p]) ((look p).foldl (assign p) t) (by simp [hpre])
        ((grammar_foldl_assign (look p)).trans hg) (hsnoc pre p rest t hpre h)
      refine ⟨t', ?_, hg', h'⟩
      rw [List.foldlM_cons, fill, hlook p hp]
      exact ht'
  exact hfold g.productions [] (blank g) rfl rfl hblank

theorem build_filled {g : Grammar} {first follow : Family}
    (hlook : ∀ p ∈ g.productions, lookaheads first follow p = .ok (look p)) :
    ∃ t, build g first follow = .ok t ∧ t.grammar = g ∧ Filled look g.productions t :=
  build_induct hlook (filled_blank g) fun _ p _ _ _ h => h.snoc p

theorem Filled.get?_eq_some (h : Filled look ps t) (hids : (ps.map Production.id).Nodup) (hc : t.conflicts = [])
    {A x : String} {p : Production} : t.get? A x = some p ↔ p ∈ ps ∧ p.lhs = A ∧ x ∈ look p := by
  rw [h.get?_eq]
  constructor
  · intro hp
    have hcell := List.find?_some hp
    rw [decide_eq_true_eq] at hcell
    exact ⟨List.mem_of_find?_eq_some hp, hcell⟩
  · rintro ⟨hp, rfl, hx⟩
    obtain ⟨l, r, rfl⟩ := List.append_of_mem hp
    rw [List.find?_append]
    cases hq : l.find? fun q => decide (q.lhs = p.lhs ∧ x ∈ look q) with
    | none => simp [hx]
    | some q =>
      have hid : q.id = p.id := by
        by_contra hne
        have hmem := (h.mem_conflicts ⟨p.lhs, x, q.id, p.id⟩).mpr ⟨l, p, r, q, rfl, hx, hq, hne, rfl⟩
        rw [hc] at hmem
        exact List.not_mem_nil hmem
      have hmem : q ∈ l ++ p :: r := List.mem_append_left _ (List.mem_of_find?_eq_some hq)
      rw [Option.some_or, List.inj_on_of_nodup_map hids hmem hp hid]

end Build
end Table

/-! ## Lookaheads -/

namespace Grammar
variable {g : Grammar} {first follow : Family} {p : Production}

/-- The lookaheads in their two halves: what the right-hand side starts with, and what follows the left-hand side if
the right-hand side vanishes. Neither half lists a terminal twice. -/
theorem lookaheads_halves (hg : g.WellFormed) (hfirst : g.FirstExact first) (hfollow : g.FollowExact follow)
    (hp : p ∈ g.productions) : ∃ front after, Table.lookaheads first follow p = .ok (front ++ after) ∧
      front.Nodup ∧ (∀ t, t ∈ front ↔ g.Heads t p.body) ∧
        after.Nodup ∧ ∀ t, t ∈ after ↔ g.AllVanish p.body ∧ g.Follows t p.lhs := by
  have hlookup := Family.lookup_of_mem ((hfollow.keys p.lhs).mpr (hg.lhs_mem p hp))
  by_cases hε : p.isEpsilon = true
  · refine ⟨[], (follow.members p.lhs).toList, ?_, List.nodup_nil, fun t => ?_, NameSet.nodup _, fun t => ?_⟩
    · rw [Table.lookaheads, hlookup]
      simp only [bind, Except.bind, hε, if_true]
      rfl
    · rw [WellFormed.body_of_isEpsilon hε]
      simp
    · rw [NameSet.mem_toList, hfollow.follows, WellFormed.body_of_isEpsilon hε]
      simp [allVanish_nil]
  · rw [Bool.not_eq_true] at hε
    have hbody := hg.body_eq_rhs hp hε
    obtain ⟨u, hu, hvanish, hheads⟩ := hfirst.firstOf (hg.body_symbols hp)
    refine ⟨(u.erase epsilon).toList, if epsilon ∈ u then (follow.members p.lhs).toList else [], ?_, NameSet.nodup _,
      fun t => ?_, ?_, fun t => ?_⟩
    · rw [Table.lookaheads, hlookup]
      simp only [bind, Except.bind, hε, ← hbody, hu]
      rfl
    · rw [NameSet.mem_toList, NameSet.mem_erase]
      constructor
      · rintro ⟨ht, hm⟩
        exact (hheads t ht).mp hm
      · intro h
        exact ⟨h.mem_terminals.2, (hheads t h.mem_terminals.2).mpr h⟩
    · split
      · exact NameSet.nodup _
      · exact List.nodup_nil
    · rw [← hvanish]
      split
      · rename_i h
        rw [and_iff_right h, NameSet.mem_toList, hfollow.follows]
      · rename_i h
        simp [h]

theorem lookaheads_eq (hg : g.WellFormed) (hfirst : g.FirstExact first) (hfollow : g.FollowExact follow)
    (hp : p ∈ g.productions) : ∃ l, Table.lookaheads first follow p = .ok l ∧ ∀ t, t ∈ l ↔ g.Predicts p t := by
  obtain ⟨front, after, hl, -, hfront, -, hafter⟩ := lookaheads_halves hg hfirst hfollow hp
  refine ⟨front ++ after, hl, fun t => ?_⟩
  rw [List.mem_append, hfront, hafter, Predicts]

theorem build_predicts (hg : g.WellFormed) (hfirst : g.FirstExact first) (hfollow : g.FollowExact follow) :
    ∃ look t, Table.build g first follow = .ok t ∧ t.grammar = g ∧ Table.Filled look g.productions t ∧
      ∀ p ∈ g.productions, ∀ x, x ∈ look p ↔ g.Predicts p x := by
  have hlook : ∀ p ∈ g.productions, ∃ l, Table.lookaheads first follow p = .ok l ∧ ∀ x, x ∈ l ↔ g.Predicts p x :=
    fun p hp => lookaheads_eq hg hfirst hfollow hp
  choose! look hlook using hlook
  obtain ⟨t, ht, hgrammar, hfilled⟩ := Table.build_filled fun p hp => (hlook p hp).1
  exact ⟨look, t, ht, hgrammar, hfilled, fun p hp => (hlook p hp).2⟩

/-- A table of a grammar without defects that has in each cell the one production predicted there. -/
structure Decides (g : Grammar) (t : Table) : Prop where
  wellFormed : g.WellFormed
  grammar_eq : t.grammar = g
  get?_eq_some : ∀ A x p, t.get? A x = some p ↔ p ∈ g.productions ∧ p.lhs = A ∧ g.Predicts p x

theorem build_decides (hg : g.WellFormed) (hfirst : g.FirstExact first) (hfollow : g.FollowExact follow) :
    ∃ t, Table.build g first follow = .ok t ∧ (t.conflicts = [] → g.Decides t) := by
  obtain ⟨look, t, ht, hgrammar, hfilled, hlook⟩ := build_predicts hg hfirst hfollow
  refine ⟨t, ht, fun hc => ⟨hg, hgrammar, fun A x p => ?_⟩⟩
  rw [hfilled.get?_eq_some hg.ids_nodup hc]
  exact and_congr_right fun hp => and_congr_right fun _ => hlook p hp x

end Grammar
end Lookahead
