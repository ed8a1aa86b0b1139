import Lookahead.Proofs.Grammar.Analysis

/-! The empty word is neutral. Erased from every right-hand side of a grammar, also where it stands several times or
between other symbols, it changes neither the sets nor the conflicts, and the table has the same productions with
their right-hand sides erased. -/
namespace Lookahead

/-! ## Definitions -/

/-- The production without the empty word on its right. -/
def Production.erase (p : Production) : Production := { p with rhs := p.body }

/-- The grammar without the empty word on any right-hand side. A production that had nothing else is left with none. -/
def Grammar.erase (g : Grammar) : Grammar := { g with productions := g.productions.map Production.erase }

namespace NameMap
variable {α β : Type}

/-- The map with another value in place of each. -/
def map (f : α → β) (m : NameMap α) : NameMap β :=
  ⟨m.entries.map fun e => (e.1, f e.2), List.pairwise_map.mpr m.sorted⟩

theorem get?_map (f : α → β) (m : NameMap α) (k : String) : (m.map f).get? k = (m.get? k).map f := by
  have hfind : ∀ l : List (String × α), find k (l.map fun e => (e.1, f e.2)) = (find k l).map f := by
    intro l
    induction l with
    | nil => rfl
    | cons e l ih =>
      rw [List.map_cons, find, find]
      by_cases hk : k = e.1
      · rw [if_pos hk, if_pos hk]
        rfl
      · rw [if_neg hk, if_neg hk, ih]
  exact hfind m.entries

theorem keys_map (f : α → β) (m : NameMap α) : (m.map f).keys = m.keys := by
  apply NameSet.ext_mem
  intro k
  rw [← get?_isSome, ← get?_isSome, get?_map, Option.isSome_map]

theorem map_set (f : α → β) (m : NameMap α) (k : String) (v : α) : (m.set k v).map f = (m.map f).set k (f v) := by
  apply ext_get?
  intro c
  rw [get?_map, get?_set, get?_set, get?_map]
  split <;> rfl

end NameMap

/-- The table with every production erased. -/
def Table.erase (t : Table) : Table :=
  ⟨t.grammar.erase, t.cells.map fun row => row.map Production.erase, t.conflicts⟩

def Analysis.erase (a : Analysis) : Analysis := ⟨a.grammar.erase, a.first, a.follow, a.table.erase⟩

/-- Every symbol has one role, and the empty word may stand anywhere on a right-hand side. -/
structure Grammar.Declared (g : Grammar) : Prop where
  start_mem : g.start ∈ g.nonterminals
  disjoint : ∀ s ∈ g.terminals, s ∉ g.nonterminals
  epsilon_not_terminal : epsilon ∉ g.terminals
  epsilon_not_nonterminal : epsilon ∉ g.nonterminals
  ids_nodup : (g.productions.map Production.id).Nodup
  lhs_mem : ∀ p ∈ g.productions, p.lhs ∈ g.nonterminals
  rhs_declared : ∀ p ∈ g.productions, ∀ s ∈ p.rhs, s ∈ g.terminals ∨ s ∈ g.nonterminals ∨ s = epsilon

/-! ## Productions -/

namespace Production
variable {p : Production}

theorem epsilon_not_mem_body (p : Production) : epsilon ∉ p.body := by
  intro h
  exact Grammar.WellFormed.ne_epsilon_of_mem_body h rfl

theorem body_erase (p : Production) : p.erase.body = p.body := by
  refine List.filter_eq_self.mpr fun s hs => ?_
  exact decide_eq_true (Grammar.WellFormed.ne_epsilon_of_mem_body hs)

theorem isEpsilon_erase (p : Production) : p.erase.isEpsilon = false := by
  refine decide_eq_false fun h => p.epsilon_not_mem_body ?_
  have hrhs : p.body = [epsilon] := h
  rw [hrhs]
  exact List.mem_cons_self

end Production

namespace Grammar
variable {g : Grammar}

theorem Declared.erase_wellFormed (hg : g.Declared) : g.erase.WellFormed where
  start_mem := hg.start_mem
  disjoint := hg.disjoint
  ids_nodup := by
    have hids : g.erase.productions.map Production.id = g.productions.map Production.id := List.map_map
    rw [hids]
    exact hg.ids_nodup
  lhs_mem := List.forall_mem_map.mpr hg.lhs_mem
  epsilon_alone := List.forall_mem_map.mpr fun p _ hε => absurd hε p.epsilon_not_mem_body
  rhs_declared := List.forall_mem_map.mpr fun p hp s hs =>
    hg.rhs_declared p hp s (WellFormed.mem_rhs_of_mem_body hs)

end Grammar

/-! ## Sequences -/

namespace Family

/-- The set of the empty word is the empty word alone. -/
def Neutral (f : Family) : Prop := f.get? epsilon = some (NameSet.insert epsilon ∅)

variable {f : Family}

theorem Neutral.set (h : f.Neutral) {k : String} (hk : k ≠ epsilon) (v : NameSet) : Neutral (f.set k v) := by
  rw [Neutral, NameMap.get?_set, if_neg hk.symm]
  exact h

theorem Neutral.firstOf_cons (h : f.Neutral) (l : List String) : f.firstOf (epsilon :: l) = f.firstOf l := by
  have hlookup : f.lookup epsilon = .ok (NameSet.insert epsilon ∅) := by
    rw [lookup, h]
  have hmem : epsilon ∈ NameSet.insert epsilon ∅ := NameSet.mem_insert.mpr (Or.inl rfl)
  rw [firstOf, hlookup]
  simp only [bind, Except.bind, if_pos hmem]
  cases f.firstOf l with
  | error e => rfl
  | ok u =>
    refine congrArg Except.ok (NameSet.ext_mem fun a => ?_)
    simp

theorem Neutral.firstOf_filter (h : f.Neutral) (l : List String) : f.firstOf (l.filter (· ≠ epsilon)) = f.firstOf l := by
  induction l with
  | nil => rfl
  | cons s l ih =>
    by_cases hs : s = epsilon
    · rw [hs, h.firstOf_cons, List.filter_cons_of_neg (by simp), ih]
    · rw [List.filter_cons_of_pos (by simp [hs]), firstOf, firstOf, ih]

theorem Neutral.firstOf_of_isEpsilon (h : f.Neutral) {p : Production} (hp : p.isEpsilon = true) :
    f.firstOf p.rhs = .ok (NameSet.insert epsilon ∅) := by
  have hbody : p.rhs.filter (· ≠ epsilon) = [] := Grammar.WellFormed.body_of_isEpsilon hp
  rw [← h.firstOf_filter, hbody]
  rfl

end Family

/-! ## FIRST sets -/

namespace Grammar
variable {g : Grammar} {f first follow : Family} {p : Production}

/-- The special case for a production of the empty word agrees with the general one for an empty right-hand side. -/
theorem firstStep_erase (h : f.Neutral) (p : Production) : firstStep f p.erase = firstStep f p := by
  rw [firstStep, firstStep, p.isEpsilon_erase]
  have hfirst : f.firstOf p.erase.rhs = f.firstOf p.rhs := h.firstOf_filter p.rhs
  rw [hfirst]
  cases hlookup : f.lookup p.lhs with
  | error e =>
    have herror : f.lookup p.erase.lhs = .error e := hlookup
    rw [herror]
    rfl
  | ok target =>
    have hok : f.lookup p.erase.lhs = .ok target := hlookup
    rw [hok]
    cases hε : p.isEpsilon with
    | false => rfl
    | true =>
      rw [h.firstOf_of_isEpsilon hε]
      have hunion : target ∪ NameSet.insert epsilon ∅ = target.insert epsilon := by
        apply NameSet.ext_mem
        intro a
        simp [or_comm]
      exact congrArg (fun s => Except.ok (f.set p.lhs s)) hunion

theorem neutral_of_firstStep (h : f.Neutral) (hp : p.lhs ≠ epsilon) {f' : Family} (hstep : firstStep f p = .ok f') :
    f'.Neutral := by
  rw [firstStep, bind_eq_ok_iff] at hstep
  obtain ⟨target, -, hstep⟩ := hstep
  split at hstep
  · exact Except.ok.inj hstep ▸ h.set hp _
  · obtain ⟨t, -, hstep⟩ := bind_eq_ok_iff.mp hstep
    exact Except.ok.inj hstep ▸ h.set hp _

theorem neutral_firstSeed (g : Grammar) : g.firstSeed.Neutral := by
  rw [Family.Neutral, firstSeed, NameMap.get?_ofKeys, if_pos (NameSet.mem_insert.mpr (Or.inl rfl)), if_pos rfl]

theorem first_erase (hε : epsilon ∉ g.nonterminals) (hlhs : ∀ p ∈ g.productions, p.lhs ∈ g.nonterminals) :
    g.erase.first = g.first ∧ ∀ s, g.first = .ok s → s.value.Neutral := by
  have hpass : ∀ f : Family, f.Neutral →
      g.firstPass f = g.erase.firstPass f ∧ ∀ f', g.firstPass f = .ok f' → f'.Neutral := by
    intro f hf
    have hmap : g.erase.firstPass f = g.productions.foldlM (fun f p => firstStep f p.erase) f := List.foldlM_map ..
    rw [hmap]
    refine foldlM_congr (fun p hp f hf => ⟨(firstStep_erase hf p).symm, fun f' => neutral_of_firstStep hf ?_⟩) hf
    exact fun h => hε (h ▸ hlhs p hp)
  obtain ⟨heq, hok⟩ := settle_congr hpass g.firstBound g.neutral_firstSeed
  exact ⟨heq.symm, hok⟩

/-! ## FOLLOW sets -/

theorem followAlong_erase (h : first.Neutral) (hε : epsilon ∉ g.nonterminals) (lhs : String) (l : List String)
    (f : Family) : g.erase.followAlong first lhs (l.filter (· ≠ epsilon)) f = g.followAlong first lhs l f := by
  induction l generalizing f with
  | nil => rfl
  | cons s l ih =>
    by_cases hs : s = epsilon
    · rw [List.filter_cons_of_neg (by simp [hs]), ih, followAlong, if_neg fun hn => hε (hs ▸ hn)]
    · rw [List.filter_cons_of_pos (by simp [hs]), followAlong, followAlong, h.firstOf_filter]
      by_cases hn : s ∈ g.nonterminals
      · have hn' : s ∈ g.erase.nonterminals := hn
        simp only [if_pos hn, if_pos hn', ih]
      · have hn' : s ∉ g.erase.nonterminals := hn
        rw [if_neg hn, if_neg hn', ih]

theorem follow_erase (h : first.Neutral) (hε : epsilon ∉ g.nonterminals) : g.erase.follow first = g.follow first := by
  have hpass : g.erase.followPass first = g.followPass first := by
    funext f
    have hmap : g.erase.followPass first f =
        g.productions.foldlM (fun f p => g.erase.followAlong first p.lhs p.body f) f := List.foldlM_map ..
    rw [hmap, followPass]
    refine (foldlM_congr (P := fun _ => True) (fun p _ f _ => ⟨?_, fun _ _ => trivial⟩) trivial).1
    exact followAlong_erase h hε p.lhs p.rhs f
  rw [follow, follow, hpass]
  rfl

end Grammar

/-! ## Tables -/

namespace Table
variable {first follow : Family} {t : Table}

theorem row_erase (t : Table) (A : String) : t.erase.row A = (t.row A).map Production.erase := by
  rw [row, row, erase, NameMap.get?_map]
  cases t.cells.get? A <;> rfl

theorem get?_erase (t : Table) (A x : String) : t.erase.get? A x = (t.get? A x).map Production.erase := by
  rw [get?, row_erase, NameMap.get?_map]
  rfl

theorem expected_erase (t : Table) (A : String) : t.erase.expected A = t.expected A := by
  rw [expected, row_erase, NameMap.keys_map]
  rfl

theorem assign_erase (p : Production) (t : Table) (terminal : String) :
    assign p.erase t.erase terminal = (assign p t terminal).erase := by
  have hget : t.erase.get? p.erase.lhs terminal = (t.get? p.lhs terminal).map Production.erase := get?_erase ..
  rw [assign, assign, hget]
  cases t.get? p.lhs terminal with
  | none =>
    have hrow : t.erase.row p.erase.lhs = (t.row p.lhs).map Production.erase := row_erase ..
    rw [Option.map_none]
    dsimp only
    rw [hrow, ← NameMap.map_set]
    simp only [erase, NameMap.map_set]
    rfl
  | some q =>
    rw [Option.map_some]
    dsimp only
    by_cases hid : q.id = p.id
    · rw [if_pos hid]
      exact if_pos hid
    · rw [if_neg hid]
      exact if_neg hid

theorem foldl_assign_erase (p : Production) (l : List String) (t : Table) :
    l.foldl (assign p.erase) t.erase = (l.foldl (assign p) t).erase := by
  induction l generalizing t with
  | nil => rfl
  | cons x l ih => rw [List.foldl_cons, List.foldl_cons, assign_erase, ih]

/-- Where nothing is left of a right-hand side, its FIRST set gives no lookahead and lets all followers in. -/
theorem lookaheads_erase (h : first.Neutral) (p : Production) :
    lookaheads first follow p.erase = lookaheads first follow p := by
  have hfirst : first.firstOf p.erase.rhs = first.firstOf p.rhs := h.firstOf_filter p.rhs
  rw [lookaheads, lookaheads, p.isEpsilon_erase, hfirst]
  cases hlookup : follow.lookup p.lhs with
  | error e =>
    have herror : follow.lookup p.erase.lhs = .error e := hlookup
    rw [herror]
    rfl
  | ok after =>
    have hok : follow.lookup p.erase.lhs = .ok after := hlookup
    rw [hok]
    cases hε : p.isEpsilon with
    | false => rfl
    | true =>
      rw [h.firstOf_of_isEpsilon hε]
      rfl

theorem fill_erase (h : first.Neutral) (p : Production) (t : Table) :
    fill first follow t.erase p.erase = (fill first follow t p).map erase := by
  rw [fill, fill, lookaheads_erase h]
  cases lookaheads first follow p with
  | error e => rfl
  | ok l => exact congrArg Except.ok (foldl_assign_erase p l t)

theorem blank_erase (g : Grammar) : blank g.erase = (blank g).erase := by
  have hcells : (blank g).cells.map (fun row => row.map Production.erase) = (blank g.erase).cells := by
    apply NameMap.ext_get?
    intro A
    rw [NameMap.get?_map, blank, blank, NameMap.get?_ofKeys, NameMap.get?_ofKeys]
    split
    · rename_i h
      exact (if_pos h).symm
    · rename_i h
      exact (if_neg h).symm
  rw [erase, hcells]
  rfl

theorem build_erase (h : first.Neutral) (g : Grammar) :
    build g.erase first follow = (build g first follow).map erase := by
  have hfold : ∀ (ps : List Production) t, (ps.map Production.erase).foldlM (fill first follow) t.erase =
      (ps.foldlM (fill first follow) t).map erase := by
    intro ps
    induction ps with
    | nil => exact fun t => rfl
    | cons p ps ih =>
      intro t
      rw [List.map_cons, List.foldlM_cons, List.foldlM_cons, fill_erase h]
      cases fill first follow t p with
      | error e => rfl
      | ok u => exact ih u
  rw [build, build, blank_erase]
  exact hfold g.productions (blank g)

end Table

/-! ## Analyses -/

namespace Grammar
variable {g : Grammar}

theorem Declared.analysis_erase (hg : g.Declared) : g.erase.analysis = g.analysis.map Analysis.erase := by
  obtain ⟨hfirst, hneutral⟩ := first_erase hg.epsilon_not_nonterminal hg.lhs_mem
  rw [analysis, analysis, hfirst]
  cases hf : g.first with
  | error e => rfl
  | ok first =>
    simp only [bind, Except.bind]
    rw [follow_erase (hneutral first hf) hg.epsilon_not_nonterminal]
    cases g.follow first.value with
    | error e => rfl
    | ok follow =>
      dsimp only
      rw [Table.build_erase (hneutral first hf)]
      cases Table.build g first.value follow.value <;> rfl

/-- The grammar with the empty word erased has no defects, so both analyses return. -/
theorem Declared.exists_analysis (hg : g.Declared) :
    ∃ a, g.analysis = .ok a ∧ g.erase.analyze = .ok a.erase := by
  have hdefects : g.erase.defects = [] := defects_eq_nil.mpr hg.erase_wellFormed
  obtain ⟨b, hb, -⟩ := analyze_decides hdefects
  rw [analyze, hdefects, hg.analysis_erase] at hb
  cases ha : g.analysis with
  | error e =>
    rw [ha] at hb
    cases hb
  | ok a =>
    refine ⟨a, rfl, ?_⟩
    rw [analyze, hdefects, hg.analysis_erase, ha]
    rfl

end Grammar
end Lookahead
