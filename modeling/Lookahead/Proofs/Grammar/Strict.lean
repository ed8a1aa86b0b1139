import Lookahead.Proofs.Grammar.Analysis
import Lookahead.Proofs.Result

/-! No name is ever missed. Where a definition that runs falls back on an empty row or an empty set for a name
without an entry, the strict one here fails. On a grammar without defects the strict ones return, and what they
return is what runs, so nothing was ever fallen back on. -/
namespace Lookahead

/-! ## Entries that have to be there -/

namespace NameMap
variable {α : Type} {m : NameMap α} {k : String}

/-- The value of a name, which must have one. -/
def need (m : NameMap α) (k : String) : Except Undeclared α :=
  match m.get? k with
  | some v => .ok v
  | none => .error ⟨k⟩

theorem need_eq {v : α} (h : m.get? k = some v) : m.need k = .ok v := by
  rw [need, h]

theorem need_of_mem_entries {e : String × α} (h : e ∈ m.entries) : m.need e.1 = .ok e.2 :=
  need_eq ((find_eq_some m.sorted).mpr h)

theorem get?_getD_of_mem (h : k ∈ m.keys) (d : α) : m.get? k = some ((m.get? k).getD d) := by
  obtain ⟨v, hv⟩ := Option.isSome_iff_exists.mp (get?_isSome.mpr h)
  rw [hv, Option.getD_some]

end NameMap

namespace Strict

/-! ## Definitions

The passes for FIRST and FOLLOW and the lookaheads of a production ask strictly as they run. A query for one row or
one cell falls back on purpose, so there is no strict one. -/

/-- Enters a production in the row of its left-hand side, which must be there. -/
def assign (p : Production) (t : Table) (terminal : String) : Except Undeclared Table := do
  let row ← t.cells.need p.lhs
  match row.get? terminal with
  | none => return { t with cells := t.cells.set p.lhs (row.set terminal p) }
  | some q =>
    if q.id = p.id then return t
    else return { t with conflicts := t.conflicts ++ [⟨p.lhs, terminal, q.id, p.id⟩] }

def fill (first follow : Family) (t : Table) (p : Production) : Except Undeclared Table := do
  let l ← Table.lookaheads first follow p
  l.foldlM (assign p) t

def build (g : Grammar) (first follow : Family) : Except Undeclared Table :=
  g.productions.foldlM (fill first follow) (Table.blank g)

/-- An analysis on its way, with what its stages have reported so far. -/
abbrev Work := ExceptT AnalysisFailure (StateM (List Event))

/-- A stage reports when it is done. -/
def stage {α : Type} (x : Except Undeclared α) (events : α → List Event) : Work α := do
  match x with
  | .ok a =>
    modify (· ++ events a)
    return a
  | .error u => throw (.undeclared u)

def work (g : Grammar) : Work Analysis := do
  if g.defects.isEmpty then
    let first ← stage g.first fun s => [Grammar.firstEvent s.passes]
    let follow ← stage (g.follow first.value) fun s => [Grammar.followEvent s.passes]
    let table ← stage (build g first.value follow.value) Table.events
    return ⟨g, first, follow, table⟩
  else throw (.defective g.defects)

/-- The outcome of an analysis, and what its stages reported. -/
def analyze (g : Grammar) : Except AnalysisFailure Analysis × List Event := (work g).run.run []

def rowItems (nonterminal : String) (row : NameMap Production) :
    Except Undeclared (List ((String × String) × Production)) :=
  row.keys.toList.mapM fun x => do
    let p ← row.need x
    return ((nonterminal, x), p)

def items (t : Table) : Except Undeclared (List ((String × String) × Production)) := do
  let rows ← t.cells.keys.toList.mapM fun A => do
    let row ← t.cells.need A
    rowItems A row
  return rows.flatten

def gridRow (t : Table) (columns : List String) (nonterminal : String) : Except Undeclared String := do
  let row := t.row nonterminal
  let cells ← columns.mapM fun c =>
    if c ∈ row.keys then do
      let p ← row.need c
      return toString p.id
    else return "-"
  return nonterminal ++ "\t" ++ "\t".intercalate cells

def grid (t : Table) : Except Undeclared String := do
  let columns := Table.columns t.grammar
  let rows ← t.grammar.nonterminals.toList.mapM (gridRow t columns)
  return "\n".intercalate (("NT\\T\t" ++ "\t".intercalate columns) :: rows)

def setLines (label : String) (f : Family) (nonterminals : List String) : Except Undeclared (List String) :=
  nonterminals.mapM fun n => do
    let s ← f.lookup n
    return label ++ "(" ++ n ++ ") = " ++ Analysis.braces s

def report (a : Analysis) : Except Undeclared String := do
  let nonterminals := a.grammar.nonterminals.toList
  let first ← setLines "FIRST" a.first.value nonterminals
  let follow ← setLines "FOLLOW" a.follow.value nonterminals
  let grid ← grid a.table
  return "\n".intercalate
    ("FIRST sets:" :: first ++ "" :: "FOLLOW sets:" :: follow ++
      ["", "Parse table:", grid, "", "Is the grammar LL(1)? " ++ if a.isLL1 then "Yes" else "No"] ++
      a.table.conflicts.map fun c => "  conflict: " ++ c.text)

/-! ## The table under construction -/

section Build
variable {g : Grammar} {first follow : Family} {p : Production} {t : Table}

theorem assign_eq (h : p.lhs ∈ t.cells.keys) (terminal : String) :
    assign p t terminal = .ok (Table.assign p t terminal) := by
  have hrow : t.cells.need p.lhs = .ok (t.row p.lhs) := NameMap.need_eq (NameMap.get?_getD_of_mem h ∅)
  rw [assign, hrow, Table.assign, Table.get?]
  simp only [bind, Except.bind]
  cases (t.row p.lhs).get? terminal with
  | none => rfl
  | some q =>
    dsimp only
    by_cases hid : q.id = p.id
    · rw [if_pos hid, if_pos hid]
      rfl
    · rw [if_neg hid, if_neg hid]
      rfl

theorem foldlM_assign_eq (h : p.lhs ∈ t.cells.keys) (l : List String) :
    l.foldlM (assign p) t = .ok (l.foldl (Table.assign p) t) := by
  induction l generalizing t with
  | nil => rfl
  | cons x l ih =>
    rw [List.foldlM_cons, assign_eq h x, List.foldl_cons]
    exact ih (Table.keys_assign h x ▸ h)

theorem fill_eq (first : Family) (p : Production) (h : t.cells.keys = follow.keys) :
    fill first follow t p = Table.fill first follow t p := by
  rw [fill, Table.fill]
  cases hlook : Table.lookaheads first follow p with
  | error e => rfl
  | ok l => exact foldlM_assign_eq (h ▸ Table.lhs_mem_of_lookaheads hlook) l

theorem foldlM_fill_eq (first : Family) (h : t.cells.keys = follow.keys) (ps : List Production) :
    ps.foldlM (fill first follow) t = ps.foldlM (Table.fill first follow) t := by
  induction ps generalizing t with
  | nil => rfl
  | cons p ps ih =>
    rw [List.foldlM_cons, List.foldlM_cons, fill_eq first p h]
    cases hfill : Table.fill first follow t p with
    | error e => rfl
    | ok u => exact ih (Table.keys_fill h hfill)

theorem build_eq (first : Family) (h : follow.keys = g.nonterminals) :
    build g first follow = Table.build g first follow :=
  foldlM_fill_eq first (NameMap.keys_ofKeys.trans h.symm) g.productions

end Build

/-! ## Stages -/

theorem run_stage {α β : Type} {x : Except Undeclared α} {a : α} (h : x = .ok a) (events : α → List Event)
    (rest : α → Work β) (reported : List Event) :
    (stage x events >>= rest).run.run reported = (rest a).run.run (reported ++ events a) := by
  rw [h]
  rfl

theorem analyze_eq {g : Grammar} {first follow : Settled Family} {t : Table} (hg : g.defects = [])
    (hfirst : g.first = .ok first) (hfollow : g.follow first.value = .ok follow)
    (ht : build g first.value follow.value = .ok t) :
    analyze g = (.ok ⟨g, first, follow, t⟩, Analysis.stageEvents ⟨g, first, follow, t⟩) := by
  rw [analyze, work, hg, List.isEmpty_nil, if_pos rfl, run_stage hfirst, run_stage hfollow, run_stage ht]
  rfl

theorem analyze_of_defects {g : Grammar} (hg : ¬ g.defects.isEmpty = true) :
    analyze g = (.error (.defective g.defects), []) := by
  rw [analyze, work, if_neg hg]
  rfl

/-! ## Queries and report -/

theorem rowItems_eq (nonterminal : String) (row : NameMap Production) :
    rowItems nonterminal row = .ok (row.entries.map fun c => ((nonterminal, c.1), c.2)) := by
  rw [rowItems, NameMap.keys, List.mapM_map]
  refine mapM_eq_ok _ fun c hc => ?_
  rw [Function.comp_apply, NameMap.need_of_mem_entries hc]
  rfl

theorem items_eq (t : Table) : items t = .ok t.items := by
  rw [items, NameMap.keys, List.mapM_map, Table.items, List.flatMap_def]
  rw [mapM_eq_ok fun r => r.2.entries.map fun c => ((r.1, c.1), c.2)]
  · rfl
  · intro r hr
    rw [Function.comp_apply, NameMap.need_of_mem_entries hr]
    exact rowItems_eq r.1 r.2

theorem gridRow_eq (t : Table) (columns : List String) (nonterminal : String) :
    gridRow t columns nonterminal = .ok (t.gridRow columns nonterminal) := by
  rw [gridRow, mapM_eq_ok fun c => (t.get? nonterminal c).elim "-" fun p => toString p.id]
  · rfl
  · intro c _
    rw [Table.get?]
    cases hcell : (t.row nonterminal).get? c with
    | none =>
      have hc : c ∉ (t.row nonterminal).keys := by
        rw [← NameMap.get?_isSome, hcell]
        exact Bool.false_ne_true
      rw [if_neg hc]
      rfl
    | some p =>
      have hc : c ∈ (t.row nonterminal).keys := by
        rw [← NameMap.get?_isSome, hcell]
        rfl
      rw [if_pos hc, NameMap.need_eq hcell]
      rfl

theorem grid_eq (t : Table) : grid t = .ok t.grid := by
  rw [grid, mapM_eq_ok _ fun A _ => gridRow_eq t (Table.columns t.grammar) A]
  rfl

theorem setLines_eq (label : String) {f : Family} {nonterminals : List String} (h : ∀ n ∈ nonterminals, n ∈ f.keys) :
    setLines label f nonterminals = .ok (Analysis.setLines label f nonterminals) := by
  refine mapM_eq_ok _ fun n hn => ?_
  rw [Family.lookup_of_mem (h n hn)]
  rfl

theorem report_eq {a : Analysis} (hfirst : ∀ n ∈ a.grammar.nonterminals, n ∈ a.first.value.keys)
    (hfollow : ∀ n ∈ a.grammar.nonterminals, n ∈ a.follow.value.keys) : report a = .ok a.report := by
  rw [report, setLines_eq "FIRST" hfirst, setLines_eq "FOLLOW" hfollow, grid_eq]
  rfl

end Strict

/-! ## The analysis -/

namespace Grammar

/-- A grammar that satisfies what is checked of it is analysed: both sets come to rest, however many passes more
are allowed, every nonterminal has a row in the table, and neither the stages nor the listing of the table nor
the report ask for a name that is not there. Of any other grammar the defects are all that is given. -/
theorem analyze_total (g : Grammar) :
    (g.defects = [] ↔ g.start ∈ g.nonterminals ∧ (∀ s ∈ g.terminals, s ∉ g.nonterminals) ∧
      (g.productions.map Production.id).Nodup ∧ ∀ p ∈ g.productions, p.lhs ∈ g.nonterminals ∧
        (∀ s ∈ p.rhs, s ∈ g.terminals ∨ s ∈ g.nonterminals ∨ s = epsilon) ∧
          (epsilon ∈ p.rhs → p.rhs.length = 1)) ∧
    (g.defects = [] → ∃ a seed, g.analyze = .ok a ∧ Strict.analyze g = (.ok a, a.stageEvents) ∧
      (∀ n, g.firstBound ≤ n → settle g.firstPass n g.firstSeed = .ok a.first) ∧ g.followSeed = .ok seed ∧
      (∀ n, g.followBound ≤ n → settle (g.followPass a.first.value) n seed = .ok a.follow) ∧
      a.table.cells.keys = g.nonterminals ∧ Strict.items a.table = .ok a.table.items ∧
      Strict.report a = .ok a.report) ∧
    (g.defects ≠ [] → g.analyze = .error (.defective g.defects) ∧
      Strict.analyze g = (.error (.defective g.defects), [])) := by
  refine ⟨defects_eq_nil.trans wellFormed_iff, fun hg => ?_, fun hg => ?_⟩
  · have hwf := defects_eq_nil.mp hg
    obtain ⟨first, hfirst, -, -, hexact⟩ := first_settles hwf
    obtain ⟨seed, follow, hseed, hfollow, -, hexact'⟩ := follow_settles hwf hexact
    obtain ⟨t, ht, -⟩ := build_decides hwf hexact hexact'
    have hkeys : follow.value.keys = g.nonterminals := NameSet.ext_mem hexact'.keys
    have hbuild := Strict.build_eq first.value hkeys
    have hfirst' : g.first = .ok first := hfirst g.firstBound le_rfl
    have hfollow' : g.follow first.value = .ok follow := by
      rw [Grammar.follow, hseed]
      exact hfollow g.followBound le_rfl
    refine ⟨⟨g, first, follow, t⟩, seed, analyze_eq_ok hg hfirst' hfollow' ht,
      Strict.analyze_eq hg hfirst' hfollow' (hbuild.trans ht), hfirst, hseed, hfollow,
      Table.keys_build hkeys ht, Strict.items_eq t, Strict.report_eq (fun n hn => ?_) (fun n hn => ?_)⟩
    · exact (hexact.keys n).mpr (Or.inr (Or.inl hn))
    · exact (hexact'.keys n).mpr hn
  · have hdefective : ¬ g.defects.isEmpty = true := by rwa [List.isEmpty_iff]
    exact ⟨if_neg hdefective, Strict.analyze_of_defects hdefective⟩

/-- Both marks are declared here, and the empty word has a production of its own. -/
def marked : Grammar :=
  ⟨.ofList [endMarker], .ofList ["S", epsilon], [⟨1, "S", [epsilon]⟩, ⟨2, epsilon, [endMarker]⟩], "S", ∅⟩

/-- The first pass over this grammar would miss a name. -/
def stray : Grammar := .ofRules "S" [("S", ["x"])] [] []

theorem analyze_total_marked : marked.defects = [] ∧ (∃ a, marked.analyze = .ok a ∧ Strict.report a = .ok a.report) ∧
    stray.firstPass stray.firstSeed = .error ⟨"x"⟩ ∧
    stray.analyze = .error (.defective [.rightUndeclared 1 "x"]) := by
  have hmarked : marked.defects = [] := by decide
  have hstray : stray.defects = [.rightUndeclared 1 "x"] := by decide
  obtain ⟨a, -, ha, -, -, -, -, -, -, hreport⟩ := (analyze_total marked).2.1 hmarked
  refine ⟨hmarked, ⟨a, ha, hreport⟩, by decide, ?_⟩
  have hfail := ((analyze_total stray).2.2 (by rw [hstray]; exact List.cons_ne_nil _ _)).1
  rwa [hstray] at hfail

end Grammar
end Lookahead
