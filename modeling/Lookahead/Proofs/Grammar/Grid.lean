import Lookahead.Proofs.Grammar.Analysis
import Lookahead.Proofs.Text.Sheet
import Mathlib

/-! The grid of a table shows all of it. The lookaheads of a production are terminals or the end marker, and each of
these has a column of its own: no cell is left out, none is shown twice, and the text of the grid gives the cells
back. -/
namespace Lookahead

/-! ## Entries of a map -/

namespace NameMap
variable {α : Type} {m : NameMap α} {k : String} {v : α}

theorem mem_entries : (k, v) ∈ m.entries ↔ m.get? k = some v := (find_eq_some m.sorted).symm

theorem size_keys (m : NameMap α) : m.keys.size = m.size := List.length_map _

end NameMap

namespace Table

/-! ## Columns -/

theorem mem_columns {g : Grammar} {x : String} : x ∈ columns g ↔ (x ∈ g.terminals ∧ x ≠ epsilon) ∨ x = endMarker := by
  have hterminal : x ∈ (g.terminals.erase epsilon).toList ↔ x ∈ g.terminals ∧ x ≠ epsilon := by
    rw [NameSet.mem_toList, NameSet.mem_erase, and_comm]
  unfold columns
  dsimp only
  split
  · rename_i hmark
    rw [hterminal, or_iff_left_of_imp]
    intro hx
    exact hterminal.mp (hx ▸ hmark)
  · rw [List.mem_append, hterminal, List.mem_singleton]

theorem nodup_columns (g : Grammar) : (columns g).Nodup := by
  have hterminals := (g.terminals.erase epsilon).nodup
  unfold columns
  dsimp only
  split
  · exact hterminals
  · rename_i hmark
    apply List.nodup_append.mpr
    refine ⟨hterminals, List.nodup_singleton _, ?_⟩
    intro x hx y hy hxy
    rw [List.mem_singleton] at hy
    exact hmark (hy ▸ hxy ▸ hx)

/-! ## Items -/

section Items
variable {t : Table} {A x : String} {p : Production}

theorem get?_eq_some_iff_row : t.get? A x = some p ↔ ∃ r, t.cells.get? A = some r ∧ r.get? x = some p := by
  rw [get?, row]
  cases t.cells.get? A with
  | none =>
    constructor
    · intro h
      cases h
    · rintro ⟨r, hr, -⟩
      cases hr
  | some r => simp

theorem mem_keys_of_get? (h : t.get? A x = some p) : A ∈ t.cells.keys := by
  obtain ⟨r, hr, -⟩ := get?_eq_some_iff_row.mp h
  rw [← NameMap.get?_isSome, hr]
  rfl

theorem mem_items : ((A, x), p) ∈ t.items ↔ t.get? A x = some p := by
  rw [items, List.mem_flatMap, get?_eq_some_iff_row]
  constructor
  · rintro ⟨⟨B, r⟩, hr, hcell⟩
    obtain ⟨⟨y, q⟩, hq, heq⟩ := List.mem_map.mp hcell
    cases heq
    exact ⟨r, NameMap.mem_entries.mp hr, NameMap.mem_entries.mp hq⟩
  · rintro ⟨r, hr, hp⟩
    exact ⟨(A, r), NameMap.mem_entries.mpr hr, List.mem_map.mpr ⟨(x, p), NameMap.mem_entries.mpr hp, rfl⟩⟩

/-- The rows have different names, and within a row the lookaheads are different. -/
theorem nodup_items (t : Table) : (t.items.map (·.1)).Nodup := by
  have hitems : t.items.map (·.1) = t.cells.entries.flatMap fun r => r.2.keys.toList.map fun x => (r.1, x) := by
    simp [items, List.map_flatMap, NameMap.keys, Function.comp_def]
  rw [hitems, List.nodup_flatMap]
  constructor
  · intro r _
    exact r.2.keys.nodup.map (Prod.mk_right_injective r.1)
  · apply t.cells.sorted.imp
    intro r s hrs cell hr hs
    obtain ⟨x, -, rfl⟩ := List.mem_map.mp hr
    obtain ⟨y, -, heq⟩ := List.mem_map.mp hs
    have hnames : s.1 = r.1 := (Prod.mk.inj heq).1
    exact String.lt_irrefl r.1 (hnames ▸ hrs)

theorem size_eq (t : Table) : t.size = (t.cells.keys.toList.map fun A => (t.row A).size).sum := by
  have hrow : t.cells.entries.map ((fun A => (t.row A).size) ∘ (·.1)) = t.cells.entries.map fun r => r.2.size := by
    apply List.map_congr_left
    intro r hr
    rw [Function.comp_apply, row, NameMap.mem_entries.mp hr]
    rfl
  rw [NameMap.keys, List.map_map, hrow, List.sum_eq_foldr, List.foldr_map]
  rfl

end Items

/-! ## Entries of the grid -/

def entry (t : Table) (A x : String) : String := (t.get? A x).elim "-" fun p => toString p.id

def sheet (t : Table) : Sheet :=
  ⟨columns t.grammar, t.grammar.nonterminals.toList.map fun A => (A, (columns t.grammar).map (t.entry A))⟩

theorem grid_eq_text (t : Table) : t.grid = t.sheet.text "NT\\T" := by
  have hcolumns : columns t.grammar ≠ [] := List.ne_nil_of_mem (mem_columns.mpr (Or.inr rfl))
  have hheader : Sheet.line ("NT\\T" :: columns t.grammar) = "NT\\T\t" ++ "\t".intercalate (columns t.grammar) := by
    rw [Sheet.line_cons "NT\\T" hcolumns]
    rfl
  have hrow : ∀ A, Sheet.line (A :: (columns t.grammar).map (t.entry A)) = t.gridRow (columns t.grammar) A := by
    intro A
    have hentries : (columns t.grammar).map (t.entry A) ≠ [] := by simpa using hcolumns
    exact Sheet.line_cons A hentries
  rw [grid, Sheet.text, sheet, hheader, List.map_map]
  congr 3
  funext A
  exact (hrow A).symm

section Sheet
variable {t : Table} {A x : String} {p : Production}

theorem regular_sheet (t : Table) : t.sheet.Regular := by
  intro r hr
  obtain ⟨A, -, rfl⟩ := List.mem_map.mp hr
  refine ⟨List.length_map _, ?_⟩
  intro e he
  obtain ⟨x, -, rfl⟩ := List.mem_map.mp he
  unfold entry
  cases t.get? A x with
  | none => exact Sheet.plain_dash
  | some p => exact Sheet.plain_toString p.id

theorem shows_sheet {e : String} : t.sheet.Shows A x e ↔
    A ∈ t.grammar.nonterminals ∧ x ∈ columns t.grammar ∧ e = t.entry A x := by
  have hzip : (x, e) ∈ (columns t.grammar).zip ((columns t.grammar).map (t.entry A)) ↔
      x ∈ columns t.grammar ∧ e = t.entry A x := by
    rw [← List.map_prod_left_eq_zip, List.mem_map]
    constructor
    · rintro ⟨y, hy, heq⟩
      cases heq
      exact ⟨hy, rfl⟩
    · rintro ⟨hx, rfl⟩
      exact ⟨x, hx, rfl⟩
  constructor
  · rintro ⟨entries, hrow, he⟩
    obtain ⟨B, hB, heq⟩ := List.mem_map.mp hrow
    cases heq
    exact ⟨hB, hzip.mp he⟩
  · rintro ⟨hA, he⟩
    exact ⟨_, List.mem_map.mpr ⟨A, hA, rfl⟩, hzip.mpr he⟩

theorem entry_eq_dash : t.entry A x = "-" ↔ x ∉ (t.row A).keys := by
  rw [← NameMap.get?_isSome, entry, get?]
  cases (t.row A).get? x with
  | none => simp
  | some p => simpa using Sheet.toString_ne_dash p.id

end Sheet

/-! ## Tables that fit a grammar -/

/-- The rows are those of the nonterminals, and a cell with a production is in one of the columns. -/
structure Fits (g : Grammar) (t : Table) : Prop where
  grammar_eq : t.grammar = g
  keys_eq : t.cells.keys = g.nonterminals
  cell : ∀ A x p, t.get? A x = some p → p ∈ g.productions ∧ x ∈ columns g

section Fits
variable {g : Grammar} {t u : Table} {A x : String} {p : Production}

/-- The number in an entry tells which production the cell has. -/
theorem Fits.get?_eq_some_iff (h : t.Fits g) (hids : (g.productions.map Production.id).Nodup) :
    t.get? A x = some p ↔ p ∈ g.productions ∧ t.sheet.Shows A x (toString p.id) := by
  rw [shows_sheet, h.grammar_eq]
  constructor
  · intro hp
    obtain ⟨hmem, hx⟩ := h.cell A x p hp
    have hentry : t.entry A x = toString p.id := by rw [entry, hp, Option.elim_some]
    exact ⟨hmem, h.keys_eq ▸ mem_keys_of_get? hp, hx, hentry.symm⟩
  · rintro ⟨hmem, -, -, hentry⟩
    cases hq : t.get? A x with
    | none =>
      rw [entry, hq, Option.elim_none] at hentry
      exact absurd hentry (Sheet.toString_ne_dash p.id)
    | some q =>
      rw [entry, hq, Option.elim_some] at hentry
      have hid : p.id = q.id := Int.repr_inj.mp hentry
      rw [List.inj_on_of_nodup_map hids hmem (h.cell A x q hq).1 hid]

/-- A row has no lookahead outside the columns, so the numbers in its entries are all of it. -/
theorem Fits.row_filled (h : t.Fits g) (A : String) :
    ((columns g).map (t.entry A)).countP (· != "-") = (t.row A).size := by
  have hmem : ∀ x, x ∈ (columns g).filter (fun x => x ∈ (t.row A).keys) ↔ x ∈ (t.row A).keys.toList := by
    intro x
    rw [List.mem_filter, decide_eq_true_eq, NameSet.mem_toList]
    refine ⟨(·.2), fun hx => ⟨?_, hx⟩⟩
    obtain ⟨p, hp⟩ := Option.isSome_iff_exists.mp (NameMap.get?_isSome.mpr hx)
    exact (h.cell A x p hp).2
  have hperm : ((columns g).filter fun x => x ∈ (t.row A).keys).Perm (t.row A).keys.toList :=
    (List.perm_ext_iff_of_nodup ((nodup_columns g).filter _) (t.row A).keys.nodup).mpr hmem
  have hentry : (· != "-") ∘ t.entry A = fun x => decide (x ∈ (t.row A).keys) := by
    funext x
    rw [Bool.eq_iff_iff, Function.comp_apply, bne_iff_ne, decide_eq_true_eq, ne_eq, entry_eq_dash, not_not]
  rw [List.countP_map, hentry, List.countP_eq_length_filter, hperm.length_eq]
  exact NameMap.size_keys _

theorem Fits.filled_eq_size (h : t.Fits g) : t.sheet.filled = t.size := by
  rw [size_eq, h.keys_eq, Sheet.filled, sheet, h.grammar_eq, List.flatMap_map, List.countP_flatMap]
  exact congrArg List.sum (List.map_congr_left fun A _ => h.row_filled A)

/-- Among the tables of a grammar there is one for each grid. -/
theorem Fits.cells_eq_of_grid_eq (ht : t.Fits g) (hu : u.Fits g) (hids : (g.productions.map Production.id).Nodup)
    (h : u.grid = t.grid) : u.cells = t.cells := by
  have hsheet : u.sheet = t.sheet := by
    rw [grid_eq_text, grid_eq_text] at h
    refine Sheet.eq_of_text_eq (regular_sheet u) (regular_sheet t) ?_ ?_ h
    · rw [sheet, sheet, hu.grammar_eq, ht.grammar_eq]
    · rw [sheet, sheet, hu.grammar_eq, ht.grammar_eq, List.map_map, List.map_map]
      rfl
  have hget : ∀ A x, u.get? A x = t.get? A x := by
    intro A x
    apply Option.ext
    intro p
    rw [hu.get?_eq_some_iff hids, ht.get?_eq_some_iff hids, hsheet]
  exact NameMap.ext_getD ∅ (hu.keys_eq.trans ht.keys_eq.symm) fun A => NameMap.ext_get? (hget A)

end Fits
end Table

/-! ## The table of a grammar -/

namespace Grammar
variable {g : Grammar} {first follow : Family}

theorem build_fits (hg : g.WellFormed) (hfirst : g.FirstExact first) (hfollow : g.FollowExact follow) :
    ∃ t, Table.build g first follow = .ok t ∧ t.Fits g := by
  obtain ⟨look, t, ht, hgrammar, hfilled, hlook⟩ := build_predicts hg hfirst hfollow
  refine ⟨t, ht, hgrammar, Table.keys_build (NameSet.ext_mem hfollow.keys) ht, ?_⟩
  intro A x p hp
  rw [hfilled.get?_eq] at hp
  have hmem := List.mem_of_find?_eq_some hp
  have hcell := List.find?_some hp
  rw [decide_eq_true_eq] at hcell
  have hpredicts : g.Predicts p x := (hlook p hmem x).mp hcell.2
  refine ⟨hmem, Table.mem_columns.mpr ?_⟩
  rcases hpredicts.mem_terminals with hmark | hx
  · exact Or.inr hmark
  · exact Or.inl ⟨hx, hpredicts.ne_epsilon⟩

/-- The grid of a grammar without defects is a sheet with a row for each nonterminal and a column for each terminal
but the empty word and for the end marker, none of them twice. A cell has a production if and only if the number of
the production stands in its row and column; so there are as many numbers in the grid as cells in the table, and
these are the items, each of them listed once. No other table of the grammar has this grid. -/
theorem grid_shows_cells (hg : g.defects = []) : ∃ (a : Analysis) (s : Sheet), g.analyze = .ok a ∧
    a.table.grid = s.text "NT\\T" ∧
    s.columns.Nodup ∧ (∀ x, x ∈ s.columns ↔ (x ∈ g.terminals ∧ x ≠ epsilon) ∨ x = endMarker) ∧
    s.rows.map (·.1) = g.nonterminals.toList ∧ (∀ r ∈ s.rows, r.2.length = s.columns.length) ∧
    (∀ A x p, a.table.get? A x = some p ↔ p ∈ g.productions ∧ s.Shows A x (toString p.id)) ∧
    s.filled = a.table.size ∧
    (a.table.items.map (·.1)).Nodup ∧ (∀ A x p, ((A, x), p) ∈ a.table.items ↔ a.table.get? A x = some p) ∧
    ∀ u : Table, u.Fits g → u.grid = a.table.grid → u.cells = a.table.cells := by
  have hwf := defects_eq_nil.mp hg
  obtain ⟨a, ha, hfits⟩ := analyze_of_build hg fun _ _ hfirst hfollow => build_fits hwf hfirst hfollow
  have hcolumns : a.table.sheet.columns = Table.columns g := by rw [Table.sheet, hfits.grammar_eq]
  have hrows : a.table.sheet.rows.map (·.1) = g.nonterminals.toList := by
    rw [Table.sheet, hfits.grammar_eq, List.map_map]
    exact List.map_id _
  refine ⟨a, a.table.sheet, ha, a.table.grid_eq_text, ?_, ?_, hrows, ?_, ?_, hfits.filled_eq_size,
    a.table.nodup_items, fun A x p => Table.mem_items, ?_⟩
  · rw [hcolumns]
    exact Table.nodup_columns g
  · intro x
    rw [hcolumns, Table.mem_columns]
  · intro r hr
    exact (a.table.regular_sheet r hr).1
  · intro A x p
    exact hfits.get?_eq_some_iff hwf.ids_nodup
  · intro u hu h
    exact hfits.cells_eq_of_grid_eq hu hwf.ids_nodup h

/-- Both marks are declared here, one number is negative, and two productions meet in a cell. -/
def signed : Grammar :=
  ⟨.ofList [endMarker, "a"], .ofList ["S", epsilon],
    [⟨-2, "S", ["a"]⟩, ⟨1, "S", ["a", endMarker]⟩, ⟨3, epsilon, [endMarker]⟩], "S", ∅⟩

theorem grid_shows_cells_signed : signed.defects = [] ∧ ∃ (a : Analysis) (s : Sheet), signed.analyze = .ok a ∧
    s.text "NT\\T" = "NT\\T\t$\ta\nS\t-\t-2\nε\t3\t-" ∧ a.table.conflicts = [⟨"S", "a", -2, 1⟩] ∧
      s.Shows "S" "a" "-2" ∧ s.Shows epsilon endMarker "3" ∧ s.filled = 2 := by
  have hg : signed.defects = [] := by decide +kernel
  have hcomputed : (signed.analyze.toOption.map fun a => (a.table.grid, a.table.conflicts, a.table.size,
      a.table.get? "S" "a", a.table.get? epsilon endMarker)) =
      some ("NT\\T\t$\ta\nS\t-\t-2\nε\t3\t-", [⟨"S", "a", -2, 1⟩], 2, some ⟨-2, "S", ["a"]⟩,
        some ⟨3, epsilon, [endMarker]⟩) := by
    decide +kernel
  obtain ⟨a, s, ha, htext, -, -, -, -, hcell, hfilled, -⟩ := grid_shows_cells hg
  rw [ha] at hcomputed
  simp only [Except.toOption, Option.map_some, Option.some.injEq, Prod.mk.injEq] at hcomputed
  obtain ⟨hgrid, hconflicts, hsize, hS, hε⟩ := hcomputed
  exact ⟨hg, a, s, ha, htext.symm.trans hgrid, hconflicts, ((hcell _ _ _).mp hS).2, ((hcell _ _ _).mp hε).2,
    hfilled.trans hsize⟩

end Grammar
end Lookahead
