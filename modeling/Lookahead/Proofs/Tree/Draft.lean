import Lookahead.Tree.Draft
import Mathlib.Data.List.Forall2
import Mathlib.Data.List.Nodup

/-! Trees under construction. A stack of distinct nodes that nothing is known of stands for the symbols of these
nodes. Filling the node on top changes no other node, so the tree under a node is settled once the nodes below it
are. -/
namespace Lookahead
namespace Draft
variable {d e : Draft} {cells : Array Cell} {s : String} {l symbols : List String} {i k : ℕ} {places : List ℕ}
  {t : Tree} {F : List Tree}

/-! ## Reading -/

/-- The tree under a node, whatever bound is large enough. A node comes before its children, so that the number of
the nodes after it is a bound. -/
def Shows (cells : Array Cell) (i : ℕ) (t : Tree) : Prop := ∀ n, cells.size ≤ n + i → treeAt cells n i = some t

theorem mapM_treeAt {n : ℕ} (h : List.Forall₂ (Shows cells) places F) (hn : ∀ k ∈ places, cells.size ≤ n + k) :
    places.mapM (treeAt cells n) = some F := by
  induction h with
  | nil => rfl
  | cons hshows _ ih =>
    rw [List.forall_mem_cons] at hn
    rw [List.mapM_cons, hshows n hn.1, ih hn.2]
    rfl

theorem shows_node {p : Option Int} {x : Option Token} (hcell : cells[i]? = some ⟨s, p, x, places⟩)
    (hplaces : ∀ k ∈ places, i < k) (h : List.Forall₂ (Shows cells) places F) : Shows cells i (.node s p x F) := by
  intro n hn
  obtain ⟨hi, -⟩ := Array.getElem?_eq_some_iff.mp hcell
  obtain ⟨m, rfl⟩ : ∃ m, n = m + 1 := ⟨n - 1, by omega⟩
  have hbelow : places.mapM (treeAt cells m) = some F := by
    refine mapM_treeAt h fun k hk => ?_
    have := hplaces k hk
    omega
  rw [treeAt, hcell]
  simp only [bind, Option.bind, hbelow]
  rfl

theorem shows_fresh (h : cells[i]? = some (.fresh s)) : Shows cells i (.bare s) :=
  shows_node h (fun _ hk => absurd hk List.not_mem_nil) .nil

/-! ## Filling the node on top -/

/-- The nodes on the stack, over the bottom, are distinct and untouched, and have these symbols. -/
structure Stands (d : Draft) (symbols : List String) (places : List ℕ) : Prop where
  nodes_eq : d.nodes = places.map some ++ [none]
  fresh : List.Forall₂ (fun s i => d.cells[i]? = some (.fresh s)) symbols places
  nodup : places.Nodup

theorem stands_start (s : String) : (start s).Stands [s] [0] := ⟨rfl, .cons rfl .nil, List.nodup_singleton 0⟩

theorem Stands.lt_size (h : d.Stands symbols places) (hk : k ∈ places) : k < d.cells.size := by
  obtain ⟨-, hfresh, -⟩ := h
  induction hfresh with
  | nil => exact absurd hk List.not_mem_nil
  | cons hcell _ ih =>
    rcases List.mem_cons.mp hk with rfl | hk
    · exact (Array.getElem?_eq_some_iff.mp hcell).1
    · exact ih hk

/-- The nodes made before are as they were, but for those on the stack. -/
def Keeps (d : Draft) (places : List ℕ) (cells : Array Cell) : Prop :=
  d.cells.size ≤ cells.size ∧ ∀ k < d.cells.size, k ∉ places → cells[k]? = d.cells[k]?

theorem Keeps.refl (d : Draft) (places : List ℕ) : d.Keeps places d.cells := ⟨Nat.le_refl _, fun _ _ _ => rfl⟩

theorem pop_eq {n : Option ℕ} {nodes : List (Option ℕ)} (h : d.nodes = n :: nodes) :
    d.pop = some (n, ⟨d.cells, nodes⟩) := by
  rw [pop, h]

theorem fill_eq {nodes : List (Option ℕ)} {f : Cell → Cell} (h : i < cells.size) :
    fill ⟨cells, nodes⟩ (some i) f = some ⟨cells.modify i f, nodes⟩ := if_pos h

theorem getElem?_modify_self {f : Cell → Cell} {c : Cell} (h : cells[i]? = some c) :
    (cells.modify i f)[i]? = some (f c) := by
  rw [Array.getElem?_modify, if_pos rfl, h, Option.map_some]

theorem getElem?_modify_ne {f : Cell → Cell} (h : k ≠ i) : (cells.modify i f)[k]? = cells[k]? := by
  rw [Array.getElem?_modify, if_neg (Ne.symm h)]

theorem forall₂_fresh_append (cells : Array Cell) (l : List String) :
    List.Forall₂ (fun s k => (cells ++ (l.map Cell.fresh).toArray)[k]? = some (.fresh s)) l (List.range' cells.size l.length) := by
  rw [List.forall₂_iff_get]
  refine ⟨List.length_range'.symm, fun j hj _ => ?_⟩
  simp [hj]

theorem forall₂_fresh_of_keeps {cells' : Array Cell} (hkeep : ∀ k ∈ places, cells'[k]? = cells[k]?)
    (h : List.Forall₂ (fun s k => cells[k]? = some (.fresh s)) symbols places) :
    List.Forall₂ (fun s k => cells'[k]? = some (.fresh s)) symbols places := by
  induction h with
  | nil => exact .nil
  | cons hcell _ ih =>
    rw [List.forall_mem_cons] at hkeep
    exact .cons (hkeep.1.trans hcell) (ih hkeep.2)

/-- What the node on top has under it once it is expanded stands on the stack in its place. -/
theorem Stands.expand (h : d.Stands (s :: symbols) (i :: places)) (p : Int) (l : List String) :
    ∃ e, d.expand p (l.map Cell.fresh) = some e ∧
      e.Stands (l ++ symbols) (List.range' d.cells.size l.length ++ places) ∧
      e.cells[i]? = some ⟨s, some p, none, List.range' d.cells.size l.length⟩ ∧ d.Keeps [i] e.cells := by
  have hi := h.lt_size List.mem_cons_self
  have hlt : ∀ k ∈ places, k < d.cells.size := fun k hk => h.lt_size (List.mem_cons_of_mem i hk)
  obtain ⟨hnodes, hfresh, hnodup⟩ := h
  obtain ⟨hcell, hfresh⟩ := List.forall₂_cons.mp hfresh
  obtain ⟨hnew, hnodup⟩ := List.nodup_cons.mp hnodup
  let below := List.range' d.cells.size l.length
  let filled := d.cells.modify i fun c => { c with production := some p, children := below }
  have hsize : filled.size = d.cells.size := Array.size_modify
  have hkeep : ∀ k < d.cells.size, k ≠ i → (filled ++ (l.map Cell.fresh).toArray)[k]? = d.cells[k]? := by
    intro k hk hne
    rw [Array.getElem?_append_left (hsize.symm ▸ hk), getElem?_modify_ne hne]
  refine ⟨⟨filled ++ (l.map Cell.fresh).toArray, (below ++ places).map some ++ [none]⟩, ?_, ⟨rfl, ?_, ?_⟩, ?_, ?_, ?_⟩
  · simp [Draft.expand, pop_eq hnodes, fill_eq hi, push, filled, below]
  · refine List.rel_append ?_ (forall₂_fresh_of_keeps (fun k hk => ?_) hfresh)
    · have hbody := forall₂_fresh_append filled l
      rwa [hsize] at hbody
    · exact hkeep k (hlt k hk) fun h => hnew (h ▸ hk)
  · refine List.nodup_append'.mpr ⟨List.nodup_range', hnodup, fun k hk hk' => ?_⟩
    have hold := hlt k hk'
    have hmade := List.mem_range'_1.mp hk
    omega
  · rw [Array.getElem?_append_left (hsize.symm ▸ hi), getElem?_modify_self hcell]
    rfl
  · rw [Array.size_append, hsize]
    exact Nat.le_add_right _ _
  · intro k hk hne
    exact hkeep k hk fun h => hne (List.mem_singleton.mpr h)

theorem Stands.matched (h : d.Stands (s :: symbols) (i :: places)) (x : Token) :
    ∃ e, d.matched x = some e ∧ e.Stands symbols places ∧ e.cells[i]? = some ⟨s, none, some x, []⟩ ∧
      d.Keeps [i] e.cells := by
  have hi := h.lt_size List.mem_cons_self
  obtain ⟨hnodes, hfresh, hnodup⟩ := h
  obtain ⟨hcell, hfresh⟩ := List.forall₂_cons.mp hfresh
  obtain ⟨hnew, hnodup⟩ := List.nodup_cons.mp hnodup
  let filled := d.cells.modify i fun c => { c with token := some x }
  refine ⟨⟨filled, places.map some ++ [none]⟩, ?_, ⟨rfl, ?_, hnodup⟩, getElem?_modify_self hcell, ?_, ?_⟩
  · simp [Draft.matched, pop_eq hnodes, fill_eq hi, filled]
  · exact forall₂_fresh_of_keeps (fun k hk => getElem?_modify_ne fun h => hnew (h ▸ hk)) hfresh
  · exact Nat.le_of_eq Array.size_modify.symm
  · intro k _ hne
    exact getElem?_modify_ne fun h => hne (List.mem_singleton.mpr h)

/-! ## Completion

What the later nodes come to be settles what the earlier ones are. -/

theorem Keeps.trans {places' : List ℕ} (h : d.Keeps [i] e.cells) (h' : e.Keeps places' cells)
    (hold : ∀ k ∈ places', k < d.cells.size → k ∈ places) : d.Keeps (i :: places) cells := by
  refine ⟨Nat.le_trans h.1 h'.1, fun k hk hne => ?_⟩
  obtain ⟨hi, hplaces⟩ := not_or.mp (mt List.mem_cons.mpr hne)
  have hlater := h'.2 k (Nat.lt_of_lt_of_le hk h.1) fun hk' => hplaces (hold k hk' hk)
  exact hlater.trans (h.2 k hk fun hk' => hi (List.mem_singleton.mp hk'))

/-- If the nodes on the stack `places'` come to show a forest, those on the stack `places` come to show what `grow`
makes of it. -/
def Completes (grow : List Tree → List Tree) (d : Draft) (places : List ℕ) (e : Draft) (places' : List ℕ) : Prop :=
  ∀ cells F, e.Keeps places' cells → List.Forall₂ (Shows cells) places' F →
    d.Keeps places cells ∧ List.Forall₂ (Shows cells) places (grow F)

theorem Stands.completes_expand (h : d.Stands (s :: symbols) (i :: places)) (p : Int) (l : List String) :
    ∃ e places', d.expand p (l.map Cell.fresh) = some e ∧ e.Stands (l ++ symbols) places' ∧
      Completes (fun F => .node s (some p) none (F.take l.length) :: F.drop l.length) d (i :: places) e places' := by
  have hi := h.lt_size List.mem_cons_self
  obtain ⟨hnew, -⟩ := List.nodup_cons.mp h.nodup
  obtain ⟨e, hexpand, hstands, hcell, hkeeps⟩ := h.expand p l
  have hmade : ∀ k ∈ List.range' d.cells.size l.length, i < k := fun k hk =>
    Nat.lt_of_lt_of_le hi (List.mem_range'_1.mp hk).1
  refine ⟨e, _, hexpand, hstands, fun cells F hlater hF => ⟨hkeeps.trans hlater fun k hk hlt => ?_, ?_⟩⟩
  · refine (List.mem_append.mp hk).resolve_left fun hk => ?_
    exact absurd (List.mem_range'_1.mp hk).1 (Nat.not_le_of_lt hlt)
  · have hnode : cells[i]? = some ⟨s, some p, none, List.range' d.cells.size l.length⟩ := by
      rw [hlater.2 i (Nat.lt_of_lt_of_le hi hkeeps.1), hcell]
      exact fun hk => (List.mem_append.mp hk).elim (fun hk => Nat.lt_irrefl i (hmade i hk)) hnew
    have hsplit := List.forall₂_take_append F _ _ hF.flip
    have hrest := List.forall₂_drop_append F _ _ hF.flip
    rw [List.length_range'] at hsplit hrest
    exact .cons (shows_node hnode hmade hsplit.flip) hrest.flip

theorem Stands.completes_matched (h : d.Stands (s :: symbols) (i :: places)) (x : Token) :
    ∃ e, d.matched x = some e ∧ e.Stands symbols places ∧ Completes (.leaf s x :: ·) d (i :: places) e places := by
  have hi := h.lt_size List.mem_cons_self
  obtain ⟨hnew, -⟩ := List.nodup_cons.mp h.nodup
  obtain ⟨e, hmatched, hstands, hcell, hkeeps⟩ := h.matched x
  refine ⟨e, hmatched, hstands, fun cells F hlater hF => ⟨hkeeps.trans hlater fun k hk _ => hk, ?_⟩⟩
  have hnode : cells[i]? = some ⟨s, none, some x, []⟩ := by
    rw [hlater.2 i (Nat.lt_of_lt_of_le hi hkeeps.1) hnew, hcell]
  exact .cons (shows_node hnode (fun _ hk => absurd hk List.not_mem_nil) .nil) hF

theorem Stands.shows_bare (h : d.Stands symbols places) : List.Forall₂ (Shows d.cells) places (symbols.map .bare) := by
  obtain ⟨-, hfresh, -⟩ := h
  induction hfresh with
  | nil => exact .nil
  | cons hcell _ ih => exact .cons (shows_fresh hcell) ih

end Draft
end Lookahead
