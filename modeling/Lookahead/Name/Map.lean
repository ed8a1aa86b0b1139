import Lookahead.Name.Set

/-! Finite maps from names, listed in order of their keys. Assigning to a key that is present
replaces its value, so a map is listed in one way only. -/
namespace Lookahead

structure NameMap (α : Type) where
  entries : List (String × α)
  sorted : entries.Pairwise fun e f => e.1 < f.1
deriving DecidableEq

namespace NameMap

variable {α : Type}

instance : EmptyCollection (NameMap α) := ⟨⟨[], .nil⟩⟩

def find (k : String) : List (String × α) → Option α
  | [] => none
  | e :: l => if k = e.1 then some e.2 else find k l

def get? (m : NameMap α) (k : String) : Option α := find k m.entries

def size (m : NameMap α) : Nat := m.entries.length

def keys (m : NameMap α) : NameSet :=
  ⟨m.entries.map (·.1), List.pairwise_map.2 m.sorted⟩

theorem find_isSome {k : String} {l : List (String × α)} :
    (find k l).isSome ↔ k ∈ l.map (·.1) := by
  induction l with
  | nil => simp [find]
  | cons e l ih => grind [find]

theorem get?_isSome {m : NameMap α} {k : String} : (m.get? k).isSome ↔ k ∈ m.keys := find_isSome

/-! ## Assignment -/

def place (k : String) (v : α) : List (String × α) → List (String × α)
  | [] => [(k, v)]
  | e :: l => if k = e.1 then (k, v) :: l else if k < e.1 then (k, v) :: e :: l else e :: place k v l

theorem mem_place_key {k c : String} {v : α} {l : List (String × α)} :
    c ∈ (place k v l).map (·.1) ↔ c = k ∨ c ∈ l.map (·.1) := by
  induction l with
  | nil => simp [place]
  | cons e l ih => grind [place]

theorem pairwise_place {k : String} {v : α} {l : List (String × α)}
    (h : l.Pairwise fun e f => e.1 < f.1) : (place k v l).Pairwise fun e f => e.1 < f.1 := by
  induction l with
  | nil => simp [place]
  | cons e l ih =>
    obtain ⟨he, hl⟩ := List.pairwise_cons.1 h
    by_cases hk : k = e.1
    · rw [place, if_pos hk]
      exact List.pairwise_cons.2 ⟨fun f hf => hk ▸ he f hf, hl⟩
    · rw [place, if_neg hk]
      by_cases hlt : k < e.1
      · rw [if_pos hlt]
        refine List.pairwise_cons.2 ⟨fun f hf => ?_, h⟩
        rcases List.mem_cons.1 hf with rfl | hf
        · exact hlt
        · exact String.lt_trans hlt (he f hf)
      · rw [if_neg hlt]
        refine List.pairwise_cons.2 ⟨fun f hf => ?_, ih hl⟩
        rcases mem_place_key.1 (List.mem_map_of_mem (f := (·.1)) hf) with e' | hf'
        · exact e' ▸ lt_of_not_lt_of_ne hlt hk
        · obtain ⟨g, hg, e'⟩ := List.mem_map.1 hf'
          exact e' ▸ he g hg

def set (m : NameMap α) (k : String) (v : α) : NameMap α :=
  ⟨place k v m.entries, pairwise_place m.sorted⟩

theorem find_place {k c : String} {v : α} {l : List (String × α)} :
    find c (place k v l) = if c = k then some v else find c l := by
  induction l with
  | nil => rfl
  | cons e l ih => grind [place, find]

@[simp] theorem get?_set {m : NameMap α} {k c : String} {v : α} :
    (m.set k v).get? c = if c = k then some v else m.get? c := find_place

@[simp] theorem keys_set {m : NameMap α} {k : String} {v : α} : (m.set k v).keys = m.keys.insert k :=
  NameSet.ext_mem fun a => by
    rw [NameSet.mem_insert]
    exact mem_place_key

/-! ## A map on given keys -/

/-- The map that gives each key of a set its value under `f`. -/
def ofKeys (s : NameSet) (f : String → α) : NameMap α :=
  ⟨s.toList.map fun k => (k, f k), List.pairwise_map.2 s.sorted⟩

@[simp] theorem get?_ofKeys {s : NameSet} {f : String → α} {k : String} :
    (ofKeys s f).get? k = if k ∈ s then some (f k) else none := by
  have h : ∀ l : List String, find k (l.map fun k => (k, f k)) = if k ∈ l then some (f k) else none := by
    intro l
    induction l with
    | nil => rfl
    | cons a l ih => grind [find]
  exact h s.toList

@[simp] theorem keys_ofKeys {s : NameSet} {f : String → α} : (ofKeys s f).keys = s := by
  simp [ofKeys, keys, Function.comp_def]

end NameMap
end Lookahead
