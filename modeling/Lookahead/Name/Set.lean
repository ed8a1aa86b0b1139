/-! Finite sets of names, kept in order of code points and without repetition, so that equal sets are
equal lists and a set is listed in one way only. -/
namespace Lookahead

structure NameSet where
  toList : List String
  sorted : toList.Pairwise (· < ·)
deriving DecidableEq

theorem lt_of_not_lt_of_ne {a b : String} (h : ¬ a < b) (hne : a ≠ b) : b < a := by
  by_cases h' : b < a
  · exact h'
  · exact absurd (Std.Trichotomous.trichotomous (r := fun x y : String => x < y) a b h h') hne

namespace NameSet

instance : Membership String NameSet := ⟨fun s a => a ∈ s.toList⟩

instance (a : String) (s : NameSet) : Decidable (a ∈ s) := inferInstanceAs (Decidable (a ∈ s.toList))

@[simp] theorem mem_toList {a : String} {s : NameSet} : a ∈ s.toList ↔ a ∈ s := Iff.rfl

theorem nodup (s : NameSet) : s.toList.Nodup :=
  s.sorted.imp fun {a b} (h : a < b) (e : a = b) => String.lt_irrefl b (e ▸ h)

def size (s : NameSet) : Nat := s.toList.length

instance : EmptyCollection NameSet := ⟨⟨[], .nil⟩⟩

@[simp] theorem not_mem_empty (a : String) : a ∉ (∅ : NameSet) := List.not_mem_nil

/-! ## Insertion -/

/-- Puts a name at its place in a sorted list, unless it is there already. -/
def place (a : String) : List String → List String
  | [] => [a]
  | b :: l => if a = b then b :: l else if a < b then a :: b :: l else b :: place a l

theorem mem_place {a c : String} {l : List String} : c ∈ place a l ↔ c = a ∨ c ∈ l := by
  induction l with
  | nil => simp [place]
  | cons b l ih => grind [place]

theorem pairwise_place {a : String} {l : List String} (h : l.Pairwise (· < ·)) :
    (place a l).Pairwise (· < ·) := by
  induction l with
  | nil => simp [place]
  | cons b l ih =>
    obtain ⟨hb, hl⟩ := List.pairwise_cons.1 h
    by_cases hne : a = b
    · rwa [place, if_pos hne]
    · rw [place, if_neg hne]
      by_cases hlt : a < b
      · rw [if_pos hlt]
        refine List.pairwise_cons.2 ⟨fun c hc => ?_, h⟩
        rcases List.mem_cons.1 hc with rfl | hc
        · exact hlt
        · exact String.lt_trans hlt (hb c hc)
      · rw [if_neg hlt]
        refine List.pairwise_cons.2 ⟨fun c hc => ?_, ih hl⟩
        rcases mem_place.1 hc with rfl | hc
        · exact lt_of_not_lt_of_ne hlt hne
        · exact hb c hc

def insert (a : String) (s : NameSet) : NameSet := ⟨place a s.toList, pairwise_place s.sorted⟩

@[simp] theorem mem_insert {a c : String} {s : NameSet} : c ∈ s.insert a ↔ c = a ∨ c ∈ s := mem_place

/-! ## Built from insertion -/

def insertAll (s : NameSet) (l : List String) : NameSet := l.foldl (fun s a => s.insert a) s

@[simp] theorem mem_insertAll {c : String} {s : NameSet} {l : List String} :
    c ∈ s.insertAll l ↔ c ∈ s ∨ c ∈ l := by
  induction l generalizing s with
  | nil => simp [insertAll]
  | cons a l ih =>
    have h : s.insertAll (a :: l) = (s.insert a).insertAll l := rfl
    rw [h, ih, mem_insert, List.mem_cons]
    grind

def ofList (l : List String) : NameSet := insertAll ∅ l

@[simp] theorem mem_ofList {c : String} {l : List String} : c ∈ ofList l ↔ c ∈ l := by simp [ofList]

def union (s t : NameSet) : NameSet := s.insertAll t.toList

instance : Union NameSet := ⟨union⟩

@[simp] theorem mem_union {c : String} {s t : NameSet} : c ∈ s ∪ t ↔ c ∈ s ∨ c ∈ t := mem_insertAll

/-! ## Parts -/

def filter (p : String → Bool) (s : NameSet) : NameSet := ⟨s.toList.filter p, s.sorted.filter p⟩

@[simp] theorem mem_filter {c : String} {p : String → Bool} {s : NameSet} :
    c ∈ s.filter p ↔ c ∈ s ∧ p c = true := List.mem_filter

def erase (a : String) (s : NameSet) : NameSet := s.filter (· ≠ a)

@[simp] theorem mem_erase {a c : String} {s : NameSet} : c ∈ s.erase a ↔ c ≠ a ∧ c ∈ s := by
  simp [erase, and_comm]

/-- Sets with the same members are equal. -/
theorem ext_mem {s t : NameSet} (h : ∀ a, a ∈ s ↔ a ∈ t) : s = t := by
  obtain ⟨l, hl⟩ := s
  obtain ⟨m, hm⟩ := t
  have e : l = m := by
    induction l generalizing m with
    | nil =>
      cases m with
      | nil => rfl
      | cons b m => exact absurd ((h b).2 List.mem_cons_self) List.not_mem_nil
    | cons a l ih =>
      cases m with
      | nil => exact absurd ((h a).1 List.mem_cons_self) List.not_mem_nil
      | cons b m =>
        obtain ⟨ha, hl'⟩ := List.pairwise_cons.1 hl
        obtain ⟨hb, hm'⟩ := List.pairwise_cons.1 hm
        have hab : a = b := by
          rcases List.mem_cons.1 ((h a).1 List.mem_cons_self) with e | h1
          · exact e
          · rcases List.mem_cons.1 ((h b).2 List.mem_cons_self) with e | h2
            · exact e.symm
            · exact absurd (ha b h2) (String.lt_asymm (hb a h1))
        subst hab
        have key : ∀ c, c ∈ l ↔ c ∈ m := fun c => by
          constructor
          · intro hc
            rcases List.mem_cons.1 ((h c).1 (List.mem_cons_of_mem _ hc)) with e | h1
            · exact absurd (ha c hc) (e ▸ String.lt_irrefl a)
            · exact h1
          · intro hc
            rcases List.mem_cons.1 ((h c).2 (List.mem_cons_of_mem _ hc)) with e | h1
            · exact absurd (hb c hc) (e ▸ String.lt_irrefl a)
            · exact h1
        rw [ih hl' m hm' key]
  subst e
  rfl

end NameSet
end Lookahead
