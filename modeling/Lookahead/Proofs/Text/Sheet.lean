import Mathlib.Data.List.Basic
import Mathlib.Data.List.TakeWhile

/-! Sheets of entries in named rows and columns, written with tabs between the fields and a line for each row. A
name may hold tabs and line breaks itself, so the text alone need not show where a field ends. An entry may not, and
therefore the text gives back the entries to whoever knows the names. -/
namespace Lookahead

/-- The entries of a row are in the order of the columns. -/
@[ext] structure Sheet where
  columns : List String
  rows : List (String × List String)

namespace Sheet

def line (fields : List String) : String := "\t".intercalate fields

/-- The header starts with a word of its own, over the names of the rows. -/
def text (corner : String) (s : Sheet) : String :=
  "\n".intercalate (line (corner :: s.columns) :: s.rows.map fun r => line (r.1 :: r.2))

def Shows (s : Sheet) (row column entry : String) : Prop :=
  ∃ entries, (row, entries) ∈ s.rows ∧ (column, entry) ∈ s.columns.zip entries

/-- The number of entries other than a dash. -/
def filled (s : Sheet) : ℕ := (s.rows.flatMap (·.2)).countP (· != "-")

def Plain (entry : String) : Prop := ∀ c ∈ entry.toList, c ≠ '\t' ∧ c ≠ '\n'

/-- Every row is complete, and no entry holds a separator. -/
def Regular (s : Sheet) : Prop := ∀ r ∈ s.rows, r.2.length = s.columns.length ∧ ∀ e ∈ r.2, Plain e

/-! ## Texts as characters -/

theorem line_cons (x : String) {xs : List String} (h : xs ≠ []) : line (x :: xs) = x ++ "\t" ++ line xs :=
  String.intercalate_cons_of_ne_nil h

theorem toList_intercalate_cons (sep x : String) (xs : List String) :
    (sep.intercalate (x :: xs)).toList = x.toList ++ xs.flatMap fun y => sep.toList ++ y.toList := by
  induction xs generalizing x with
  | nil => simp
  | cons y ys ih =>
    rw [String.intercalate_cons_cons, String.toList_append, String.toList_append, ih, List.flatMap_cons]
    simp only [List.append_assoc]

/-- The entries of a row, each after its tab. -/
def tail (entries : List String) : List Char := entries.flatMap fun e => '\t' :: e.toList

/-- The rows, each after its line break. -/
def body (rows : List (String × List String)) : List Char := rows.flatMap fun r => '\n' :: (r.1.toList ++ tail r.2)

theorem toList_line (x : String) (xs : List String) : (line (x :: xs)).toList = x.toList ++ tail xs :=
  toList_intercalate_cons "\t" x xs

theorem toList_text (corner : String) (s : Sheet) :
    (s.text corner).toList = (line (corner :: s.columns)).toList ++ body s.rows := by
  rw [text, toList_intercalate_cons, List.flatMap_map]
  apply congrArg
  apply List.flatMap_congr
  intro r _
  rw [toList_line]
  rfl

/-! ## Reading back -/

/-- What comes after an entry: nothing, or a separator. -/
def Stops (cs : List Char) : Prop := ∀ c ∈ cs.head?, c = '\t' ∨ c = '\n'

theorem stops_tail_append (entries : List String) {cs : List Char} (h : Stops cs) : Stops (tail entries ++ cs) := by
  cases entries with
  | nil => exact h
  | cons e es =>
    intro c hc
    exact Or.inl (Option.mem_some_iff.mp hc).symm

theorem stops_body (rows : List (String × List String)) : Stops (body rows) := by
  cases rows with
  | nil =>
    intro c hc
    cases hc
  | cons r rs =>
    intro c hc
    exact Or.inr (Option.mem_some_iff.mp hc).symm

theorem takeWhile_entry {e : String} {cs : List Char} (he : Plain e) (hcs : Stops cs) :
    (e.toList ++ cs).takeWhile (fun c => c ≠ '\t' ∧ c ≠ '\n') = e.toList := by
  have hstop : cs.takeWhile (fun c => c ≠ '\t' ∧ c ≠ '\n') = [] := by
    cases cs with
    | nil => rfl
    | cons c cs =>
      have hc : c = '\t' ∨ c = '\n' := hcs c rfl
      apply List.takeWhile_cons_of_neg
      rw [decide_eq_true_eq]
      exact fun h => not_or.mpr h hc
  rw [List.takeWhile_append_of_pos, hstop, List.append_nil]
  intro c hc
  exact decide_eq_true (he c hc)

/-- An entry ends where the first separator comes. -/
theorem entry_unique {d e : String} {cs ds : List Char} (hd : Plain d) (he : Plain e) (hcs : Stops cs) (hds : Stops ds)
    (h : d.toList ++ cs = e.toList ++ ds) : d = e ∧ cs = ds := by
  have hde : d.toList = e.toList := by
    rw [← takeWhile_entry hd hcs, h, takeWhile_entry he hds]
  rw [hde] at h
  exact ⟨String.toList_inj.mp hde, List.append_cancel_left h⟩

/-- As many entries as there are columns are read off one after the other. -/
theorem tail_unique {ds es : List String} (hlen : ds.length = es.length) (hds : ∀ d ∈ ds, Plain d)
    (hes : ∀ e ∈ es, Plain e) {cs cs' : List Char} (hcs : Stops cs) (hcs' : Stops cs')
    (h : tail ds ++ cs = tail es ++ cs') : ds = es ∧ cs = cs' := by
  induction ds generalizing es with
  | nil =>
    have hnil : es = [] := List.eq_nil_of_length_eq_zero hlen.symm
    subst hnil
    exact ⟨rfl, h⟩
  | cons d ds ih =>
    cases es with
    | nil => cases hlen
    | cons e es =>
      rw [List.forall_mem_cons] at hds hes
      have hrest : d.toList ++ (tail ds ++ cs) = e.toList ++ (tail es ++ cs') := by
        simpa [tail] using h
      obtain ⟨hde, htail⟩ := entry_unique hds.1 hes.1 (stops_tail_append ds hcs) (stops_tail_append es hcs') hrest
      obtain ⟨hdes, hcs⟩ := ih (Nat.succ.inj hlen) hds.2 hes.2 htail
      exact ⟨by rw [hde, hdes], hcs⟩

/-- The names are known, so in each row what is left after its name starts with its entries. -/
theorem body_unique {rs ss : List (String × List String)} (n : ℕ) (hnames : rs.map (·.1) = ss.map (·.1))
    (hrs : ∀ r ∈ rs, r.2.length = n ∧ ∀ e ∈ r.2, Plain e) (hss : ∀ s ∈ ss, s.2.length = n ∧ ∀ e ∈ s.2, Plain e)
    (h : body rs = body ss) : rs = ss := by
  induction rs generalizing ss with
  | nil => exact (List.map_eq_nil_iff.mp hnames.symm).symm
  | cons r rs ih =>
    cases ss with
    | nil => cases hnames
    | cons s ss =>
      rw [List.map_cons, List.map_cons, List.cons.injEq] at hnames
      rw [List.forall_mem_cons] at hrs hss
      have hrest : tail r.2 ++ body rs = tail s.2 ++ body ss := by
        simpa [body, hnames.1] using h
      obtain ⟨hentries, hbody⟩ := tail_unique (hrs.1.1.trans hss.1.1.symm) hrs.1.2 hss.1.2 (stops_body rs)
        (stops_body ss) hrest
      rw [ih hnames.2 hrs.2 hss.2 hbody, Prod.ext hnames.1 hentries]

/-- Sheets with the same names and the same text have the same entries. -/
theorem eq_of_text_eq {s u : Sheet} (hs : s.Regular) (hu : u.Regular) (hcolumns : s.columns = u.columns)
    (hnames : s.rows.map (·.1) = u.rows.map (·.1)) {corner : String} (h : s.text corner = u.text corner) : s = u := by
  have hchars := congrArg String.toList h
  rw [toList_text, toList_text, hcolumns] at hchars
  have hrows : s.rows = u.rows :=
    body_unique u.columns.length hnames (hcolumns ▸ hs) hu (List.append_cancel_left hchars)
  exact Sheet.ext hcolumns hrows

/-! ## Numbers as entries -/

/-- A number is written as digits, after a dash if it is negative. -/
theorem toList_toString (i : ℤ) : ∃ n : ℕ, (toString i).toList = Nat.toDigits 10 n ∨
    (toString i).toList = '-' :: Nat.toDigits 10 n := by
  have hrepr : toString i = i.repr := rfl
  rw [hrepr, Int.repr_eq_if]
  split
  · refine ⟨i.toNat, Or.inl ?_⟩
    rw [Nat.repr_eq_ofList_toDigits, String.toList_ofList]
  · refine ⟨(-i).toNat, Or.inr ?_⟩
    simp [Nat.repr_eq_ofList_toDigits]

theorem plain_dash : Plain "-" := by
  intro c hc
  obtain rfl : c = '-' := by simpa using hc
  decide

theorem plain_toString (i : ℤ) : Plain (toString i) := by
  have hdigit : ∀ n c, c ∈ Nat.toDigits 10 n → c ≠ '\t' ∧ c ≠ '\n' := by
    intro n c hc
    have h : c.isDigit = true := Nat.isDigit_of_mem_toDigits (by omega) (by omega) hc
    constructor
    · rintro rfl
      exact absurd h (by decide)
    · rintro rfl
      exact absurd h (by decide)
  intro c hc
  obtain ⟨n, h | h⟩ := toList_toString i
  · exact hdigit n c (h ▸ hc)
  · rw [h, List.mem_cons] at hc
    rcases hc with rfl | hc
    · decide
    · exact hdigit n c hc

theorem toString_ne_dash (i : ℤ) : toString i ≠ "-" := by
  intro hdash
  obtain ⟨n, h | h⟩ := toList_toString i
  · have hmem : '-' ∈ Nat.toDigits 10 n := by
      rw [← h, hdash]
      decide
    have hdigit : '-'.isDigit = true := Nat.isDigit_of_mem_toDigits (by omega) (by omega) hmem
    exact absurd hdigit (by decide)
  · rw [hdash] at h
    exact Nat.toDigits_ne_nil (List.cons.inj h).2.symm

end Sheet
end Lookahead
