import Lookahead.Proofs.Scan.Sight
import Lookahead.Proofs.Scan.Tiling

/-! Errors leave no trace in a scan. With blanks in place of what its errors are about, a text is scanned into the same
tokens at the same places, and without errors. -/
namespace Lookahead

/-! ## Blanked texts -/

/-- Whether an error is about the character at `n`: it is the bad one, or stands in the bad number, or comes after the
quote that is not closed. -/
def ScanError.isAbout (e : ScanError) (n : ℕ) : Bool :=
  match e.fault with
  | .badCharacter _ => n = e.location.offset
  | .badNumber lexeme _ => e.location.offset ≤ n && n < e.location.offset + lexeme.length
  | .openString _ => e.location.offset ≤ n

/-- A text that stands at `n`, with blanks at the places in `q`; lines keep their ends. -/
def blankAt (q : ℕ → Bool) : ℕ → List Char → List Char
  | _, [] => []
  | n, c :: cs => (if q n && c ≠ '\n' then ' ' else c) :: blankAt q (n + 1) cs

/-- The source with blanks in place of all that the errors are about. -/
def blanked (errors : List ScanError) (source : String) : String :=
  String.ofList (blankAt (fun n => errors.any (·.isAbout n)) 0 source.toList)

section Blank
variable {q : ℕ → Bool} {n : ℕ} {cs : List Char}

theorem blankAt_append (n : ℕ) (cs ds : List Char) :
    blankAt q n (cs ++ ds) = blankAt q n cs ++ blankAt q (n + cs.length) ds := by
  induction cs generalizing n with
  | nil => rfl
  | cons c cs ih => rw [List.cons_append, blankAt, ih, blankAt, List.cons_append, List.length_cons, Nat.add_right_comm]; rfl

theorem blankAt_eq_self (h : ∀ m, n ≤ m → m < n + cs.length → q m = false) : blankAt q n cs = cs := by
  induction cs generalizing n with
  | nil => rfl
  | cons c cs ih =>
    rw [List.length_cons] at h
    have hn : q n = false := h n (Nat.le_refl n) (by omega)
    rw [blankAt, ih fun m hle hlt => h m (by omega) (by omega), hn]
    rfl

theorem isBlank_of_mem_blankAt (h : ∀ m, n ≤ m → m < n + cs.length → q m = true) :
    ∀ b ∈ blankAt q n cs, Text.isBlank b = true := by
  induction cs generalizing n with
  | nil => exact List.forall_mem_nil _
  | cons c cs ih =>
    rw [List.length_cons] at h
    have hn : q n = true := h n (Nat.le_refl n) (by omega)
    refine List.forall_mem_cons.mpr ⟨?_, ih fun m hle hlt => h m (by omega) (by omega)⟩
    by_cases hc : c = '\n'
    · simp only [hc, ne_eq, not_true_eq_false, decide_false, Bool.and_false]
      decide +kernel
    · simp only [hn, hc, ne_eq, not_false_eq_true, decide_true, Bool.and_true, if_true]
      decide +kernel

theorem fades_blankAt (q : ℕ → Bool) (n : ℕ) (cs : List Char) : Fades cs (blankAt q n cs) := by
  induction cs generalizing n with
  | nil => exact .nil
  | cons c cs ih =>
    rw [blankAt]
    split_ifs
    · exact .blank (by decide +kernel)
    · exact .cons (ih (n + 1))

/-- Blanks stand in the same lines and columns. -/
theorem past_blankAt (p : Cursor) (n : ℕ) (cs : List Char) : p.past (blankAt q n cs) = p.past cs := by
  induction cs generalizing p n with
  | nil => rfl
  | cons c cs ih =>
    have hstep : p.step (if q n && c ≠ '\n' then ' ' else c) = p.step c := by
      split_ifs with h
      · have hc : c ≠ '\n' := by simp_all
        rw [Cursor.step_of_ne (by decide), Cursor.step_of_ne hc]
      · rfl
    rw [blankAt, Cursor.past_cons, Cursor.past_cons, hstep, ih]

end Blank

/-! ## Scans of blanked texts -/

section Scan
variable {file : String} {p : Cursor} {cs text after : List Char} {s : Scan}

theorem ScanError.le_of_isAbout {e : ScanError} {n : ℕ} (h : e.isAbout n = true) : e.location.offset ≤ n := by
  obtain ⟨fault, location⟩ := e
  cases fault <;> simp_all [isAbout]

theorem ScanError.isAbout_iff {e : ScanError} (hplace : e.location = p.location file) (h : e.fault.Covers text after)
    {n : ℕ} (hn : n < p.offset + text.length + after.length) :
    e.isAbout n = true ↔ p.offset ≤ n ∧ n < p.offset + text.length := by
  obtain ⟨fault, location⟩ := e
  have hoffset : location.offset = p.offset := congrArg Location.offset hplace
  cases h with
  | badCharacter =>
    simp only [isAbout, decide_eq_true_eq, List.length_singleton]
    omega
  | badNumber =>
    simp only [isAbout, Bool.and_eq_true, decide_eq_true_eq, String.length_ofList]
    omega
  | openString =>
    simp only [isAbout, decide_eq_true_eq]
    rw [List.length_nil, Nat.add_zero] at hn
    omega

/-- No error is about what stands in front of the text. -/
theorem Scans.not_isAbout (h : Scans file p cs s) (hs : s.unreadable = none) {n : ℕ} (hn : n < p.offset) :
    s.errors.any (·.isAbout n) = false := by
  obtain ⟨-, spans, -, htiles, hitems⟩ := h.exists_spans hs
  refine List.any_eq_false.mpr fun e he habout => ?_
  have hmem := Scan.mem_errors_iff.mp he
  rw [← hitems] at hmem
  have hle : (p.offset : ℤ) ≤ e.location.offset := (htiles.offset_bounds _ hmem).1
  have hle' := ScanError.le_of_isAbout habout
  omega

/-- The scan of a text without its errors. -/
def Scan.cleared (s : Scan) : Scan := ⟨s.tokens.map .token, s.finish, s.unreadable⟩

/-- The text is blanked where its errors are, as far as it goes. The induction is on the pieces of the scan: layout and
tokens are left alone, and the text of an error becomes layout. -/
theorem Scans.blanked (h : Scans file p cs s) (hs : s.unreadable = none) {q : ℕ → Bool}
    (hq : ∀ n, p.offset ≤ n → n < p.offset + cs.length → q n = s.errors.any (·.isAbout n)) :
    Scans file p (blankAt q p.offset cs) s.cleared := by
  induction h with
  | @finish p cs hcs =>
    rw [blankAt_eq_self hq]
    exact .finish hcs
  | unreadable => cases hs
  | @item p gap c rest text after i s hgap htext hwidth hitem hscans ih =>
    obtain ⟨hplace, hcovers⟩ := (lexeme_found c rest).covers htext hwidth hitem
    have hmiddle : (p.past gap).offset = p.offset + gap.length := Cursor.offset_past p gap
    have hnext : ((p.past gap).past text).offset = (p.past gap).offset + text.length := Cursor.offset_past _ text
    rw [List.length_append, htext, List.length_append] at hq
    rw [htext, blankAt_append, blankAt_append, ← hmiddle, ← hnext]
    cases i with
    | token t =>
      have hleft {n : ℕ} (hle : p.offset ≤ n) (hlt : n < ((p.past gap).past text).offset) : q n = false :=
        (hq n hle (by omega)).trans (hscans.not_isAbout hs hlt)
      rw [blankAt_eq_self fun n hle hlt => hleft hle (by omega),
        blankAt_eq_self fun n hle hlt => hleft (by omega) (by omega)]
      have hrest := ih hs fun n hle hlt => hq n (by omega) (by omega)
      exact .item_fades hgap htext hwidth hitem (fun _ _ => ScanItem.noConfusion) (fades_blankAt q _ after) hrest
    | error e =>
      have hq {n : ℕ} (hle : p.offset ≤ n) (hlt : n < ((p.past gap).past text).offset + after.length) :
          q n = (e.isAbout n || s.errors.any (·.isAbout n)) := hq n hle (by omega)
      have habout {n : ℕ} (hlt : n < ((p.past gap).past text).offset + after.length) :=
        ScanError.isAbout_iff hplace hcovers (hnext ▸ hlt)
      have hgap' : blankAt q p.offset gap = gap := by
        refine blankAt_eq_self fun n hle hlt => ?_
        rw [hq hle (by omega), hscans.not_isAbout hs (by omega), Bool.or_false, ← Bool.not_eq_true, habout (by omega)]
        omega
      have hblanks : ∀ b ∈ blankAt q (p.past gap).offset text, Text.isBlank b = true := by
        refine isBlank_of_mem_blankAt fun n hle hlt => ?_
        rw [hq (by omega) (by omega), (habout (by omega)).mpr ⟨hle, hlt⟩, Bool.true_or]
      have hrest := ih hs fun n hle hlt => by
        have hpast : e.isAbout n = false := by
          rw [← Bool.not_eq_true, habout hlt]
          omega
        rw [hq (by omega) hlt, hpast, Bool.false_or]
      rw [hgap', ← List.append_assoc]
      refine .after_layout ((passed_of_rest hgap).append (passed_of_blanks hblanks)) ?_
      rwa [Cursor.past_append, past_blankAt]

end Scan

/-! ## Whole texts -/

theorem Scan.tokens_cleared (s : Scan) : s.cleared.tokens = s.tokens := by
  rw [tokens, cleared, List.filterMap_map]
  exact List.filterMap_some

theorem Scan.errors_cleared (s : Scan) : s.cleared.errors = [] := by
  rw [errors, cleared, List.filterMap_map]
  exact List.filterMap_none _

section Source
variable {file source : String} {s : Scanned}

/-- The source with its errors blanked has the same tokens, at the same places, and no errors. -/
theorem scan_blanked (h : scan file source = .ok s) : scan file (blanked s.errors source) = .ok ⟨s.tokens, []⟩ := by
  obtain ⟨hread, rfl⟩ := scan_eq_ok_iff.mp h
  have hscans := (scans_scanFrom file .start source.toList).blanked hread fun n _ _ => rfl
  rw [scan_eq_ok_iff, blanked, String.toList_ofList]
  have heq := hscans.eq
  rw [show Cursor.start.offset = 0 from rfl] at heq
  rw [heq, Scan.tokens_cleared, Scan.errors_cleared]
  exact ⟨hread, rfl⟩

theorem scan_blanked_faulty : ∃ s, scan "" "a#/ 2b=\n'c\nd" = .ok s ∧ s.errors.length = 3 ∧
    blanked s.errors "a#/ 2b=\n'c\nd" = "a /   =\n  \n " ∧ scan "" "a /   =\n  \n " = .ok ⟨s.tokens, []⟩ := by
  have hscan : (scan "" "a#/ 2b=\n'c\nd").toOption.map (fun s =>
      (s.errors.length, blanked s.errors "a#/ 2b=\n'c\nd")) = some (3, "a /   =\n  \n ") := by
    decide +kernel
  cases h : scan "" "a#/ 2b=\n'c\nd" with
  | error lexeme =>
    rw [h] at hscan
    cases hscan
  | ok s =>
    rw [h] at hscan
    have hfound := Prod.mk.inj (Option.some.inj hscan)
    have hblanked := scan_blanked h
    rw [hfound.2] at hblanked
    exact ⟨s, rfl, hfound.1, hfound.2, hblanked⟩

end Source
end Lookahead
