import Lookahead.Proofs.Scan.Sight
import Lookahead.Proofs.Tree.Relocate

/-! Texts one after the other, with the end of a line between them. No lexeme reaches over the end of a line but a
string, and the text after it is scanned as at the start, only at other places. -/
namespace Lookahead

variable {cs ds : List Char}

/-! ## Scans at other places -/

def Cursor.shift (lines offset : ℕ) (p : Cursor) : Cursor := ⟨p.offset + offset, p.line + lines, p.column⟩

/-- The place in another file, so many lines and characters further. -/
def Location.shift (file : String) (lines offset : ℕ) (l : Location) : Location :=
  ⟨file, l.line + lines, l.column, l.offset + offset⟩

def ScanError.relocate (f : Location → Location) (e : ScanError) : ScanError := { e with location := f e.location }

def ScanItem.relocate (f : Location → Location) : ScanItem → ScanItem
  | token t => token (t.relocate f)
  | error e => error { e with location := f e.location }

namespace Cursor
variable {lines offset : ℕ}

theorem past_shift (p : Cursor) (cs : List Char) :
    (p.shift lines offset).past cs = (p.past cs).shift lines offset := by
  induction cs generalizing p with
  | nil => rfl
  | cons c cs ih =>
    have hstep : (p.shift lines offset).step c = (p.step c).shift lines offset := by
      unfold step shift
      split <;> simp only [Cursor.mk.injEq, and_true] <;> omega
    rw [past_cons, past_cons, hstep, ih]

theorem location_shift (p : Cursor) (file file' : String) :
    (p.shift lines offset).location file' = (p.location file).shift file' lines offset := by
  simp [shift, location, Location.shift]

end Cursor

theorem Lexeme.item?_shift {lines offset : ℕ} (found : Lexeme) (p : Cursor) (file file' : String) :
    found.item? file' (p.shift lines offset) =
      (found.item? file p).map (ScanItem.relocate (Location.shift file' lines offset)) := by
  cases found <;> simp [item?, ScanItem.relocate, Token.relocate, Cursor.location_shift p file file']

def Scan.shift (file : String) (lines offset : ℕ) (s : Scan) : Scan :=
  ⟨s.items.map (ScanItem.relocate (.shift file lines offset)), s.finish.shift lines offset, s.unreadable⟩

/-- Further down, a text is scanned as before; only the places change. -/
theorem Scans.shift {file : String} {p : Cursor} {s : Scan} (h : Scans file p cs s) (file' : String)
    (lines offset : ℕ) : Scans file' (p.shift lines offset) cs (s.shift file' lines offset) := by
  induction h with
  | finish hcs =>
    rw [Scan.shift, ← Cursor.past_shift]
    exact .finish hcs
  | unreadable hgap htext hwidth hitem =>
    rw [Scan.shift, ← Cursor.past_shift, ← Cursor.past_shift]
    refine .unreadable hgap htext hwidth ?_
    rw [Cursor.past_shift, Lexeme.item?_shift, hitem, Option.map_none]
  | item hgap htext hwidth hitem _ ih =>
    rw [← Cursor.past_shift, ← Cursor.past_shift] at ih
    refine .item hgap htext hwidth ?_ ih
    rw [Cursor.past_shift, Lexeme.item?_shift, hitem, Option.map_some]

/-! ## One text after the other -/

/-- One scan after the other. -/
def Scan.append (s t : Scan) : Scan := ⟨s.items ++ t.items, t.finish, t.unreadable⟩

variable {file : String} {p : Cursor} {s t : Scan}

/-- The scan of a text goes on in the next line, unless it stops or ends in a string that is not closed. The induction
is on the scan. -/
theorem Scans.append (h : Scans file p cs s) (hs : s.unreadable = none)
    (hopen : ∀ q l, .error ⟨.openString q, l⟩ ∉ s.items) (ht : Scans file ((p.past cs).step '\n') ds t) :
    Scans file p (cs ++ '\n' :: ds) (s.append t) := by
  induction h with
  | @finish p cs hcs =>
    rw [List.append_cons]
    refine .after_layout (passed_line hcs) ?_
    rwa [Cursor.past_append]
  | unreadable => cases hs
  | @item p gap c rest text after i s hgap htext hwidth hitem _ ih =>
    rw [htext, Cursor.past_append, Cursor.past_append] at ht
    have hrest := ih hs (fun q l hmem => hopen q l (List.mem_cons_of_mem _ hmem)) ht
    have hclosed : ∀ q l, i ≠ .error ⟨.openString q, l⟩ := fun q l hi => hopen q l (hi ▸ List.mem_cons_self)
    rw [htext, List.append_assoc, List.append_assoc]
    exact .item_fades hgap htext hwidth hitem hclosed (fades_append (by decide +kernel) after ds) hrest

/-- The lines of a text, and those of the other text below them. -/
theorem Scans.append_below {file₁ file₂ : String} (h₁ : Scans file₁ .start cs s) (hs : s.unreadable = none)
    (hopen : ∀ q l, .error ⟨.openString q, l⟩ ∉ s.items) (h₂ : Scans file₂ .start ds t) :
    Scans file₁ .start (cs ++ '\n' :: ds)
      (s.append (t.shift file₁ (Cursor.start.past cs).line ((Cursor.start.past cs).offset + 1))) := by
  have hplace : (Cursor.start.past cs).step '\n' =
      Cursor.start.shift (Cursor.start.past cs).line ((Cursor.start.past cs).offset + 1) := by
    simp [Cursor.step, Cursor.shift, Cursor.start, Nat.add_comm]
  refine h₁.append hs hopen ?_
  rw [hplace]
  exact h₂.shift file₁ _ _

/-! ## Tokens and errors of whole texts -/

theorem Scan.tokens_append (s t : Scan) : (s.append t).tokens = s.tokens ++ t.tokens := List.filterMap_append

theorem Scan.errors_append (s t : Scan) : (s.append t).errors = s.errors ++ t.errors := List.filterMap_append

theorem Scan.tokens_shift (s : Scan) (file : String) (lines offset : ℕ) :
    (s.shift file lines offset).tokens = s.tokens.map (Token.relocate (.shift file lines offset)) := by
  rw [tokens, tokens, shift, List.filterMap_map, List.map_filterMap]
  refine congrArg (List.filterMap · s.items) (funext fun i => ?_)
  cases i <;> rfl

theorem Scan.errors_shift (s : Scan) (file : String) (lines offset : ℕ) :
    (s.shift file lines offset).errors = s.errors.map (ScanError.relocate (.shift file lines offset)) := by
  rw [errors, errors, shift, List.filterMap_map, List.map_filterMap]
  refine congrArg (List.filterMap · s.items) (funext fun i => ?_)
  cases i <;> rfl

/-- The tokens of a text, those of the text in the lines below it, and one token that ends them all. -/
theorem exists_tokenize_append {file₁ file₂ source₁ source₂ : String} {tokens₁ tokens₂ : List Token}
    (h₁ : tokenize file₁ source₁ = .ok tokens₁) (h₂ : tokenize file₂ source₂ = .ok tokens₂) (file : String) :
    ∃ f g last, last.kind = .eof ∧ tokenize file (source₁ ++ "\n" ++ source₂) = .ok
      (tokens₁.dropLast.map (Token.relocate f) ++ tokens₂.dropLast.map (Token.relocate g) ++ [last]) := by
  obtain ⟨hread₁, herrors₁, rfl⟩ := tokenize_eq_ok_iff.mp h₁
  obtain ⟨hread₂, herrors₂, rfl⟩ := tokenize_eq_ok_iff.mp h₂
  have hscans₁ : Scans file .start source₁.toList _ := (scans_scanFrom file₁ .start source₁.toList).shift file 0 0
  have hscans₂ := scans_scanFrom file₂ .start source₂.toList
  generalize scanFrom file₁ .start source₁.toList = s at *
  generalize scanFrom file₂ .start source₂.toList = t at *
  have hnone : (s.shift file 0 0).errors = [] := by rw [Scan.errors_shift, herrors₁, List.map_nil]
  have hopen : ∀ quote l, .error ⟨.openString quote, l⟩ ∉ (s.shift file 0 0).items := by
    intro quote l hmem
    have herror := Scan.mem_errors_iff.mpr hmem
    rw [hnone] at herror
    cases herror
  have hscan := (hscans₁.append_below hread₁ hopen hscans₂).eq
  have htext : (source₁ ++ "\n" ++ source₂).toList = source₁.toList ++ '\n' :: source₂.toList := by simp
  let q := Cursor.start.past source₁.toList
  let last := ((s.shift file 0 0).append (t.shift file q.line (q.offset + 1))).endToken file
  refine ⟨.shift file 0 0, .shift file q.line (q.offset + 1), last, rfl, tokenize_eq_ok_iff.mpr ?_⟩
  rw [htext, hscan]
  refine ⟨hread₂, ?_, ?_⟩
  · rw [Scan.errors_append, hnone, Scan.errors_shift, herrors₂, List.map_nil, List.append_nil]
  · rw [Scan.tokens_append, Scan.tokens_shift, Scan.tokens_shift, List.dropLast_concat, List.dropLast_concat]

end Lookahead
