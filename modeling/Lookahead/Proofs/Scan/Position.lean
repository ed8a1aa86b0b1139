import Lookahead.Proofs.Scan.Tiling
import Lookahead.Scan.Scanner

/-! Where a scanner is. Whatever it is asked to do, in whatever order, and also where that fails, its line and its
column are those of its offset in the text, and so are the ones of all the tokens and errors it yields. -/
namespace Lookahead

/-! ## Lines and columns -/

/-- The location is inside the text, or at its end, and its line and column are those of its offset. -/
structure Location.IsPlaceIn (file : String) (cs : List Char) (l : Location) : Prop where
  file_eq : l.file = file
  offset_nonneg : 0 ≤ l.offset
  offset_le : l.offset ≤ cs.length
  line_eq : l.line = 1 + (cs.take l.offset.toNat).count '\n'
  column_eq : l.column = 1 + ((cs.take l.offset.toNat).reverse.takeWhile (· ≠ '\n')).length

namespace Cursor

theorem line_past (p : Cursor) (cs : List Char) : (p.past cs).line = p.line + cs.count '\n' := by
  induction cs generalizing p with
  | nil => rfl
  | cons c cs ih =>
    rw [past_cons, ih]
    by_cases hc : c = '\n'
    · rw [hc, step_newline, List.count_cons_self, Nat.add_assoc, Nat.add_comm 1]
    · rw [step_of_ne hc, List.count_cons_of_ne hc]

/-- The column counts from the start of the line. The induction is on the text from its end. -/
theorem column_start_past (cs : List Char) :
    (start.past cs).column = 1 + (cs.reverse.takeWhile (· ≠ '\n')).length := by
  induction cs using List.reverseRecOn with
  | nil => rfl
  | append_singleton cs c ih =>
    rw [past_append, past_cons, past_nil, List.reverse_append, List.reverse_singleton, List.singleton_append]
    by_cases hc : c = '\n'
    · subst hc
      rfl
    · rw [step_of_ne hc, List.takeWhile_cons_of_pos (by simpa using hc), List.length_cons, ih, Nat.add_assoc]

theorem isPlaceIn_start_past (file : String) (before after : List Char) :
    ((start.past before).location file).IsPlaceIn file (before ++ after) := by
  have hoffset : ((start.past before).location file).offset = before.length := by
    rw [location, offset_past, start, Nat.zero_add]
  have htake : (before ++ after).take ((start.past before).location file).offset.toNat = before := by
    rw [hoffset, Int.toNat_natCast, List.take_left]
  refine ⟨rfl, ?_, ?_, ?_, ?_⟩
  · rw [hoffset]
    omega
  · rw [hoffset, List.length_append]
    omega
  · rw [htake, location, line_past, start]
    exact Int.natCast_add 1 _
  · rw [htake, location, column_start_past]
    exact Int.natCast_add 1 _

end Cursor

/-! ## Tokens and errors in their places -/

namespace ScanItem

/-- The text that a token or an error is about is what `rest` begins with. -/
def Begins : ScanItem → List Char → Prop
  | token t, rest => t.lexeme.toList <+: rest
  | error e, rest => ∃ text after, rest = text ++ after ∧ e.fault.Covers text after

theorem Covers.begins {i : ScanItem} {text after : List Char} (h : i.Covers text after) : i.Begins (text ++ after) := by
  cases i with
  | token t => exact ⟨after, congrArg (· ++ after) h.1⟩
  | error e => exact ⟨text, after, rfl, h⟩

/-- The location is right, and the lexeme begins there. -/
structure PlacedIn (file : String) (cs : List Char) (i : ScanItem) : Prop where
  place : i.location.IsPlaceIn file cs
  begins : i.Begins (cs.drop i.location.offset.toNat)

variable {file : String} {before rest : List Char} {i : ScanItem}

theorem placedIn_of_begins (hi : i.location = (Cursor.start.past before).location file) (h : i.Begins rest) :
    i.PlacedIn file (before ++ rest) := by
  have hdrop : (before ++ rest).drop i.location.offset.toNat = rest := by
    rw [hi, Cursor.location, Cursor.offset_past, Cursor.start, Nat.zero_add, Int.toNat_natCast, List.drop_left]
  exact ⟨hi ▸ Cursor.isPlaceIn_start_past file before rest, hdrop.symm ▸ h⟩

end ScanItem

/-! ## Scans -/

section Scan
variable {file : String} {p : Cursor} {cs before rest : List Char} {s : Scan}

/-- A scan that stands after `before` stops somewhere in the text, at its end or not, and all it has found is in its
place. The induction is on the pieces of the scan. -/
theorem Scans.placed (h : Scans file p cs s) (hp : p = Cursor.start.past before) :
    (∃ done left, before ++ cs = done ++ left ∧ s.finish = Cursor.start.past done) ∧
      ∀ i ∈ s.items, i.PlacedIn file (before ++ cs) := by
  induction h generalizing before with
  | @finish p cs =>
    rw [hp, ← Cursor.past_append]
    exact ⟨⟨before ++ cs, [], (List.append_nil _).symm, rfl⟩, List.forall_mem_nil _⟩
  | @unreadable p gap c rest text after _ htext =>
    rw [hp, ← Cursor.past_append, ← Cursor.past_append, htext]
    refine ⟨⟨before ++ gap ++ text, after, ?_, ?_⟩, List.forall_mem_nil _⟩
    · rw [List.append_assoc, List.append_assoc]
    · rw [List.append_assoc]
  | @item p gap c rest text after i s _ htext hwidth hitem _ ih =>
    rw [hp, ← Cursor.past_append] at hitem
    have hcovers := (lexeme_found c rest).covers htext hwidth hitem
    have hitem : i.PlacedIn file (before ++ (gap ++ c :: rest)) := by
      rw [← List.append_assoc, htext]
      exact ScanItem.placedIn_of_begins hcovers.1 hcovers.2.begins
    have hnext : (p.past gap).past text = Cursor.start.past (before ++ gap ++ text) := by
      rw [hp, Cursor.past_append, Cursor.past_append]
    obtain ⟨hfinish, hitems⟩ := ih hnext
    have hcs : before ++ gap ++ text ++ after = before ++ (gap ++ c :: rest) := by
      rw [htext, List.append_assoc, List.append_assoc]
    rw [hcs] at hfinish hitems
    exact ⟨hfinish, List.forall_mem_cons.mpr ⟨hitem, hitems⟩⟩

end Scan

/-! ## Sessions -/

namespace Scanner

/-- What a scanner can be asked to do. -/
inductive Request where
  | tokenize
  | nextToken
  | skipLayout
  | advance
  | advanceBy (n : Int)

/-- The tokens and errors that come of one reading. -/
def yielded : Except ScannerFailure Token → List ScanItem
  | .ok t => [.token t]
  | .error (.error e) => [.error e]
  | .error (.unreadable _) | .error .outOfRange => []

/-- What a request yields, and the scanner after it. A move by less than one character is none. -/
def answer (s : Scanner) : Request → List ScanItem × Scanner
  | .tokenize => (s.tokenize.2.tokens.map .token ++ s.tokenize.2.errors.map .error, s.tokenize.2)
  | .nextToken => (yielded s.nextToken.1, s.nextToken.2)
  | .skipLayout => ([], s.skipLayout)
  | .advance => ([], s.advance 1)
  | .advanceBy n => ([], s.advance n.toNat)

/-- All that the requests yield, one after the other, and the scanner in the end. -/
def session (s : Scanner) : List Request → List ScanItem × Scanner
  | [] => ([], s)
  | r :: requests => ((s.answer r).1 ++ ((s.answer r).2.session requests).1, ((s.answer r).2.session requests).2)

/-- The scanner of a text stands at a place in it. -/
structure Placed (file : String) (cs : List Char) (s : Scanner) : Prop where
  file_eq : s.file = file
  text_eq : s.text = cs
  exists_before : ∃ before, before <+: cs ∧ s.cursor = Cursor.start.past before

variable {file : String} {cs before rest : List Char} {s : Scanner}

theorem rest_of_cursor (htext : s.text = before ++ rest) (hcursor : s.cursor = Cursor.start.past before) :
    s.rest = rest := by
  rw [Scanner.rest, htext, hcursor, Cursor.offset_past, Cursor.start, Nat.zero_add, List.drop_left]

theorem Placed.exists_rest (h : s.Placed file cs) :
    ∃ before, cs = before ++ s.rest ∧ s.cursor = Cursor.start.past before := by
  obtain ⟨before, ⟨rest, rfl⟩, hcursor⟩ := h.exists_before
  exact ⟨before, by rw [rest_of_cursor h.text_eq hcursor], hcursor⟩

theorem Placed.advance (h : s.Placed file cs) (n : ℕ) : (s.advance n).Placed file cs := by
  obtain ⟨before, hcs, hcursor⟩ := h.exists_rest
  refine ⟨h.file_eq, h.text_eq, before ++ s.rest.take n, ?_, ?_⟩
  · rw [hcs, List.prefix_append_right_inj]
    exact List.take_prefix n _
  · rw [Scanner.advance, hcursor, Cursor.past_append]

theorem placed_ofSource (file source : String) : (ofSource file source).Placed file source.toList :=
  ⟨rfl, rfl, [], List.nil_prefix, rfl⟩

theorem nextToken_of_rest {c : Char} (h : s.rest = c :: rest) :
    s.nextToken.2 = s.advance (lexeme c rest).text.length ∧
      yielded s.nextToken.1 = ((lexeme c rest).item? s.file s.cursor).toList := by
  unfold nextToken
  rw [h]
  dsimp only
  cases lexeme c rest <;> exact ⟨rfl, rfl⟩

theorem Placed.nextToken (h : s.Placed file cs) :
    s.nextToken.2.Placed file cs ∧ ∀ i ∈ yielded s.nextToken.1, i.PlacedIn file cs := by
  cases hrest : s.rest with
  | nil =>
    rw [Scanner.nextToken, hrest]
    exact ⟨h, List.forall_mem_nil _⟩
  | cons c rest =>
    obtain ⟨hnext, hyielded⟩ := nextToken_of_rest hrest
    rw [hnext, hyielded]
    refine ⟨h.advance _, fun i hi => ?_⟩
    obtain ⟨before, hcs, hcursor⟩ := h.exists_rest
    obtain ⟨text, after, htext, hwidth⟩ := (lexeme_found c rest).exists_taken
    have hcovers := (lexeme_found c rest).covers htext hwidth (Option.mem_toList.mp hi)
    rw [hcursor, h.file_eq] at hcovers
    rw [hcs, hrest, htext]
    exact ScanItem.placedIn_of_begins hcovers.1 hcovers.2.begins

theorem Placed.tokenize (h : s.Placed file cs) : s.tokenize.2.Placed file cs ∧
    (∀ t ∈ s.tokenize.2.tokens, (ScanItem.token t).PlacedIn file cs) ∧
      ∀ e ∈ s.tokenize.2.errors, (ScanItem.error e).PlacedIn file cs := by
  have hstart : Cursor.start = Cursor.start.past [] := rfl
  obtain ⟨⟨done, left, hcs, hfinish⟩, hitems⟩ := (scans_scanFrom file .start cs).placed hstart
  rw [List.nil_append] at hcs hitems
  unfold Scanner.tokenize
  rw [h.file_eq, h.text_eq]
  refine ⟨⟨rfl, rfl, done, ⟨left, hcs.symm⟩, hfinish⟩, ?_, fun e he => hitems _ (Scan.mem_errors_iff.mp he)⟩
  have htokens : ∀ t ∈ (scanFrom file .start cs).tokens, (ScanItem.token t).PlacedIn file cs :=
    fun t ht => hitems _ (Scan.mem_tokens_iff.mp ht)
  dsimp only
  split
  · exact htokens
  · refine List.forall_mem_append.mpr ⟨htokens, List.forall_mem_singleton.mpr ?_⟩
    rw [hcs] at hfinish ⊢
    exact ScanItem.placedIn_of_begins (congrArg (Cursor.location · file) hfinish) List.nil_prefix

theorem Placed.answer (h : s.Placed file cs) (r : Request) :
    (s.answer r).2.Placed file cs ∧ ∀ i ∈ (s.answer r).1, i.PlacedIn file cs := by
  cases r with
  | tokenize =>
    obtain ⟨hplaced, htokens, herrors⟩ := h.tokenize
    refine ⟨hplaced, List.forall_mem_append.mpr ⟨?_, ?_⟩⟩
    · exact List.forall_mem_map.mpr htokens
    · exact List.forall_mem_map.mpr herrors
  | nextToken => exact h.nextToken
  | skipLayout => exact ⟨h.advance _, List.forall_mem_nil _⟩
  | advance => exact ⟨h.advance 1, List.forall_mem_nil _⟩
  | advanceBy n => exact ⟨h.advance n.toNat, List.forall_mem_nil _⟩

/-- No request moves a scanner out of place. The induction is on the requests. -/
theorem Placed.session (h : s.Placed file cs) (requests : List Request) :
    (s.session requests).2.Placed file cs ∧ ∀ i ∈ (s.session requests).1, i.PlacedIn file cs := by
  induction requests generalizing s with
  | nil => exact ⟨h, List.forall_mem_nil _⟩
  | cons r requests ih =>
    obtain ⟨hplaced, hitems⟩ := h.answer r
    obtain ⟨hplaced', hitems'⟩ := ih hplaced
    exact ⟨hplaced', List.forall_mem_append.mpr ⟨hitems, hitems'⟩⟩

/-- After any requests, those that fail among them, the scanner of a source stands at a place in it, with the line and
the column of its offset; and every token and error that they yielded has the location where its lexeme begins. -/
theorem session_places (file source : String) (requests : List Request) :
    (((ofSource file source).session requests).2.cursor.location file).IsPlaceIn file source.toList ∧
      ∀ i ∈ ((ofSource file source).session requests).1, i.PlacedIn file source.toList := by
  obtain ⟨hplaced, hitems⟩ := (placed_ofSource file source).session requests
  obtain ⟨before, ⟨rest, hcs⟩, hcursor⟩ := hplaced.exists_before
  refine ⟨?_, hitems⟩
  rw [← hcs, hcursor]
  exact Cursor.isPlaceIn_start_past file before rest

end Scanner
end Lookahead
