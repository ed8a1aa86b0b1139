import Lookahead.Proofs.Scan.Legible
import Lookahead.Proofs.Scan.Tiling

/-! When a scan returns. All that stops one is a numeral in which a digit has no value. -/
namespace Lookahead

variable {file : String} {p : Cursor} {cs : List Char} {s : Scan}

/-- Where a scan that does not return has stopped. The induction is on the pieces of the scan. -/
theorem Scans.exists_of_unreadable {lexeme : String} (h : Scans file p cs s) (hs : s.unreadable = some lexeme) :
    ∃ before numeral after, cs = before ++ numeral ++ after ∧ lexeme = String.ofList numeral ∧
      Numeral.Written numeral ∧ ∃ c ∈ numeral, Text.IsValueless c := by
  induction h with
  | finish => cases hs
  | @unreadable p gap c rest _ _ _ _ _ hitem =>
    have hfound := lexeme_found c rest
    have hformed := lexeme_formed c rest
    cases hlexeme : Lookahead.lexeme c rest with
    | unreadable numeral =>
      rw [hlexeme] at hfound hformed hs
      obtain ⟨after, hafter⟩ := hfound.text_prefix
      have htext : String.ofList numeral = lexeme := Option.some.inj hs
      refine ⟨gap, numeral, after, ?_, htext.symm, hformed.exists_isValueless⟩
      rw [List.append_assoc, show numeral ++ after = c :: rest from hafter]
    | token kind text value =>
      rw [hlexeme] at hitem
      cases hitem
    | fault f text =>
      rw [hlexeme] at hitem
      cases hitem
  | @item p gap c rest text after i s _ htext _ _ _ ih =>
    obtain ⟨before, numeral, rest', hafter, hnumeral⟩ := ih hs
    refine ⟨gap ++ text ++ before, numeral, rest', ?_, hnumeral⟩
    rw [htext, hafter]
    simp only [List.append_assoc]

theorem scanFrom_of_isValueless {c : Char} (h : Text.IsValueless c) :
    scanFrom file p [c] = ⟨[], p.past [c], some (String.singleton c)⟩ := by
  have hgap : layout ([] ++ [c]) = [] := layout_eq_nil_iff.mpr ⟨Text.isBlank_of_isValueless h, by simp⟩
  have hread : Numeral.read? (String.ofList [c]) = none :=
    (Numeral.read?_eq_none_iff (.whole (List.cons_ne_nil c []) (by simpa using h.1))).mpr ⟨c, List.mem_cons_self, h⟩
  have hlexeme : lexeme c [] = .unreadable [c] := by
    have hnumeral : Lexeme.numeral [c] = .unreadable [c] := by rw [Lexeme.numeral, hread]
    rw [lexeme, if_pos h.1, Lexeme.number]
    simp [h.1, Lexeme.fraction, hnumeral]
  have htext : [c] = [c] ++ [] := rfl
  have hwidth : [c].length = max 1 (lexeme c []).text.length := by
    rw [hlexeme]
    rfl
  refine (scanFrom_of_lexeme hgap htext hwidth).trans ?_
  rw [hlexeme]
  rfl

/-- A scan returns the spans of its text and its tokens, of which the last and only the last ends the text, or it has
come to a numeral in which a digit has no value. Every such digit stops the scan of the text that it is alone. -/
theorem scan_returns_or_stops (file source : String) :
    ((∃ s spans eof, scan file source = .ok s ∧ Tiling file source s spans eof ∧
        ∀ t ∈ s.tokens.dropLast, t.kind ≠ .eof) ∨
      ∃ before numeral after, source = String.ofList (before ++ numeral ++ after) ∧ Numeral.Written numeral ∧
        (∃ c ∈ numeral, Text.IsValueless c) ∧ scan file source = .error (String.ofList numeral)) ∧
      ∀ c, Text.IsValueless c → scan file (String.singleton c) = .error (String.singleton c) := by
  have hscans := scans_scanFrom file .start source.toList
  refine ⟨?_, fun c hc => ?_⟩
  · cases hread : (scanFrom file .start source.toList).unreadable with
    | none =>
      have hscan := scan_eq_ok_iff.mpr ⟨hread, rfl⟩
      obtain ⟨spans, eof, htiling⟩ := exists_tiling hscan
      refine Or.inl ⟨_, spans, eof, hscan, htiling, ?_⟩
      rw [List.dropLast_concat]
      exact fun t ht => (hscans.legible t ht).2
    | some lexeme =>
      obtain ⟨before, numeral, after, hsource, rfl, hnumeral⟩ := hscans.exists_of_unreadable hread
      refine Or.inr ⟨before, numeral, after, ?_, hnumeral.1, hnumeral.2, ?_⟩
      · rw [← hsource, String.ofList_toList]
      · rw [scan, Scan.scanned, hread]
  · rw [scan, String.toList_singleton, scanFrom_of_isValueless hc]
    rfl

theorem scan_returns_or_stops_circled :
    Text.IsValueless '①' ∧ scan "" (String.singleton '①') = .error (String.singleton '①') := by
  have hcircled : Text.IsValueless '①' := ⟨by decide +kernel, by decide +kernel⟩
  exact ⟨hcircled, (scan_returns_or_stops "" "①").2 '①' hcircled⟩

/-- A raised two is a digit of the scanner that no number can be read from. -/
theorem scan_superscript : scan "<unknown>" "²" = .error "²" ∧ ∀ s, scan "<unknown>" "²" ≠ .ok s := by
  have hscan : scan "<unknown>" "²" = .error "²" := by decide +kernel
  refine ⟨hscan, fun s hs => ?_⟩
  rw [hscan] at hs
  cases hs

end Lookahead
