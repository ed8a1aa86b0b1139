import Lookahead.Proofs.Scan.Position
import Lookahead.Proofs.Scan.Seam

/-! Scanning line by line. A text below another is scanned as if it were alone, errors included, and all it yields stands
so many lines and characters further. -/
namespace Lookahead

variable {file source₁ source₂ : String} {s₁ s₂ : Scanned}

theorem Scan.endToken_append_shift (s t : Scan) (file : String) (lines offset : ℕ) :
    (s.append (t.shift file lines offset)).endToken file =
      (t.endToken file).relocate (.shift file lines offset) := by
  rw [endToken, endToken, append, shift, Cursor.location_shift _ file, Token.relocate]

/-- A place in a text is in the line of its offset. -/
theorem Cursor.past_start (cs : List Char) :
    (start.past cs).line = 1 + cs.count '\n' ∧ (start.past cs).offset = cs.length := by
  rw [line_past, offset_past, start, Nat.zero_add]
  exact ⟨rfl, rfl⟩

/-- Where the scans of two texts return, and no string of the first is left open, the scan of the one above the other
returns the tokens of the first but for its end, and those of the second, and the errors of both in that order. What
comes from the second text stands in the same column, one line further for each end of a line above it. -/
theorem scan_append (h₁ : scan file source₁ = .ok s₁) (h₂ : scan file source₂ = .ok s₂)
    (hclosed : ∀ e ∈ s₁.errors, e.diagnostic.code ≠ some "L002") :
    scan file (source₁ ++ "\n" ++ source₂) = .ok
      ⟨s₁.tokens.dropLast ++
          s₂.tokens.map (Token.relocate (.shift file (1 + source₁.toList.count '\n') (source₁.length + 1))),
        s₁.errors ++
          s₂.errors.map (ScanError.relocate (.shift file (1 + source₁.toList.count '\n') (source₁.length + 1)))⟩ := by
  obtain ⟨hread₁, rfl⟩ := scan_eq_ok_iff.mp h₁
  obtain ⟨hread₂, rfl⟩ := scan_eq_ok_iff.mp h₂
  have hopen : ∀ q l, .error ⟨.openString q, l⟩ ∉ (scanFrom file .start source₁.toList).items :=
    fun q l hmem => hclosed _ (Scan.mem_errors_iff.mpr hmem) rfl
  have hscan := ((scans_scanFrom file .start source₁.toList).append_below hread₁ hopen
    (scans_scanFrom file .start source₂.toList)).eq
  obtain ⟨hline, hoffset⟩ := Cursor.past_start source₁.toList
  rw [hline, hoffset, String.length_toList] at hscan
  have htext : (source₁ ++ "\n" ++ source₂).toList = source₁.toList ++ '\n' :: source₂.toList := by simp
  rw [scan_eq_ok_iff, htext, hscan]
  refine ⟨hread₂, ?_⟩
  rw [Scan.tokens_append, Scan.tokens_shift, Scan.errors_append, Scan.errors_shift, Scan.endToken_append_shift,
    List.dropLast_concat, List.map_append, List.map_singleton, List.append_assoc]

/-- An operator that could have gone on, at the end of a line with an error. -/
theorem scan_append_halves :
    scan "" "2b <" = .ok ⟨[⟨.operator, "<", none, ⟨"", 1, 4, 3⟩⟩, ⟨.eof, "", none, ⟨"", 1, 5, 4⟩⟩],
      [⟨.badNumber "2b" "Identifiers cannot start with a digit", ⟨"", 1, 1, 0⟩⟩]⟩ ∧
    scan "" "= 'x" = .ok ⟨[⟨.equals, "=", none, ⟨"", 1, 1, 0⟩⟩, ⟨.eof, "", none, ⟨"", 1, 5, 4⟩⟩],
      [⟨.openString "'", ⟨"", 1, 3, 2⟩⟩]⟩ ∧
    scan "" ("2b <" ++ "\n" ++ "= 'x") = .ok ⟨[⟨.operator, "<", none, ⟨"", 1, 4, 3⟩⟩,
      ⟨.equals, "=", none, ⟨"", 2, 1, 5⟩⟩, ⟨.eof, "", none, ⟨"", 2, 5, 9⟩⟩],
      [⟨.badNumber "2b" "Identifiers cannot start with a digit", ⟨"", 1, 1, 0⟩⟩, ⟨.openString "'", ⟨"", 2, 3, 7⟩⟩]⟩ := by
  have h₁ : scan "" "2b <" = .ok ⟨[⟨.operator, "<", none, ⟨"", 1, 4, 3⟩⟩, ⟨.eof, "", none, ⟨"", 1, 5, 4⟩⟩],
      [⟨.badNumber "2b" "Identifiers cannot start with a digit", ⟨"", 1, 1, 0⟩⟩]⟩ := by decide +kernel
  have h₂ : scan "" "= 'x" = .ok ⟨[⟨.equals, "=", none, ⟨"", 1, 1, 0⟩⟩, ⟨.eof, "", none, ⟨"", 1, 5, 4⟩⟩],
      [⟨.openString "'", ⟨"", 1, 3, 2⟩⟩]⟩ := by decide +kernel
  refine ⟨h₁, h₂, ?_⟩
  have hclosed : ∀ e ∈ [(⟨.badNumber "2b" "Identifiers cannot start with a digit", ⟨"", 1, 1, 0⟩⟩ : ScanError)],
      e.diagnostic.code ≠ some "L002" := List.forall_mem_singleton.mpr (by decide)
  exact scan_append h₁ h₂ hclosed

end Lookahead
