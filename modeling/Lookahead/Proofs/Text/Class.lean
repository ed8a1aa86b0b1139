import Lookahead.Text.Class
import Lookahead.Text.Numeric

/-! Facts about all characters of a class, one range after the other. -/
namespace Lookahead.Text
variable {c : Char} {ranges : List (Nat × Nat)}

theorem exists_of_covers (h : covers ranges c = true) : ∃ r ∈ ranges, ∃ n < r.2 + 1 - r.1, c = Char.ofNat (r.1 + n) := by
  obtain ⟨r, hr, hc⟩ := List.any_eq_true.mp h
  obtain ⟨hfrom, hto⟩ : r.1 ≤ c.toNat ∧ c.toNat ≤ r.2 := by simpa [inRange] using hc
  refine ⟨r, hr, c.toNat - r.1, by omega, ?_⟩
  rw [Nat.add_sub_cancel' hfrom, Char.ofNat_toNat]

/-- What a table is checked for range by range holds of every character of the class. -/
theorem forall_of_covers {q : Char → Bool}
    (hall : ∀ r ∈ ranges, ∀ n < r.2 + 1 - r.1, q (Char.ofNat (r.1 + n)) = true) (h : covers ranges c = true) :
    q c = true := by
  obtain ⟨r, hr, n, hn, rfl⟩ := exists_of_covers h
  exact hall r hr n hn

/-- Tables without a common range have no common character. -/
theorem not_covers_of_covers {others : List (Nat × Nat)}
    (hapart : (ranges.all fun r => others.all fun s => Nat.blt r.2 s.1 || Nat.blt s.2 r.1) = true)
    (h : covers ranges c = true) : covers others c = false := by
  obtain ⟨r, hr, hc⟩ := List.any_eq_true.mp h
  obtain ⟨hfrom, hto⟩ : r.1 ≤ c.toNat ∧ c.toNat ≤ r.2 := by simpa [inRange] using hc
  refine List.any_eq_false.mpr fun s hs hc' => ?_
  obtain ⟨hfrom', hto'⟩ : s.1 ≤ c.toNat ∧ c.toNat ≤ s.2 := by simpa [inRange] using hc'
  have hcases := List.all_eq_true.mp (List.all_eq_true.mp hapart r hr) s hs
  simp only [Bool.or_eq_true, Nat.blt_eq] at hcases
  omega

/-! ## Blanks -/

theorem not_isDigit_of_isBlank (h : isBlank c = true) : isDigit c = false := by
  have hdecimal : covers decimalRanges c = false := not_covers_of_covers (by decide +kernel) h
  have hsign : covers digitSignRanges c = false := not_covers_of_covers (by decide +kernel) h
  rw [isDigit, hdecimal, hsign, Bool.or_self]

theorem not_isAlphanumeric_of_isBlank (h : isBlank c = true) : isAlphanumeric c = false := by
  have hletter : isLetter c = false := not_covers_of_covers (by decide +kernel) h
  have hnumber : covers numberSignRanges c = false := not_covers_of_covers (by decide +kernel) h
  rw [isAlphanumeric, hletter, not_isDigit_of_isBlank h, hnumber, Bool.or_self, Bool.or_self]

/-! ## Digits -/

theorem not_isLetter_of_isDigit (h : isDigit c = true) : isLetter c = false := by
  rcases Bool.or_eq_true_iff.mp h with h | h
  · exact not_covers_of_covers (by decide +kernel) h
  · exact not_covers_of_covers (by decide +kernel) h

theorem decimalValue?_eq_none_iff : decimalValue? c = none ↔ covers decimalRanges c = false := by
  rw [decimalValue?, Option.map_eq_none_iff, List.find?_eq_none, covers, List.any_eq_false]

end Lookahead.Text
