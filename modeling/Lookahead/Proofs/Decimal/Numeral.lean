import Lookahead.Decimal.Numeral
import Lookahead.Proofs.Text.Class
import Mathlib.Data.List.TakeDrop
import Mathlib.Data.List.TakeWhile

/-! Which numerals have a value. Of digits, with at most one point between them, a number is read if and only if each
of them has a place value. -/
namespace Lookahead

/-! ## Digits -/

namespace Text
variable {c : Char} {d : ℕ}

/-- A digit that only looks like one. -/
def IsValueless (c : Char) : Prop := isDigit c = true ∧ decimalValue? c = none

theorem decimalValue?_lt (h : decimalValue? c = some d) : d < 10 := by
  obtain ⟨r, -, rfl⟩ := Option.map_eq_some_iff.mp h
  exact Nat.mod_lt _ (by omega)

theorem covers_of_isValueless (h : IsValueless c) : covers digitSignRanges c = true := by
  have hdigit : (covers decimalRanges c || covers digitSignRanges c) = true := h.1
  rwa [decimalValue?_eq_none_iff.mp h.2, Bool.false_or] at hdigit

theorem isBlank_of_isValueless (h : IsValueless c) : isBlank c = false :=
  Bool.eq_false_iff.mpr fun hblank => Bool.eq_false_iff.mp (not_isDigit_of_isBlank hblank) h.1

end Text

namespace Numeral

/-- Digits, or digits with a point between them. -/
inductive Written : List Char → Prop
  | whole {w} : w ≠ [] → (∀ c ∈ w, Text.isDigit c = true) → Written w
  | fraction {w d} : w ≠ [] → (∀ c ∈ w, Text.isDigit c = true) → d ≠ [] → (∀ c ∈ d, Text.isDigit c = true) →
      Written (w ++ '.' :: d)

variable {c x : Char} {text w d xs rest : List Char}

/-! ## Plain characters -/

/-- A character without a meaning of its own around a number: no padding, no separator, no sign, and the first letter
of no word. -/
def isSteady (x : Char) : Bool :=
  !isPadding x && x != '_' && x != '-' && x != '+' && x.toLower != 'i' && x.toLower != 'n'

/-- A character that no number goes on with. -/
def isStop (x : Char) : Bool := !isPlainDigit x && x != '.' && x != 'e' && x != 'E'

theorem plainChar_of_isValueless (h : Text.IsValueless c) : plainChar c = c := by
  rw [plainChar, h.2]
  simp [Text.isBlank_of_isValueless h]

theorem isStop_of_isValueless (h : Text.IsValueless c) : isStop (plainChar c) = true := by
  rw [plainChar_of_isValueless h]
  exact Text.forall_of_covers (by decide +kernel) (Text.covers_of_isValueless h)

theorem isPlainDigit_of_value {n : ℕ} (h : Text.decimalValue? c = some n) : isPlainDigit (plainChar c) = true := by
  rw [plainChar, h]
  exact (by decide : ∀ n < 10, isPlainDigit (Nat.digitChar n) = true) n (Text.decimalValue?_lt h)

theorem isSteady_of_isDigit (h : Text.isDigit c = true) : isSteady (plainChar c) = true := by
  cases hvalue : Text.decimalValue? c with
  | some n =>
    rw [plainChar, hvalue]
    exact (by decide : ∀ n < 10, isSteady (Nat.digitChar n) = true) n (Text.decimalValue?_lt hvalue)
  | none =>
    rw [plainChar_of_isValueless ⟨h, hvalue⟩]
    exact Text.forall_of_covers (by decide +kernel) (Text.covers_of_isValueless ⟨h, hvalue⟩)

theorem Written.isSteady (h : Written text) : ∀ x ∈ text.map plainChar, isSteady x = true := by
  rw [List.forall_mem_map]
  cases h with
  | whole _ hw => exact fun c hc => isSteady_of_isDigit (hw c hc)
  | fraction _ hw _ hd =>
    rw [List.forall_mem_append, List.forall_mem_cons]
    exact ⟨fun c hc => isSteady_of_isDigit (hw c hc), by decide +kernel, fun c hc => isSteady_of_isDigit (hd c hc)⟩

/-! ## What is read -/

theorem trim_of_forall (h : ∀ x ∈ xs, isPadding x = false) : trim xs = xs := by
  have hdrop : ∀ ys : List Char, (∀ y ∈ ys, isPadding y = false) → ys.dropWhile isPadding = ys := by
    rintro (_ | ⟨y, ys⟩) hys
    · rfl
    · rw [List.dropWhile_cons_of_neg (by simp [hys y List.mem_cons_self])]
  rw [trim, hdrop xs h, hdrop _ fun y hy => h y (List.mem_reverse.mp hy), List.reverse_reverse]

theorem joinDigits_of_not_mem (h : '_' ∉ xs) (previous : Char) : joinDigits previous xs = some xs := by
  induction xs generalizing previous with
  | nil => rfl
  | cons x xs ih =>
    rw [List.mem_cons, not_or] at h
    unfold joinDigits
    rw [if_neg (Ne.symm h.1), ih h.2]
    rfl

theorem splitSign_of_ne (hminus : x ≠ '-') (hplus : x ≠ '+') : splitSign (x :: xs) = (false, x :: xs) := by
  unfold splitSign
  split
  · rename_i h
    cases h
    exact absurd rfl hminus
  · rename_i h
    cases h
    exact absurd rfl hplus
  · rfl

/-- The digits after a point, if one is next, and what comes after them. -/
def fraction (xs : List Char) : List Char × List Char :=
  match xs with
  | '.' :: xs => xs.span isPlainDigit
  | _ => ([], xs)

/-- Digits, a fraction and an exponent. -/
def decimal? (xs : List Char) : Option Binary64 :=
  let (whole, rest) := xs.span isPlainDigit
  let (part, rest) := fraction rest
  if whole.isEmpty && part.isEmpty then none
  else (exponent? rest).map fun e => scaled false (digitsValue (whole ++ part)) (e - part.length)

theorem unsigned?_of_ne (hi : x.toLower ≠ 'i') (hn : x.toLower ≠ 'n') :
    unsigned? false (x :: xs) = decimal? (x :: xs) := by
  have hword : ∀ y ys, y ≠ x.toLower → (x :: xs).map Char.toLower ≠ y :: ys := by
    intro y ys hy h
    exact hy (List.cons.inj h).1.symm
  unfold unsigned?
  dsimp only
  rw [if_neg, if_neg]
  · rfl
  · exact hword _ _ hn.symm
  · simp only [Bool.or_eq_true, decide_eq_true_eq, not_or]
    exact ⟨hword _ _ hi.symm, hword _ _ hi.symm⟩

theorem Written.ne_nil (h : Written text) : text ≠ [] := by
  cases h with
  | whole h => exact h
  | fraction => simp

theorem read?_of_written (h : Written text) : read? (String.ofList text) = decimal? (text.map plainChar) := by
  have hsteady := h.isSteady
  have hne : text.map plainChar ≠ [] := fun hnil => h.ne_nil (List.map_eq_nil_iff.mp hnil)
  rw [read?, String.toList_ofList]
  generalize text.map plainChar = xs at hsteady hne
  simp only [Numeral.isSteady, Bool.and_eq_true, Bool.not_eq_true', bne_iff_ne] at hsteady
  rw [trim_of_forall fun x hx => (hsteady x hx).1.1.1.1.1,
    joinDigits_of_not_mem fun hx => (hsteady _ hx).1.1.1.1.2 rfl]
  cases xs with
  | nil => exact absurd rfl hne
  | cons x xs =>
    obtain ⟨⟨⟨⟨-, hminus⟩, hplus⟩, hi⟩, hn⟩ := hsteady x List.mem_cons_self
    simp only [Option.bind_eq_bind, Option.bind_some, splitSign_of_ne hminus hplus]
    exact unsigned?_of_ne hi hn

/-! ## Digits up to the end, or up to a character that no number goes on with -/

theorem span_digits (hw : ∀ x ∈ w, isPlainDigit x = true) (hx : isPlainDigit x = false) :
    (w ++ x :: rest).span isPlainDigit = (w, x :: rest) := by
  rw [List.span_eq_takeWhile_dropWhile, List.takeWhile_append_of_pos hw, List.dropWhile_append_of_pos hw,
    List.takeWhile_cons_of_neg (by simp [hx]), List.dropWhile_cons_of_neg (by simp [hx]), List.append_nil]

theorem span_digits_end (hw : ∀ x ∈ w, isPlainDigit x = true) : w.span isPlainDigit = (w, []) := by
  rw [List.span_eq_takeWhile_dropWhile, List.takeWhile_eq_self_iff.mpr hw, List.dropWhile_eq_nil_iff.mpr hw]

theorem fraction_of_ne (hx : x ≠ '.') : fraction (x :: rest) = ([], x :: rest) := by
  unfold fraction
  split
  · rename_i h
    cases h
    exact absurd rfl hx
  · rfl

theorem exponent?_of_isStop (hx : isStop x = true) : exponent? (x :: rest) = none := by
  simp only [isStop, Bool.and_eq_true, bne_iff_ne] at hx
  rw [exponent?]
  simp [hx.1.2, hx.2]

theorem isSome_decimal? (hw : xs.span isPlainDigit = (w, rest)) (hd : fraction rest = (d, [])) (hne : w ≠ []) :
    (decimal? xs).isSome = true := by
  rw [decimal?, hw]
  simp [hd, hne, exponent?]

theorem decimal?_eq_none (hw : xs.span isPlainDigit = (w, rest)) (hd : fraction rest = (d, x :: text))
    (hx : isStop x = true) : decimal? xs = none := by
  rw [decimal?, hw]
  simp [hd, exponent?_of_isStop hx]

/-! ## Values -/

/-- Either all digits have values, or a number ends at the first one that has none. -/
theorem plain_or_stop (hw : ∀ c ∈ w, Text.isDigit c = true) :
    (∀ x ∈ w.map plainChar, isPlainDigit x = true) ∧ (∀ c ∈ w, ¬ Text.IsValueless c) ∨
      (∃ c ∈ w, Text.IsValueless c) ∧ ∃ ys x zs, w.map plainChar = ys ++ x :: zs ∧
        (∀ y ∈ ys, isPlainDigit y = true) ∧ isStop x = true := by
  induction w with
  | nil => exact Or.inl ⟨List.forall_mem_nil _, List.forall_mem_nil _⟩
  | cons c w ih =>
    obtain ⟨hc, hw⟩ := List.forall_mem_cons.mp hw
    cases hvalue : Text.decimalValue? c with
    | none =>
      refine Or.inr ⟨⟨c, List.mem_cons_self, hc, hvalue⟩, [], plainChar c, w.map plainChar, rfl, List.forall_mem_nil _, ?_⟩
      exact isStop_of_isValueless ⟨hc, hvalue⟩
    | some n =>
      have hplain := isPlainDigit_of_value hvalue
      rcases ih hw with ⟨hall, hno⟩ | ⟨⟨b, hb, hbad⟩, ys, x, zs, hys, hall, hx⟩
      · refine Or.inl ⟨List.forall_mem_cons.mpr ⟨hplain, hall⟩, List.forall_mem_cons.mpr ⟨fun h => ?_, hno⟩⟩
        rw [h.2] at hvalue
        cases hvalue
      · refine Or.inr ⟨⟨b, List.mem_cons_of_mem c hb, hbad⟩, plainChar c :: ys, x, zs, ?_, ?_, hx⟩
        · rw [List.map_cons, hys, List.cons_append]
        · exact List.forall_mem_cons.mpr ⟨hplain, hall⟩

theorem not_isValueless_point : ¬ Text.IsValueless '.' := by
  intro h
  exact Bool.false_ne_true ((by decide +kernel : Text.isDigit '.' = false).symm.trans h.1)

/-- A numeral of digits has no value exactly if one of its digits has none. -/
theorem read?_eq_none_iff (h : Written text) :
    read? (String.ofList text) = none ↔ ∃ c ∈ text, Text.IsValueless c := by
  rw [read?_of_written h]
  have hpoint : isPlainDigit '.' = false := by decide
  have hstop {x : Char} (hx : isStop x = true) : isPlainDigit x = false ∧ x ≠ '.' := by
    simp only [isStop, Bool.and_eq_true, Bool.not_eq_true', bne_iff_ne] at hx
    exact hx.1.1
  cases h with
  | whole hne hw =>
    rcases plain_or_stop hw with ⟨hall, hno⟩ | ⟨hbad, ys, x, zs, hys, hall, hx⟩
    · have hsome := isSome_decimal? (span_digits_end hall) rfl (by simpa using hne)
      exact iff_of_false (Option.isSome_iff_ne_none.mp hsome) fun ⟨c, hc, h⟩ => hno c hc h
    · obtain ⟨hdigit, hdot⟩ := hstop hx
      rw [hys, decimal?_eq_none (span_digits hall hdigit) (fraction_of_ne hdot) hx]
      exact iff_of_true rfl hbad
  | @fraction w d hne hw _ hd =>
    have hdots : (w ++ '.' :: d).map plainChar = w.map plainChar ++ '.' :: d.map plainChar := by
      rw [List.map_append, List.map_cons, show plainChar '.' = '.' by decide +kernel]
    rw [hdots]
    rcases plain_or_stop hw with ⟨hall, hno⟩ | ⟨⟨c, hc, hbad⟩, ys, x, zs, hys, hall, hx⟩
    · rcases plain_or_stop hd with ⟨hall', hno'⟩ | ⟨⟨c, hc, hbad⟩, ys, x, zs, hys, hall', hx⟩
      · have hsome := isSome_decimal? (span_digits hall hpoint) (span_digits_end hall') (by simpa using hne)
        refine iff_of_false (Option.isSome_iff_ne_none.mp hsome) fun ⟨c, hc, h⟩ => ?_
        rcases List.mem_append.mp hc with hc | hc
        · exact hno c hc h
        rcases List.mem_cons.mp hc with rfl | hc
        · exact not_isValueless_point h
        · exact hno' c hc h
      · rw [hys, decimal?_eq_none (span_digits hall hpoint) (span_digits hall' (hstop hx).1) hx]
        exact iff_of_true rfl ⟨c, List.mem_append_right w (List.mem_cons_of_mem _ hc), hbad⟩
    · obtain ⟨hdigit, hdot⟩ := hstop hx
      rw [hys, List.append_assoc, List.cons_append,
        decimal?_eq_none (span_digits hall hdigit) (fraction_of_ne hdot) hx]
      exact iff_of_true rfl ⟨c, List.mem_append_left _ hc, hbad⟩

end Numeral
end Lookahead
