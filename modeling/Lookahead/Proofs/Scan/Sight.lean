import Lookahead.Proofs.Scan.Run
import Lookahead.Proofs.Text.Class

/-! How far a lexeme sees. What comes after its last character matters to it only up to the first blank. -/
namespace Lookahead

/-! ## Blanks -/

section Blank
variable {b : Char}

theorem ne_of_isBlank {c : Char} (hb : Text.isBlank b = true) (hc : Text.isBlank c = false) : b ≠ c := by
  rintro rfl
  exact Bool.false_ne_true (hc.symm.trans hb)

theorem not_isWordPart_of_isBlank (hb : Text.isBlank b = true) : isWordPart b = false := by
  have hne : b ≠ '_' := ne_of_isBlank hb (by decide +kernel)
  simp [isWordPart, Text.not_isAlphanumeric_of_isBlank hb, hne]

theorem isWordPart_of_isWordStart {c : Char} (hc : isWordStart c = true) : isWordPart c = true := by
  unfold isWordStart at hc
  unfold isWordPart Text.isAlphanumeric
  rcases Bool.or_eq_true_iff.mp hc with hc | hc <;> simp [hc]

theorem not_isWordStart_of_isBlank (hb : Text.isBlank b = true) : isWordStart b = false :=
  Bool.eq_false_iff.mpr fun h => Bool.eq_false_iff.mp (not_isWordPart_of_isBlank hb) (isWordPart_of_isWordStart h)

theorem not_isOperator_of_isBlank (hb : Text.isBlank b = true) (c : Char) : Lexeme.isOperator [c, b] = false := by
  have hnone : (operators.all fun o => o.toList.all fun d => !Text.isBlank d) = true := by decide +kernel
  refine Bool.eq_false_iff.mpr fun h => ?_
  have hmem : String.ofList [c, b] ∈ operators := List.contains_iff_mem.mp h
  have hall := List.all_eq_true.mp hnone _ hmem
  simp [hb] at hall

end Blank

/-- A text that is another one up to a blank, or to its own end. -/
inductive Fades : List Char → List Char → Prop
  | nil {cs} : Fades cs []
  | blank {cs b ds} : Text.isBlank b = true → Fades cs (b :: ds)
  | cons {c cs ds} : Fades cs ds → Fades (c :: cs) (c :: ds)

theorem fades_append {b : Char} (hb : Text.isBlank b = true) (cs ds : List Char) : Fades cs (cs ++ b :: ds) := by
  induction cs with
  | nil => exact .blank hb
  | cons c cs ih => exact .cons ih

variable {c : Char} {cs gap ts after after' : List Char} {p : Char → Bool}

/-! ## Layout -/

theorem layout_fades (hf : Fades after after') (h : layout (gap ++ c :: (ts ++ after)) = gap) :
    layout (gap ++ c :: (ts ++ after')) = gap := by
  have hgap := passed_of_rest h
  have hnone : layout (c :: (ts ++ after)) = [] := by
    rw [hgap] at h
    exact List.append_right_eq_self.mp h
  obtain ⟨hblank, hslash⟩ := layout_eq_nil_iff.mp hnone
  have hslash' : ¬ (c = '/' ∧ (ts ++ after').head? = some '/') := by
    rintro ⟨hc, hhead⟩
    refine hslash ⟨hc, ?_⟩
    cases ts with
    | cons => exact hhead
    | nil =>
      cases hf with
      | nil => cases hhead
      | blank hb => exact absurd (Option.some.inj hhead) (ne_of_isBlank hb (by decide +kernel))
      | cons => exact hhead
  rw [hgap, layout_eq_nil_iff.mpr ⟨hblank, hslash'⟩, List.append_nil]

/-! ## Runs of characters -/

/-- A run of characters that ends in `ts` leaves the rest of `ts`. -/
theorem dropWhile_append_of_le (h : ((ts ++ after).takeWhile p).length ≤ ts.length) :
    (ts ++ after).dropWhile p = ts.drop ((ts ++ after).takeWhile p).length ++ after := by
  have hall : (ts ++ after).takeWhile p ++ (ts ++ after).dropWhile p = ts ++ after := List.takeWhile_append_dropWhile
  rw [← List.drop_append_of_le_length h]
  generalize (ts ++ after).takeWhile p = run, (ts ++ after).dropWhile p = rest at hall ⊢
  rw [← hall, List.drop_left]

theorem takeWhile_fades_nil (hp : ∀ b, Text.isBlank b = true → p b = false) (hf : Fades after after')
    (h : after.takeWhile p = []) : after'.takeWhile p = [] := by
  cases hf with
  | nil => rfl
  | blank hb => exact List.takeWhile_cons_of_neg (by simp [hp _ hb])
  | @cons c =>
    have hc : p c = false := by
      by_contra hc
      rw [List.takeWhile_cons_of_pos (by simpa using hc)] at h
      cases h
    exact List.takeWhile_cons_of_neg (by simp [hc])

/-- A run that ends in `ts` ends there whatever the text after it fades to. -/
theorem takeWhile_fades (hp : ∀ b, Text.isBlank b = true → p b = false) (hf : Fades after after')
    (h : ((ts ++ after).takeWhile p).length ≤ ts.length) : (ts ++ after').takeWhile p = (ts ++ after).takeWhile p := by
  induction ts with
  | nil =>
    have hnone : after.takeWhile p = [] := List.length_eq_zero_iff.mp (Nat.le_zero.mp h)
    exact (takeWhile_fades_nil hp hf hnone).trans hnone.symm
  | cons t ts ih =>
    rw [List.cons_append, List.cons_append, List.takeWhile_cons, List.takeWhile_cons]
    rw [List.cons_append, List.takeWhile_cons] at h
    split_ifs with ht
    · rw [if_pos ht, List.length_cons, List.length_cons] at h
      rw [ih (by omega)]
    · rfl

namespace Lexeme

/-! ## Numbers -/

theorem fraction_of_ne (hc : c ≠ '.') (cs : List Char) : fraction (c :: cs) = [] := by
  unfold fraction
  split
  · rename_i h
    cases h
    exact absurd rfl hc
  · rfl

theorem fraction_point (cs : List Char) :
    fraction ('.' :: cs) = if cs.takeWhile Text.isDigit = [] then [] else '.' :: cs.takeWhile Text.isDigit := by
  cases cs with
  | nil => rfl
  | cons d cs =>
    rw [fraction, List.takeWhile_cons]
    split_ifs <;> simp_all

theorem fraction_fades (hf : Fades after after') (h : (fraction (ts ++ after)).length ≤ ts.length) :
    fraction (ts ++ after') = fraction (ts ++ after) := by
  have hdigit : ∀ b, Text.isBlank b = true → Text.isDigit b = false := fun b => Text.not_isDigit_of_isBlank
  have hpoint : Text.isBlank '.' = false := by decide +kernel
  cases ts with
  | nil =>
    have hnone : fraction after = [] := List.length_eq_zero_iff.mp (Nat.le_zero.mp h)
    simp only [List.nil_append, hnone]
    cases hf with
    | nil => rfl
    | blank hb => exact fraction_of_ne (ne_of_isBlank hb hpoint) _
    | @cons c cs ds hf =>
      by_cases hc : c = '.'
      · subst hc
        have hdigits : cs.takeWhile Text.isDigit = [] := by
          by_contra hne
          rw [fraction_point, if_neg hne] at hnone
          cases hnone
        rw [fraction_point, if_pos (takeWhile_fades_nil hdigit hf hdigits)]
      · exact fraction_of_ne hc _
  | cons t ts =>
    rw [List.cons_append, List.cons_append]
    by_cases ht : t = '.'
    · subst ht
      rw [List.cons_append, fraction_point] at h
      have hle : ((ts ++ after).takeWhile Text.isDigit).length ≤ ts.length := by
        split_ifs at h with hnone
        · simp [hnone]
        · simpa using h
      rw [fraction_point, fraction_point, takeWhile_fades hdigit hf hle]
    · rw [fraction_of_ne ht, fraction_of_ne ht]

/-- A number, or a word stuck to one, after the digits. -/
def ending (digits rest : List Char) : Lexeme :=
  match rest with
  | [] => numeral digits
  | c :: rest =>
    if isWordStart c then
      let text := digits ++ (c :: rest).takeWhile isWordPart
      .fault (.badNumber (String.ofList text) "Identifiers cannot start with a digit") text
    else numeral digits

/-- What a number is once its whole digits are read: a fraction, if there is one, and the ending. -/
def decimal (whole rest : List Char) : Lexeme := ending (whole ++ fraction rest) (rest.drop (fraction rest).length)

theorem number_eq (cs : List Char) : number cs = decimal (cs.takeWhile Text.isDigit) (cs.dropWhile Text.isDigit) := rfl

theorem text_numeral (text : List Char) : (numeral text).text = text := by
  unfold numeral
  split <;> rfl

theorem ending_of_head {digits rest : List Char} (h : ∀ c ∈ rest.head?, isWordStart c = false) :
    ending digits rest = numeral digits := by
  cases rest with
  | nil => rfl
  | cons c rest => rw [ending, h c rfl, if_neg Bool.false_ne_true]

theorem ending_fades (hf : Fades after after') {digits : List Char}
    (h : (ending digits (ts ++ after)).text.length ≤ digits.length + ts.length) :
    ending digits (ts ++ after') = ending digits (ts ++ after) := by
  cases ts with
  | nil =>
    have hhead : ∀ c ∈ after.head?, isWordStart c = false := by
      intro c hc
      obtain ⟨cs, rfl⟩ := List.head?_eq_some_iff.mp hc
      by_contra hstart
      rw [Bool.not_eq_false] at hstart
      rw [List.nil_append, ending, if_pos hstart, text, List.takeWhile_cons_of_pos (isWordPart_of_isWordStart hstart)] at h
      simp only [List.length_append, List.length_cons, List.length_nil] at h
      omega
    rw [List.nil_append, List.nil_append, ending_of_head hhead, ending_of_head]
    cases hf with
    | nil => exact fun c hc => nomatch hc
    | blank hb =>
      rintro c ⟨⟩
      exact not_isWordStart_of_isBlank hb
    | cons => exact hhead
  | cons t ts =>
    simp only [List.cons_append, ending] at h ⊢
    split_ifs at h ⊢ with ht
    · have hrun : ((t :: ts ++ after).takeWhile isWordPart).length ≤ (t :: ts).length := by
        rw [text, List.length_append] at h
        exact Nat.le_of_add_le_add_left h
      have hsame := takeWhile_fades (fun b => not_isWordPart_of_isBlank) hf hrun
      rw [← List.cons_append, ← List.cons_append, hsame]
    · rfl

theorem le_length_ending (digits rest : List Char) : digits.length ≤ (ending digits rest).text.length := by
  cases rest with
  | nil => exact (congrArg List.length (text_numeral digits)).ge
  | cons c rest =>
    rw [ending]
    split_ifs
    · exact (List.prefix_append _ _).length_le
    · exact (congrArg List.length (text_numeral digits)).ge

theorem decimal_fades (hf : Fades after after') {whole : List Char}
    (h : (decimal whole (ts ++ after)).text.length ≤ whole.length + ts.length) :
    decimal whole (ts ++ after') = decimal whole (ts ++ after) := by
  unfold decimal at h ⊢
  have hdigits := (le_length_ending _ _).trans h
  rw [List.length_append] at hdigits
  have hfraction : (fraction (ts ++ after)).length ≤ ts.length := Nat.le_of_add_le_add_left hdigits
  rw [fraction_fades hf hfraction, List.drop_append_of_le_length hfraction, List.drop_append_of_le_length hfraction]
  rw [List.drop_append_of_le_length hfraction] at h
  refine ending_fades hf (h.trans ?_)
  rw [List.length_append, List.length_drop]
  omega

theorem number_fades (hf : Fades after after') (h : (number (ts ++ after)).text.length ≤ ts.length) :
    number (ts ++ after') = number (ts ++ after) := by
  have hdigit : ∀ b, Text.isBlank b = true → Text.isDigit b = false := fun b => Text.not_isDigit_of_isBlank
  rw [number_eq] at h ⊢
  have hdigits := (le_length_ending _ _).trans h
  rw [List.length_append] at hdigits
  have hwhole : ((ts ++ after).takeWhile Text.isDigit).length ≤ ts.length := by omega
  have hsame := takeWhile_fades hdigit hf hwhole
  rw [number_eq, dropWhile_append_of_le (hsame.symm ▸ hwhole), hsame, dropWhile_append_of_le hwhole]
  rw [dropWhile_append_of_le hwhole] at h
  refine decimal_fades hf (h.trans ?_)
  rw [List.length_drop]
  omega

/-! ## Words, strings and marks -/

theorem word_fades (hf : Fades after after') (h : (word c (ts ++ after)).text.length ≤ ts.length + 1) :
    word c (ts ++ after') = word c (ts ++ after) := by
  have hrun : ((ts ++ after).takeWhile isWordPart).length ≤ ts.length := by
    have htext : (word c (ts ++ after)).text = c :: (ts ++ after).takeWhile isWordPart := by
      unfold word
      dsimp only
      split <;> rfl
    rw [htext, List.length_cons] at h
    omega
  unfold word
  rw [takeWhile_fades (fun b => not_isWordPart_of_isBlank) hf hrun]

theorem string_of_not_mem {body : List Char} (h : c ∉ body) (after : List Char) :
    string c (body ++ c :: after) = .token .string (c :: body ++ [c]) (some (.text (String.ofList body))) := by
  have hbody : ∀ d ∈ body, decide (d ≠ c) = true := fun d hd => decide_eq_true fun heq => h (heq ▸ hd)
  unfold string
  rw [List.takeWhile_append_of_pos hbody, List.dropWhile_append_of_pos hbody, List.takeWhile_cons_of_neg (by simp),
    List.dropWhile_cons_of_neg (by simp), List.append_nil]

theorem string_of_open (h : c ∉ cs) : string c cs = .fault (.openString (String.singleton c)) (c :: cs) := by
  have hbody : ∀ d ∈ cs, decide (d ≠ c) = true := fun d hd => decide_eq_true fun heq => h (heq ▸ hd)
  unfold string
  rw [List.dropWhile_eq_nil_iff.mpr hbody, List.takeWhile_eq_self_iff.mpr hbody]

/-- A string that is closed in `ts`. -/
theorem string_append (hc : c ∈ ts) (after after' : List Char) : string c (ts ++ after') = string c (ts ++ after) := by
  obtain ⟨body, rest, rfl, hbody⟩ := List.eq_append_cons_of_mem hc
  simp only [List.append_assoc, List.cons_append, string_of_not_mem hbody]

theorem string_fades (h : (string c (ts ++ after)).text.length ≤ ts.length + 1)
    (hopen : ∀ q text, string c (ts ++ after) ≠ .fault (.openString q) text) :
    string c (ts ++ after') = string c (ts ++ after) := by
  have hclosed : c ∈ ts ++ after := by
    by_contra hc
    exact hopen _ _ (string_of_open hc)
  refine string_append ?_ after after'
  by_contra hc
  obtain ⟨body, rest, rfl, hbody⟩ := List.eq_append_cons_of_mem ((List.mem_append.mp hclosed).resolve_left hc)
  rw [← List.append_assoc, string_of_not_mem (by simp [hc, hbody])] at h
  simp only [text, List.length_append, List.length_cons, List.length_nil] at h
  omega

/-- A character that makes no operator with the next one stands as if it were alone. -/
theorem mark_of_head (h : ∀ d ∈ cs.head?, isOperator [c, d] = false) : mark c cs = mark c [] := by
  cases cs with
  | nil => rfl
  | cons d cs =>
    have hpair : isOperator (c :: (d :: cs).take 1) = false := h d rfl
    unfold mark
    simp only [hpair, List.take_nil, Bool.false_eq_true, if_false]
    split_ifs <;> rfl

theorem mark_fades (hf : Fades after after') (h : (mark c (ts ++ after)).text.length ≤ ts.length + 1) :
    mark c (ts ++ after') = mark c (ts ++ after) := by
  cases ts with
  | cons t ts => rfl
  | nil =>
    have hhead : ∀ d ∈ after.head?, isOperator [c, d] = false := by
      intro d hd
      obtain ⟨cs, rfl⟩ := List.head?_eq_some_iff.mp hd
      by_contra hpair
      rw [Bool.not_eq_false] at hpair
      have hmark : mark c (d :: cs) = .token .operator [c, d] none := if_pos hpair
      rw [List.nil_append, hmark] at h
      simp [text] at h
    rw [List.nil_append, List.nil_append, mark_of_head hhead, mark_of_head]
    cases hf with
    | nil => exact fun d hd => nomatch hd
    | blank hb =>
      rintro d ⟨⟩
      exact not_isOperator_of_isBlank hb c
    | cons => exact hhead

end Lexeme

/-! ## Lexemes -/

/-- What comes after a lexeme can fade: the lexeme stays. A string that is not closed has no text after it. -/
theorem lexeme_fades (hf : Fades after after') (h : (lexeme c (ts ++ after)).text.length ≤ ts.length + 1)
    (hopen : ∀ q text, lexeme c (ts ++ after) ≠ .fault (.openString q) text) :
    lexeme c (ts ++ after') = lexeme c (ts ++ after) := by
  unfold lexeme at h hopen ⊢
  split_ifs at h hopen ⊢ with hdigit hword hquote
  · rw [← List.cons_append] at h ⊢
    exact Lexeme.number_fades hf h
  · exact Lexeme.word_fades hf h
  · exact Lexeme.string_fades h hopen
  · exact Lexeme.mark_fades hf h

/-- The item of a lexeme stays in the scan when the text after it fades. -/
theorem Scans.item_fades {file : String} {p : Cursor} {rest text : List Char} {i : ScanItem} {s : Scan}
    (hgap : layout (gap ++ c :: rest) = gap) (htext : c :: rest = text ++ after)
    (hwidth : text.length = max 1 (lexeme c rest).text.length) (hitem : (lexeme c rest).item? file (p.past gap) = some i)
    (hopen : ∀ q l, i ≠ .error ⟨.openString q, l⟩) (hf : Fades after after')
    (h : Scans file ((p.past gap).past text) after' s) : Scans file p (gap ++ (text ++ after')) (s.push i) := by
  obtain ⟨ts, rfl, rfl⟩ : ∃ ts, text = c :: ts ∧ rest = ts ++ after := by
    cases text with
    | nil => exact absurd hwidth (by rw [List.length_nil]; omega)
    | cons d ts =>
      rw [List.cons_append, List.cons.injEq] at htext
      exact ⟨ts, by rw [htext.1], htext.2⟩
  have hclosed : ∀ q text, lexeme c (ts ++ after) ≠ .fault (.openString q) text := by
    intro q text heq
    rw [heq] at hitem
    exact hopen q _ (Option.some.inj hitem).symm
  have hlexeme := lexeme_fades hf (by rw [List.length_cons] at hwidth; omega) hclosed
  rw [List.cons_append]
  exact .item (layout_fades hf hgap) List.cons_append.symm (by rwa [hlexeme]) (by rwa [hlexeme]) h

end Lookahead
