import Lookahead.Scan.Lexeme
import Mathlib.Data.List.Infix
import Mathlib.Data.List.TakeWhile

/-! Layout piece by piece: a blank, or a comment up to the end of its line. -/
namespace Lookahead

/-- One piece of layout, before the text `after`. -/
inductive Gap : List Char → List Char → Prop
  | blank {c after} : Text.isBlank c = true → Gap [c] after
  | comment {body after} : '\n' ∉ body → (∀ c ∈ after.head?, c = '\n') → Gap ('/' :: '/' :: body) after

theorem Gap.ne_nil {text after : List Char} (h : Gap text after) : text ≠ [] := by
  cases h <;> exact List.cons_ne_nil _ _

/-! ## Reading layout -/

theorem layoutFrom_comment (cs : List Char) :
    layoutFrom true cs = cs.takeWhile (· ≠ '\n') ++ layout (cs.dropWhile (· ≠ '\n')) := by
  induction cs with
  | nil => rfl
  | cons c cs ih =>
    by_cases hc : c = '\n'
    · subst hc
      rfl
    · have hne : (c != '\n') = true := bne_iff_ne.mpr hc
      rw [layoutFrom, hne, ih, List.takeWhile_cons_of_pos (by simpa using hc),
        List.dropWhile_cons_of_pos (by simpa using hc), List.cons_append]

theorem layout_blank {c : Char} (hc : Text.isBlank c = true) (cs : List Char) : layout (c :: cs) = c :: layout cs := by
  rw [layout, layoutFrom, if_pos hc]
  rfl

theorem layout_comment (cs : List Char) : layout ('/' :: '/' :: cs) =
    '/' :: '/' :: (cs.takeWhile (· ≠ '\n') ++ layout (cs.dropWhile (· ≠ '\n'))) := by
  rw [← layoutFrom_comment]
  rfl

theorem layout_eq_nil_iff {c : Char} {cs : List Char} :
    layout (c :: cs) = [] ↔ Text.isBlank c = false ∧ ¬ (c = '/' ∧ cs.head? = some '/') := by
  rw [layout, layoutFrom]
  split_ifs with hc hcs <;> simp_all

/-- A text starts without layout, or with one piece of it and then the layout of what comes after. -/
theorem layout_cases (cs : List Char) :
    layout cs = [] ∨ ∃ gap after, cs = gap ++ after ∧ Gap gap after ∧ layout cs = gap ++ layout after := by
  cases cs with
  | nil => exact Or.inl rfl
  | cons c cs =>
    by_cases hc : Text.isBlank c = true
    · exact Or.inr ⟨[c], cs, rfl, .blank hc, layout_blank hc cs⟩
    by_cases hcs : c = '/' ∧ cs.head? = some '/'
    · obtain ⟨rfl, hhead⟩ := hcs
      obtain ⟨cs, rfl⟩ := List.head?_eq_some_iff.mp hhead
      refine Or.inr ⟨'/' :: '/' :: cs.takeWhile (· ≠ '\n'), cs.dropWhile (· ≠ '\n'), ?_, .comment ?_ ?_,
        layout_comment cs⟩
      · rw [List.cons_append, List.cons_append, List.takeWhile_append_dropWhile]
      · intro h
        simpa using List.mem_takeWhile_imp h
      · have hstop := List.head?_dropWhile_not (· ≠ '\n') cs
        intro d hd
        rw [Option.mem_def.mp hd] at hstop
        simpa using hstop
    · exact Or.inl (layout_eq_nil_iff.mpr ⟨Bool.not_eq_true _ ▸ hc, hcs⟩)

theorem isPrefix_layout (cs : List Char) : layout cs <+: cs := by
  induction h : cs.length using Nat.strong_induction_on generalizing cs with
  | _ n ih =>
    subst h
    obtain hnil | ⟨gap, after, rfl, hgap, hlayout⟩ := layout_cases cs
    · exact hnil ▸ List.nil_prefix
    · have hlength : after.length < (gap ++ after).length := by
        have := List.length_pos_iff.mpr hgap.ne_nil
        rw [List.length_append]
        omega
      rw [hlayout, List.prefix_append_right_inj]
      exact ih _ hlength after rfl

/-- The text is its layout and what comes after it. -/
theorem layout_append_drop (cs : List Char) : layout cs ++ cs.drop (layout cs).length = cs :=
  List.prefix_iff_eq_append.mp (isPrefix_layout cs)

/-! ## Layout before any text -/

/-- A text that is passed over as layout, whatever comes after it. -/
def Passed (cs : List Char) : Prop := ∀ ds, layout (cs ++ ds) = cs ++ layout ds

section Passed
variable {c : Char} {cs gap rest bs : List Char} {b : Bool}

theorem Passed.append (h : Passed cs) (hgap : Passed gap) : Passed (cs ++ gap) := by
  intro ds
  rw [List.append_assoc, List.append_assoc, h, hgap]

theorem passed_of_blanks (h : ∀ b ∈ bs, Text.isBlank b = true) : Passed bs := by
  intro ds
  induction bs with
  | nil => rfl
  | cons b bs ih =>
    obtain ⟨hb, hbs⟩ := List.forall_mem_cons.mp h
    rw [List.cons_append, List.cons_append, layout_blank hb, ih hbs]

theorem layoutFrom_line (h : layoutFrom b cs = cs) (ds : List Char) :
    layoutFrom b (cs ++ '\n' :: ds) = cs ++ '\n' :: layout ds := by
  induction cs generalizing b with
  | nil => cases b <;> rfl
  | cons c cs ih =>
    cases b with
    | true => rw [List.cons_append, layoutFrom, ih (List.cons.inj h).2, List.cons_append]
    | false =>
      rw [List.cons_append, List.cons_append, layoutFrom]
      rw [layoutFrom] at h
      split_ifs at h with hc hslash
      · rw [if_pos hc, ih (List.cons.inj h).2]
      · have hhead : (cs ++ '\n' :: ds).head? = cs.head? := by cases cs <;> simp_all
        rw [if_neg hc, hhead, if_pos hslash, ih (List.cons.inj h).2]

/-- Layout up to the end of a line, which ends a comment too. -/
theorem passed_line (h : layout cs = cs) : Passed (cs ++ ['\n']) := by
  intro ds
  rw [List.append_assoc, List.append_assoc]
  exact layoutFrom_line h ds

theorem layoutFrom_of_rest (h : layoutFrom b (gap ++ c :: rest) = gap) (ds : List Char) :
    layoutFrom b (gap ++ ds) = gap ++ layout ds := by
  induction gap generalizing b with
  | nil =>
    cases b with
    | true => cases h
    | false => rfl
  | cons g gap ih =>
    rw [List.cons_append] at h ⊢
    cases b with
    | true => rw [layoutFrom, ih (List.cons.inj h).2, List.cons_append]
    | false =>
      rw [layoutFrom] at h ⊢
      split_ifs at h with hg hslash
      · rw [if_pos hg, ih (List.cons.inj h).2, List.cons_append]
      · have hrest := (List.cons.inj h).2
        have hhead : (gap ++ ds).head? = (gap ++ c :: rest).head? := by
          cases gap with
          | nil => cases hrest
          | cons => rfl
        rw [if_neg hg, hhead, if_pos hslash, ih hrest, List.cons_append]

/-- Layout that ends before a character does not end in an open comment. -/
theorem passed_of_rest (h : layout (gap ++ c :: rest) = gap) : Passed gap := layoutFrom_of_rest h

end Passed

end Lookahead
