import Lookahead.Scan.Lexeme
import Mathlib.Data.List.Infix
import Mathlib.Data.List.TakeWhile

/-! What the next lexeme of a text can be. It is the beginning of the text, and only a character that starts no
token gives a lexeme without characters. -/
namespace Lookahead
namespace Lexeme

/-! ## Characters taken -/

theorem isPrefix_fraction (cs : List Char) : fraction cs <+: cs := by
  unfold fraction
  split
  · rename_i d cs
    split
    · exact (List.prefix_append_right_inj ['.', d]).mpr (List.takeWhile_prefix _)
    · exact List.nil_prefix
  · exact List.nil_prefix

theorem append_prefix {whole u v rest : List Char} (h : u <+: rest) (hv : v <+: rest.drop u.length) :
    whole ++ u ++ v <+: whole ++ rest := by
  obtain ⟨t, rfl⟩ := h
  rw [List.drop_left] at hv
  rw [List.append_assoc, List.prefix_append_right_inj, List.prefix_append_right_inj]
  exact hv

/-! ## Cases -/

/-- A lexeme at the start of `c :: cs`. -/
inductive Found (c : Char) (cs : List Char) : Lexeme → Prop
  | token {kind text value} : text ≠ [] → text <+: c :: cs → Found c cs (.token kind text value)
  | badCharacter : Found c cs (.fault (.badCharacter (String.singleton c)) [])
  | badNumber {text reason} : text ≠ [] → text <+: c :: cs →
      Found c cs (.fault (.badNumber (String.ofList text) reason) text)
  | openString : c ∉ cs → Found c cs (.fault (.openString (String.singleton c)) (c :: cs))
  | unreadable {text} : text ≠ [] → text <+: c :: cs → Found c cs (.unreadable text)

variable {c : Char} {cs : List Char}

theorem found_numeral {text : List Char} (hne : text ≠ []) (hstarts : text <+: c :: cs) :
    Found c cs (numeral text) := by
  unfold numeral
  split
  · exact .token hne hstarts
  · exact .unreadable hne hstarts

theorem found_number (hc : Text.isDigit c = true) : Found c cs (number (c :: cs)) := by
  have hwhole : (c :: cs).takeWhile Text.isDigit ++ (c :: cs).dropWhile Text.isDigit = c :: cs :=
    List.takeWhile_append_dropWhile
  have hne : (c :: cs).takeWhile Text.isDigit ≠ [] := by simp [hc]
  unfold number
  dsimp only
  generalize (c :: cs).takeWhile Text.isDigit = whole at hwhole hne
  generalize (c :: cs).dropWhile Text.isDigit = rest at hwhole
  have hfraction := isPrefix_fraction rest
  have hdigits : whole ++ fraction rest <+: c :: cs := by
    rw [← hwhole]
    exact (List.prefix_append_right_inj whole).mpr hfraction
  have hne' : whole ++ fraction rest ≠ [] := fun h => hne (List.append_eq_nil_iff.mp h).1
  split
  · exact found_numeral hne' hdigits
  · rename_i d ds hrest
    split
    · refine .badNumber (fun h => hne' (List.append_eq_nil_iff.mp h).1) ?_
      rw [← hwhole]
      exact append_prefix hfraction (hrest ▸ List.takeWhile_prefix _)
    · exact found_numeral hne' hdigits

theorem found_word : Found c cs (word c cs) := by
  have hstarts : c :: cs.takeWhile isWordPart <+: c :: cs :=
    (List.prefix_append_right_inj [c]).mpr (List.takeWhile_prefix _)
  unfold word
  dsimp only
  split <;> exact .token (List.cons_ne_nil _ _) hstarts

theorem found_string : Found c cs (string c cs) := by
  have hbody : cs.takeWhile (· ≠ c) ++ cs.dropWhile (· ≠ c) = cs := List.takeWhile_append_dropWhile
  unfold string
  dsimp only
  split
  · rename_i hnil
    rw [hnil, List.append_nil] at hbody
    rw [hbody]
    refine .openString fun hmem => ?_
    have hne := List.dropWhile_eq_nil_iff.mp hnil c hmem
    simp at hne
  · rename_i d rest hrest
    have hd : d = c := by
      have hhead := List.head?_dropWhile_not (· ≠ c) cs
      rw [hrest] at hhead
      simpa using hhead
    refine .token (List.cons_ne_nil _ _) ⟨rest, ?_⟩
    rw [hrest, hd] at hbody
    rw [List.cons_append, List.cons_append, List.append_assoc, List.singleton_append, hbody]

theorem found_mark : Found c cs (mark c cs) := by
  have hone : [c] <+: c :: cs := List.prefix_append [c] cs
  have hpair : c :: cs.take 1 <+: c :: cs := (List.prefix_append_right_inj [c]).mpr (List.take_prefix 1 cs)
  unfold mark
  dsimp only
  split
  · exact .token (List.cons_ne_nil _ _) hpair
  · split
    · exact .token (List.cons_ne_nil _ _) hone
    · split
      · exact .token (List.cons_ne_nil _ _) hone
      · exact .badCharacter

end Lexeme

open Lexeme in
theorem lexeme_found (c : Char) (cs : List Char) : Found c cs (lexeme c cs) := by
  unfold lexeme
  split
  · rename_i hc
    exact found_number hc
  · split
    · exact found_word
    · split
      · exact found_string
      · exact found_mark

end Lookahead
