import Lookahead.Proofs.Decimal.Numeral
import Lookahead.Proofs.Scan.Run

/-! Tokens that a scan can yield: they are of the language, and numbers have values. -/
namespace Lookahead

/-- A token of the language, and if it is a number, one that has a value. -/
structure Token.Legible (t : Token) : Prop where
  kind_mem : t.kind ∈ Kind.all
  number : t.kind = .number → t.value.isSome = true ∨ (Numeral.read? t.lexeme).isSome = true

instance (t : Token) : Decidable t.Legible :=
  decidable_of_iff (t.kind ∈ Kind.all ∧
    (t.kind = .number → t.value.isSome = true ∨ (Numeral.read? t.lexeme).isSome = true))
    ⟨fun h => ⟨h.1, h.2⟩, fun h => ⟨h.kind_mem, h.number⟩⟩

/-! ## Forms of lexemes -/

namespace Lexeme

/-- What the text and the value of a lexeme are for its kind. -/
inductive Formed : Lexeme → Prop
  | number {text x} : Numeral.Written text → Numeral.read? (String.ofList text) = some x →
      Formed (.token .number text (some (.number x)))
  | unreadable {text} : Numeral.Written text → Numeral.read? (String.ofList text) = none → Formed (.unreadable text)
  | identifier {text} : Formed (.token .identifier text (some (.text (String.ofList text))))
  | string {quote body} : Formed (.token .string (quote :: body ++ [quote]) (some (.text (String.ofList body))))
  | operator {text} : String.ofList text ∈ operators → Formed (.token .operator text none)
  | fixed {kind text} : (String.ofList text, kind) ∈ keywords ++ punctuation → Formed (.token kind text none)
  | fault {f text} : Formed (.fault f text)

variable {c : Char} {cs text : List Char} {kind : Kind}

theorem fraction_cases (cs : List Char) : fraction cs = [] ∨ ∃ d, d ≠ [] ∧ (∀ c ∈ d, Text.isDigit c = true) ∧
    fraction cs = '.' :: d := by
  unfold fraction
  split
  · rename_i d cs
    split
    · rename_i hd
      refine Or.inr ⟨d :: cs.takeWhile Text.isDigit, List.cons_ne_nil _ _, ?_, rfl⟩
      exact List.forall_mem_cons.mpr ⟨hd, fun c hc => List.mem_takeWhile_imp hc⟩
    · exact Or.inl rfl
  · exact Or.inl rfl

theorem written_digits (hc : Text.isDigit c = true) (cs rest : List Char) :
    Numeral.Written ((c :: cs).takeWhile Text.isDigit ++ fraction rest) := by
  have hne : (c :: cs).takeWhile Text.isDigit ≠ [] := by simp [hc]
  have hdigits : ∀ d ∈ (c :: cs).takeWhile Text.isDigit, Text.isDigit d = true := fun d hd => List.mem_takeWhile_imp hd
  rcases fraction_cases rest with hnone | ⟨d, hd, hall, hsome⟩
  · rw [hnone, List.append_nil]
    exact .whole hne hdigits
  · rw [hsome]
    exact .fraction hne hdigits hd hall

theorem formed_numeral (h : Numeral.Written text) : Formed (numeral text) := by
  unfold numeral
  split
  · exact .number h ‹_›
  · exact .unreadable h ‹_›

theorem formed_number (hc : Text.isDigit c = true) : Formed (number (c :: cs)) := by
  have hwritten := written_digits hc cs ((c :: cs).dropWhile Text.isDigit)
  unfold number
  dsimp only
  split
  · exact formed_numeral hwritten
  · split
    · exact .fault
    · exact formed_numeral hwritten

theorem mem_of_lookup {words : List (String × Kind)} {s : String} (h : words.lookup s = some kind) :
    (s, kind) ∈ words := by
  obtain ⟨before, after, rfl, -⟩ := List.lookup_eq_some_iff.mp h
  exact List.mem_append_right before List.mem_cons_self

theorem formed_word : Formed (word c cs) := by
  unfold word
  dsimp only
  split
  · exact .fixed (List.mem_append_left _ (mem_of_lookup ‹_›))
  · exact .identifier

theorem formed_string : Formed (string c cs) := by
  unfold string
  dsimp only
  split
  · exact .fault
  · exact .string

theorem formed_mark : Formed (mark c cs) := by
  unfold mark
  dsimp only
  split_ifs with hpair hone
  · exact .operator (List.contains_iff_mem.mp hpair)
  · exact .operator (List.contains_iff_mem.mp hone)
  · split
    · exact .fixed (List.mem_append_right _ (mem_of_lookup ‹_›))
    · exact .fault

end Lexeme

open Lexeme in
theorem lexeme_formed (c : Char) (cs : List Char) : (lexeme c cs).Formed := by
  unfold lexeme
  split_ifs
  · exact formed_number ‹_›
  · exact formed_word
  · exact formed_string
  · exact formed_mark

namespace Lexeme
variable {kind : Kind} {text : List Char} {value : Option Value}

/-- No lexeme ends the text, and a number has a value. -/
theorem Formed.kind_spec (h : (Lexeme.token kind text value).Formed) :
    kind ∈ Kind.all ∧ kind ≠ .eof ∧ (kind = .number → value.isSome = true) := by
  cases h with
  | number => exact ⟨by decide, Kind.noConfusion, fun _ => rfl⟩
  | identifier => exact ⟨by decide, Kind.noConfusion, fun _ => rfl⟩
  | string => exact ⟨by decide, Kind.noConfusion, fun _ => rfl⟩
  | operator => exact ⟨by decide, Kind.noConfusion, fun h => nomatch h⟩
  | fixed hmem =>
    have hwords : ∀ w ∈ keywords ++ punctuation, w.2 ∈ Kind.all ∧ w.2 ≠ .eof ∧ w.2 ≠ .number := by decide
    obtain ⟨hkind, heof, hnumber⟩ := hwords _ hmem
    exact ⟨hkind, heof, fun h => absurd h hnumber⟩

theorem Formed.exists_isValueless (h : (Lexeme.unreadable text).Formed) :
    Numeral.Written text ∧ ∃ c ∈ text, Text.IsValueless c := by
  cases h with
  | unreadable hwritten hread => exact ⟨hwritten, (Numeral.read?_eq_none_iff hwritten).mp hread⟩

theorem Formed.legible {found : Lexeme} (h : found.Formed) {file : String} {p : Cursor} {t : Token}
    (ht : found.item? file p = some (.token t)) : t.Legible ∧ t.kind ≠ .eof := by
  cases found with
  | token kind text value =>
    cases ht
    obtain ⟨hkind, heof, hnumber⟩ := h.kind_spec
    exact ⟨⟨hkind, fun h => Or.inl (hnumber h)⟩, heof⟩
  | fault f text => cases ht
  | unreadable text => cases ht

end Lexeme

/-! ## Texts -/

theorem Scans.legible {file : String} {p : Cursor} {cs : List Char} {s : Scan} (h : Scans file p cs s) :
    ∀ t ∈ s.tokens, t.Legible ∧ t.kind ≠ .eof := by
  refine fun t ht => ?_
  rw [Scan.mem_tokens_iff] at ht
  induction h with
  | finish => exact absurd ht List.not_mem_nil
  | unreadable => exact absurd ht List.not_mem_nil
  | item _ _ _ hitem _ ih =>
    rcases List.mem_cons.mp ht with rfl | ht
    · exact (lexeme_formed _ _).legible hitem
    · exact ih ht

theorem legible_of_tokenize {file source : String} {tokens : List Token} (h : tokenize file source = .ok tokens) :
    ∀ t ∈ tokens, t.Legible := by
  obtain ⟨-, -, rfl⟩ := tokenize_eq_ok_iff.mp h
  rw [List.forall_mem_append, List.forall_mem_singleton]
  refine ⟨fun t ht => ?_, (by decide : Kind.eof ∈ Kind.all), fun h => nomatch h⟩
  exact ((scans_scanFrom file .start source.toList).legible t ht).1

end Lookahead
