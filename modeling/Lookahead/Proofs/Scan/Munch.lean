import Lookahead.Proofs.Scan.Legible
import Lookahead.Proofs.Scan.Sight
import Lookahead.Scan.Scanner

/-! Maximal munch. A scanner reads the longest beginning of a text that is in the token language, unless that is a number
right before a letter; where no beginning is in it, the text starts with an open quote or a character of no token. -/
namespace Lookahead
namespace Lexeme

/-! ## The token language -/

inductive TokenClass where
  | number
  | word
  | string
  | mark
deriving DecidableEq

/-- The texts of tokens. The quote that ends a string is the first of its sort after the one that opens it. -/
inductive Spelled : TokenClass → List Char → Prop
  | number {text} : Numeral.Written text → Spelled .number text
  | word {c cs} : isWordStart c = true → (∀ d ∈ cs, isWordPart d = true) → Spelled .word (c :: cs)
  | string {quote body} : quote = '"' ∨ quote = '\'' → quote ∉ body → Spelled .string (quote :: body ++ [quote])
  | operator {text} : String.ofList text ∈ operators → Spelled .mark text
  | punctuator {text kind} : (String.ofList text, kind) ∈ punctuation → Spelled .mark text

/-- The kind and the value of the token that a text of a class is. A string has the text between its quotes. -/
inductive ReadAs : TokenClass → List Char → Kind → Option Value → Prop
  | number {text x} : Spelled .number text → Numeral.read? (String.ofList text) = some x →
      ReadAs .number text .number (some (.number x))
  | keyword {text kind} : Spelled .word text → (String.ofList text, kind) ∈ keywords → ReadAs .word text kind none
  | identifier {text} : Spelled .word text → (∀ kind, (String.ofList text, kind) ∉ keywords) →
      ReadAs .word text .identifier (some (.text (String.ofList text)))
  | string {text} : Spelled .string text → ReadAs .string text .string (some (.text (String.ofList text.tail.dropLast)))
  | operator {text} : String.ofList text ∈ operators → ReadAs .mark text .operator none
  | punctuator {text kind} : (String.ofList text, kind) ∈ punctuation → ReadAs .mark text kind none

/-- The text of a token, at the beginning of `cs`. -/
structure Begins (text cs : List Char) : Prop where
  spelled : ∃ k, Spelled k text
  isPrefix : text <+: cs

structure Longest (text cs : List Char) : Prop extends Begins text cs where
  length_le : ∀ u, Begins u cs → u.length ≤ text.length

/-- A number right before a character that words start with. -/
def Sticks (text cs : List Char) : Prop :=
  Spelled .number text ∧ ∃ c after, cs = text ++ c :: after ∧ isWordStart c = true

/-- A quote that is not closed. -/
def Unclosed (cs : List Char) : Prop :=
  ∃ quote body, cs = quote :: body ∧ (quote = '"' ∨ quote = '\'') ∧ quote ∉ body

/-- What the longest beginning that is in the token language makes of a text. -/
inductive Munched (cs : List Char) : Lexeme → Prop
  | token {k text kind value} : Longest text cs → ¬ Sticks text cs → ReadAs k text kind value →
      Munched cs (.token kind text value)
  | unreadable {text} : Spelled .number text → Longest text cs → ¬ Sticks text cs →
      Numeral.read? (String.ofList text) = none → Munched cs (.unreadable text)
  | badNumber {digits lexeme reason text} : Longest digits cs → Sticks digits cs →
      Munched cs (.fault (.badNumber lexeme reason) text)
  | openString {quote text} : Unclosed cs → Munched cs (.fault (.openString quote) text)
  | badCharacter {lexeme text} : (∀ u, ¬ Begins u cs) → ¬ Unclosed cs → Munched cs (.fault (.badCharacter lexeme) text)

variable {k k' : TokenClass} {c d : Char} {cs text u : List Char} {kind kind' : Kind} {value value' : Option Value}

/-! ## The first character decides -/

def classOf (c : Char) : TokenClass :=
  if Text.isDigit c then .number
  else if isWordStart c then .word
  else if c = '"' ∨ c = '\'' then .string
  else .mark

theorem not_isDigit_of_isWordStart (h : isWordStart c = true) : Text.isDigit c = false := by
  by_contra hdigit
  rw [Bool.not_eq_false] at hdigit
  rcases Bool.or_eq_true_iff.mp h with hletter | hline
  · exact Bool.false_ne_true ((Text.not_isLetter_of_isDigit hdigit).symm.trans hletter)
  · rw [of_decide_eq_true hline] at hdigit
    exact absurd hdigit (by decide +kernel)

theorem classOf_of_mark (words : List String)
    (hwords : (words.all fun w => w.toList.head?.all fun c => classOf c = .mark) = true)
    (h : String.ofList (c :: cs) ∈ words) : classOf c = .mark := by
  have hhead := List.all_eq_true.mp hwords _ h
  rw [String.toList_ofList] at hhead
  exact of_decide_eq_true hhead

theorem Spelled.class_eq (h : Spelled k (c :: cs)) : k = classOf c := by
  generalize htext : c :: cs = text at h
  cases h with
  | number h =>
    have hdigit : Text.isDigit c = true := by
      cases h with
      | whole _ hall => exact hall c (htext ▸ List.mem_cons_self)
      | @fraction w d hne hall =>
        obtain ⟨b, w, rfl⟩ := List.exists_cons_of_ne_nil hne
        obtain rfl := (List.cons.inj htext).1
        exact hall c List.mem_cons_self
    rw [classOf, if_pos hdigit]
  | word hc =>
    obtain ⟨rfl, rfl⟩ := List.cons.inj htext
    rw [classOf, not_isDigit_of_isWordStart hc, if_neg Bool.false_ne_true, if_pos hc]
  | string hquote =>
    obtain rfl := (List.cons.inj htext).1
    rcases hquote with rfl | rfl <;> decide +kernel
  | operator h => exact (classOf_of_mark _ (by decide +kernel) (htext ▸ h)).symm
  | punctuator h =>
    have hmem := List.mem_map_of_mem (f := Prod.fst) h
    exact (classOf_of_mark (punctuation.map Prod.fst) (by decide +kernel) (htext ▸ hmem)).symm

theorem Spelled.ne_nil (h : Spelled k text) : text ≠ [] := by
  rintro rfl
  cases h with
  | number h => exact h.ne_nil rfl
  | operator h => exact absurd h (by decide)
  | punctuator h =>
    have hnone : ∀ w ∈ punctuation, w.1 ≠ String.ofList [] := by decide
    exact hnone _ h rfl

theorem Spelled.class_unique (h : Spelled k text) (h' : Spelled k' text) : k = k' := by
  obtain ⟨c, cs, rfl⟩ := List.exists_cons_of_ne_nil h.ne_nil
  exact h.class_eq.trans h'.class_eq.symm

theorem Begins.spelled_classOf (h : Begins u (c :: cs)) : Spelled (classOf c) u := by
  obtain ⟨⟨k, hk⟩, hstarts⟩ := h
  obtain ⟨d, ds, rfl⟩ := List.exists_cons_of_ne_nil hk.ne_nil
  obtain ⟨rfl, -⟩ := List.cons_prefix_cons.mp hstarts
  exact hk.class_eq ▸ hk

/-! ## Kinds and values -/

theorem ReadAs.spelled (h : ReadAs k text kind value) : Spelled k text := by
  cases h with
  | number h => exact h
  | keyword h => exact h
  | identifier h => exact h
  | string h => exact h
  | operator h => exact .operator h
  | punctuator h => exact .punctuator h

/-- Every word of a vocabulary has one kind. -/
theorem kind_unique {words : List (String × Kind)} (hwords : ∀ v ∈ words, ∀ w ∈ words, v.1 = w.1 → v.2 = w.2) {s : String}
    (h : (s, kind) ∈ words) (h' : (s, kind') ∈ words) : kind = kind' :=
  hwords _ h _ h' rfl

theorem not_mem_of_lookup {words : List (String × Kind)} {s : String} (h : words.lookup s = none) (kind : Kind) :
    (s, kind) ∉ words := fun hmem => absurd (List.lookup_eq_none_iff.mp h _ hmem) (by simp)

theorem ReadAs.unique (h : ReadAs k text kind value) (h' : ReadAs k' text kind' value') :
    kind = kind' ∧ value = value' := by
  obtain rfl := h.spelled.class_unique h'.spelled
  have hapart : ∀ w ∈ punctuation, w.1 ∉ operators := by decide
  cases h with
  | number _ hx =>
    cases h' with
    | number _ hx' =>
      rw [hx, Option.some.injEq] at hx'
      exact ⟨rfl, by rw [hx']⟩
  | keyword _ hword =>
    cases h' with
    | keyword _ hword' => exact ⟨kind_unique (by decide) hword hword', rfl⟩
    | identifier _ hnone => exact absurd hword (hnone _)
  | identifier _ hnone =>
    cases h' with
    | keyword _ hword => exact absurd hword (hnone _)
    | identifier => exact ⟨rfl, rfl⟩
  | string =>
    cases h' with
    | string => exact ⟨rfl, rfl⟩
  | operator hmem =>
    cases h' with
    | operator => exact ⟨rfl, rfl⟩
    | punctuator hmem' => exact absurd hmem (hapart _ hmem')
  | punctuator hmem =>
    cases h' with
    | operator hmem' => exact absurd hmem' (hapart _ hmem)
    | punctuator hmem' => exact ⟨kind_unique (by decide) hmem hmem', rfl⟩

/-! ## Longest texts -/

theorem Longest.unique (h : Longest text cs) (h' : Longest u cs) : text = u := by
  have hle : text.length ≤ u.length := h'.length_le text h.toBegins
  have hge : u.length ≤ text.length := h.length_le u h'.toBegins
  exact (List.prefix_of_prefix_length_le h.isPrefix h'.isPrefix hle).eq_of_length (Nat.le_antisymm hle hge)

/-- Only texts of the class of the first character need be compared. -/
theorem longest_of_class (hspelled : Spelled (classOf c) text) (hstarts : text <+: c :: cs)
    (hle : ∀ u, Spelled (classOf c) u → u <+: c :: cs → u.length ≤ text.length) : Longest text (c :: cs) where
  spelled := ⟨_, hspelled⟩
  isPrefix := hstarts
  length_le u hu := hle u hu.spelled_classOf hu.isPrefix

theorem Unclosed.not_begins (h : Unclosed cs) : ¬ Begins text cs := by
  intro hbegins
  obtain ⟨quote, body, rfl, hquote, hbody⟩ := h
  have hclass : classOf quote = .string := by rcases hquote with rfl | rfl <;> decide +kernel
  have hspelled := hbegins.spelled_classOf
  rw [hclass] at hspelled
  cases hspelled with
  | string =>
    obtain ⟨rfl, hstarts⟩ := List.cons_prefix_cons.mp hbegins.isPrefix
    exact hbody (hstarts.mem (List.mem_append_right _ List.mem_cons_self))

theorem length_le_takeWhile {p : Char → Bool} (hu : u <+: cs) (hall : ∀ x ∈ u, p x = true) :
    u.length ≤ (cs.takeWhile p).length := by
  obtain ⟨after, rfl⟩ := hu
  rw [List.takeWhile_append_of_pos hall, List.length_append]
  exact Nat.le_add_right _ _

/-! ## Numbers -/

theorem longest_number (cs : List Char) (hc : Text.isDigit c = true) :
    Longest ((c :: cs).takeWhile Text.isDigit ++ fraction ((c :: cs).dropWhile Text.isDigit)) (c :: cs) := by
  have hclass : classOf c = .number := if_pos hc
  refine longest_of_class ?_ ?_ fun u hu hstarts => ?_
  · rw [hclass]
    exact .number (written_digits hc cs _)
  · have hfraction := isPrefix_fraction ((c :: cs).dropWhile Text.isDigit)
    rw [← List.prefix_append_right_inj ((c :: cs).takeWhile Text.isDigit), List.takeWhile_append_dropWhile] at hfraction
    exact hfraction
  · rw [hclass] at hu
    cases hu with
    | number hu =>
      rw [List.length_append]
      cases hu with
      | whole _ hall =>
        have hle := length_le_takeWhile hstarts hall
        omega
      | @fraction w d _ hall hne hall' =>
        obtain ⟨after, hafter⟩ := hstarts
        have hpoint : Text.isDigit '.' = false := by decide +kernel
        rw [← hafter, List.append_assoc, List.takeWhile_append_of_pos hall, List.dropWhile_append_of_pos hall,
          List.cons_append, List.takeWhile_cons_of_neg (by simp [hpoint]), List.dropWhile_cons_of_neg (by simp [hpoint]),
          fraction_point, List.append_nil]
        have hle := length_le_takeWhile (List.prefix_append d after) hall'
        have hpos := List.length_pos_iff.mpr hne
        rw [if_neg (List.ne_nil_of_length_pos (by omega)), List.length_append, List.length_cons, List.length_cons]
        omega

/-! ## Words and strings -/

theorem longest_word (cs : List Char) (hdigit : Text.isDigit c = false) (hc : isWordStart c = true) :
    Longest (c :: cs.takeWhile isWordPart) (c :: cs) := by
  have hclass : classOf c = .word := by rw [classOf, hdigit, if_neg Bool.false_ne_true, if_pos hc]
  refine longest_of_class ?_ ?_ fun u hu hstarts => ?_
  · rw [hclass]
    exact .word hc fun d hd => List.mem_takeWhile_imp hd
  · exact List.cons_prefix_cons.mpr ⟨rfl, List.takeWhile_prefix _⟩
  · rw [hclass] at hu
    cases hu with
    | word _ hall =>
      have hle := length_le_takeWhile (List.cons_prefix_cons.mp hstarts).2 hall
      rw [List.length_cons, List.length_cons]
      omega

theorem takeWhile_of_not_mem {body rest : List Char} (h : c ∉ body) : (body ++ c :: rest).takeWhile (· ≠ c) = body := by
  have hbody : ∀ d ∈ body, decide (d ≠ c) = true := fun d hd => decide_eq_true fun heq => h (heq ▸ hd)
  rw [List.takeWhile_append_of_pos hbody, List.takeWhile_cons_of_neg (by simp), List.append_nil]

theorem longest_string (hc : c = '"' ∨ c = '\'') {body rest : List Char} (hbody : c ∉ body) :
    Longest (c :: body ++ [c]) (c :: (body ++ c :: rest)) := by
  have hclass : classOf c = .string := by rcases hc with rfl | rfl <;> decide +kernel
  refine longest_of_class ?_ ?_ fun u hu hstarts => ?_
  · rw [hclass]
    exact .string hc hbody
  · exact ⟨rest, by simp⟩
  · rw [hclass] at hu
    cases hu with
    | @string q inner _ hinner =>
      obtain ⟨rfl, ⟨after, hafter⟩⟩ := List.cons_prefix_cons.mp hstarts
      have hcut : inner ++ q :: after = body ++ q :: rest := by simpa using hafter
      -- Both bodies end at the first quote.
      have hsame := congrArg (List.takeWhile (· ≠ q)) hcut
      rw [takeWhile_of_not_mem hinner, takeWhile_of_not_mem hbody] at hsame
      rw [hsame]

/-! ## Marks -/

theorem Spelled.mark_cases (h : Spelled .mark u) : u.length = 1 ∨ u.length = 2 ∧ isOperator u = true := by
  cases h with
  | operator h =>
    have hall : ∀ w ∈ operators, w.length = 1 ∨ w.length = 2 := by decide
    have hlength := hall _ h
    rw [String.length_ofList] at hlength
    exact hlength.imp_right fun h₂ => ⟨h₂, List.contains_iff_mem.mpr h⟩
  | punctuator h =>
    have hall : ∀ w ∈ punctuation, w.1.length = 1 := by decide
    have hlength := hall _ h
    rw [String.length_ofList] at hlength
    exact Or.inl hlength

/-- A mark of two characters is the operator that they make. -/
theorem eq_pair_or_eq_singleton (h : Spelled .mark u) (hstarts : u <+: c :: cs) :
    u = [c] ∨ u = c :: cs.take 1 ∧ isOperator (c :: cs.take 1) = true := by
  have htake := List.prefix_iff_eq_take.mp hstarts
  rcases h.mark_cases with hone | ⟨htwo, hpair⟩
  · rw [hone] at htake
    exact Or.inl htake
  · rw [htwo] at htake
    have hsame : u = c :: cs.take 1 := htake
    exact Or.inr ⟨hsame, hsame ▸ hpair⟩

theorem longest_pair (hclass : classOf c = .mark) (hpair : isOperator (c :: cs.take 1) = true) :
    Longest (c :: cs.take 1) (c :: cs) := by
  refine longest_of_class ?_ ?_ fun u hu hstarts => ?_
  · rw [hclass]
    exact .operator (List.contains_iff_mem.mp hpair)
  · exact List.cons_prefix_cons.mpr ⟨rfl, List.take_prefix 1 cs⟩
  · rw [hclass] at hu
    rcases eq_pair_or_eq_singleton hu hstarts with rfl | ⟨rfl, -⟩
    · exact (List.prefix_append [c] _).length_le
    · exact Nat.le_refl _

theorem longest_singleton (hclass : classOf c = .mark) (hpair : isOperator (c :: cs.take 1) = false)
    (hspelled : Spelled .mark [c]) : Longest [c] (c :: cs) := by
  refine longest_of_class (hclass ▸ hspelled) (List.prefix_append [c] cs) fun u hu hstarts => ?_
  rw [hclass] at hu
  rcases eq_pair_or_eq_singleton hu hstarts with rfl | ⟨-, h⟩
  · exact Nat.le_refl _
  · exact absurd h (by simp [hpair])

theorem not_begins_of_mark (hclass : classOf c = .mark) (hpair : isOperator (c :: cs.take 1) = false)
    (hone : isOperator [c] = false) (hnone : punctuation.lookup (String.singleton c) = none) :
    ¬ Begins text (c :: cs) := by
  intro hbegins
  have hspelled := hbegins.spelled_classOf
  rw [hclass] at hspelled
  rcases eq_pair_or_eq_singleton hspelled hbegins.isPrefix with rfl | ⟨-, h⟩
  · cases hspelled with
    | operator h => exact Bool.false_ne_true (hone.symm.trans (List.contains_iff_mem.mpr h))
    | punctuator h => exact not_mem_of_lookup hnone _ h
  · exact Bool.false_ne_true (hpair.symm.trans h)

/-! ## Munching -/

theorem munched_numeral (hlongest : Longest text cs) (hsticks : ¬ Sticks text cs) (hspelled : Spelled .number text) :
    Munched cs (numeral text) := by
  unfold numeral
  split
  · exact .token hlongest hsticks (.number hspelled ‹_›)
  · exact .unreadable hspelled hlongest hsticks ‹_›

theorem munched_number (hc : Text.isDigit c = true) : Munched (c :: cs) (number (c :: cs)) := by
  have hlongest := longest_number cs hc
  have hspelled : Spelled .number _ := .number (written_digits hc cs ((c :: cs).dropWhile Text.isDigit))
  have hfraction := List.prefix_iff_eq_append.mp (isPrefix_fraction ((c :: cs).dropWhile Text.isDigit))
  have htext : (c :: cs).takeWhile Text.isDigit ++ (c :: cs).dropWhile Text.isDigit = c :: cs :=
    List.takeWhile_append_dropWhile
  rw [number_eq, decimal]
  generalize (c :: cs).takeWhile Text.isDigit = whole, (c :: cs).dropWhile Text.isDigit = rest at *
  rw [← hfraction, ← List.append_assoc] at htext
  generalize whole ++ fraction rest = digits, rest.drop (fraction rest).length = after at *
  cases after with
  | nil =>
    refine munched_numeral hlongest ?_ hspelled
    rintro ⟨-, d, ds, hsame, -⟩
    rw [hsame, List.append_right_inj] at htext
    cases htext
  | cons d ds =>
    rw [ending]
    split_ifs with hd
    · exact .badNumber hlongest ⟨hspelled, d, ds, htext.symm, hd⟩
    · refine munched_numeral hlongest ?_ hspelled
      rintro ⟨-, d', ds', hsame, hd'⟩
      rw [hsame, List.append_right_inj, List.cons.injEq] at htext
      exact hd (htext.1 ▸ hd')

theorem munched_word (hdigit : Text.isDigit c = false) (hc : isWordStart c = true) : Munched (c :: cs) (word c cs) := by
  have hlongest := longest_word cs hdigit hc
  have hspelled : Spelled .word (c :: cs.takeWhile isWordPart) := .word hc fun d hd => List.mem_takeWhile_imp hd
  have hsticks : ¬ Sticks (c :: cs.takeWhile isWordPart) (c :: cs) := fun h => nomatch h.1.class_unique hspelled
  unfold word
  dsimp only
  split
  · exact .token hlongest hsticks (.keyword hspelled (mem_of_lookup ‹_›))
  · rename_i hnone
    exact .token hlongest hsticks (.identifier hspelled (not_mem_of_lookup hnone))

theorem munched_string (hc : c = '"' ∨ c = '\'') : Munched (c :: cs) (string c cs) := by
  by_cases hclosed : c ∈ cs
  · obtain ⟨body, rest, rfl, hbody⟩ := List.eq_append_cons_of_mem hclosed
    have hspelled : Spelled .string (c :: body ++ [c]) := .string hc hbody
    have hread := ReadAs.string hspelled
    rw [List.cons_append, List.tail_cons, List.dropLast_concat, ← List.cons_append] at hread
    rw [string_of_not_mem hbody]
    exact .token (longest_string hc hbody) (fun h => nomatch h.1.class_unique hspelled) hread
  · rw [string_of_open hclosed]
    exact .openString ⟨c, cs, rfl, hc, hclosed⟩

theorem munched_mark (hclass : classOf c = .mark) : Munched (c :: cs) (mark c cs) := by
  have hsticks {text : List Char} (h : Spelled .mark text) : ¬ Sticks text (c :: cs) :=
    fun h' => nomatch h'.1.class_unique h
  unfold mark
  dsimp only
  split_ifs with hpair hone
  · have hmem := List.contains_iff_mem.mp hpair
    exact .token (longest_pair hclass hpair) (hsticks (.operator hmem)) (.operator hmem)
  · have hmem := List.contains_iff_mem.mp hone
    rw [Bool.not_eq_true] at hpair
    exact .token (longest_singleton hclass hpair (.operator hmem)) (hsticks (.operator hmem)) (.operator hmem)
  · rw [Bool.not_eq_true] at hpair hone
    split
    · have hmem := mem_of_lookup ‹_›
      exact .token (longest_singleton hclass hpair (.punctuator hmem)) (hsticks (.punctuator hmem)) (.punctuator hmem)
    · refine .badCharacter (fun u => not_begins_of_mark hclass hpair hone ‹_›) ?_
      rintro ⟨quote, body, htext, hquote, -⟩
      obtain ⟨rfl, -⟩ := List.cons.inj htext
      have hstring : classOf c = .string := by rcases hquote with rfl | rfl <;> decide +kernel
      rw [hstring] at hclass
      cases hclass

end Lexeme

open Lexeme in
theorem lexeme_munched (c : Char) (cs : List Char) : Munched (c :: cs) (lexeme c cs) := by
  unfold lexeme
  split_ifs with hdigit hword hquote
  · exact munched_number hdigit
  · exact munched_word (Bool.eq_false_iff.mpr hdigit) hword
  · exact munched_string hquote
  · exact munched_mark (by rw [classOf, if_neg hdigit, if_neg hword, if_neg hquote])

/-! ## Scanners -/

namespace Scanner

/-- The next token is refused, with an error of the given code. -/
def Refuses (s : Scanner) (code : String) : Prop :=
  ∃ e, s.nextToken.1 = .error (.error e) ∧ e.diagnostic.code = some code

open Lexeme
variable {s : Scanner}

theorem Refuses.unique {code code' : String} (h : s.Refuses code) (h' : s.Refuses code') : code = code' := by
  obtain ⟨e, he, hcode⟩ := h
  obtain ⟨e', he', hcode'⟩ := h'
  cases he.symm.trans he'
  exact Option.some.inj (hcode.symm.trans hcode')

theorem Refuses.ne_ok {code : String} (h : s.Refuses code) (t : Token) : s.nextToken.1 ≠ .ok t := by
  obtain ⟨e, he, -⟩ := h
  intro ht
  cases he.symm.trans ht

/-- The token that the longest beginning of the rest stands for. -/
structure Munches (s : Scanner) (t : Token) (k : TokenClass) (text : List Char) : Prop where
  longest : Longest text s.rest
  not_sticks : ¬ Sticks text s.rest
  readAs : ReadAs k text t.kind t.value
  lexeme_eq : t.lexeme = String.ofList text
  location_eq : t.location = s.cursor.location s.file

theorem Munches.unique {t t' : Token} {k k' : TokenClass} {text text' : List Char} (h : s.Munches t k text)
    (h' : s.Munches t' k' text') : t = t' := by
  obtain rfl := h.longest.unique h'.longest
  obtain ⟨hkind, hvalue⟩ := h.readAs.unique h'.readAs
  have hlexeme := h.lexeme_eq.trans h'.lexeme_eq.symm
  have hlocation := h.location_eq.trans h'.location_eq.symm
  cases t
  cases t'
  simp_all

theorem nextToken_cases (hrest : s.rest ≠ []) (hread : ∀ text, s.nextToken.1 ≠ .error (.unreadable text)) :
    (∃ t k text, s.nextToken.1 = .ok t ∧ s.Munches t k text) ∨
      s.Refuses "L003" ∧ (∃ text, Longest text s.rest ∧ Sticks text s.rest) ∨
      s.Refuses "L002" ∧ Unclosed s.rest ∨
      s.Refuses "L001" ∧ (∀ text, ¬ Begins text s.rest) ∧ ¬ Unclosed s.rest := by
  obtain ⟨c, cs, hcs⟩ := List.exists_cons_of_ne_nil hrest
  have hmunched := lexeme_munched c cs
  rw [← hcs] at hmunched
  unfold Refuses
  unfold nextToken at hread ⊢
  rw [hcs] at hread ⊢
  dsimp only at hread ⊢
  rw [← hcs]
  generalize Lookahead.lexeme c cs = found at hmunched hread ⊢
  cases hmunched with
  | token hlongest hsticks hreadAs => exact Or.inl ⟨_, _, _, rfl, hlongest, hsticks, hreadAs, rfl, rfl⟩
  | unreadable => exact absurd rfl (hread _)
  | badNumber hlongest hsticks => exact Or.inr (Or.inl ⟨⟨_, rfl, rfl⟩, _, hlongest, hsticks⟩)
  | openString hopen => exact Or.inr (Or.inr (Or.inl ⟨⟨_, rfl, rfl⟩, hopen⟩))
  | badCharacter hnone hclosed => exact Or.inr (Or.inr (Or.inr ⟨⟨_, rfl, rfl⟩, hnone, hclosed⟩))

/-- What is refused has no beginning that makes a token. -/
theorem Refuses.no_token {code : String} (h : s.Refuses code) (hnone : ¬ ∃ text, Longest text s.rest ∧ ¬ Sticks text s.rest) :
    ((∃ t, s.nextToken.1 = .ok t) ↔ ∃ text, Longest text s.rest ∧ ¬ Sticks text s.rest) ∧
      ∀ t, s.nextToken.1 = .ok t ↔ ∃ k text, s.Munches t k text := by
  refine ⟨iff_of_false (fun ⟨t, ht⟩ => h.ne_ok t ht) hnone, fun t => iff_of_false (h.ne_ok t) ?_⟩
  rintro ⟨k, text, hmunches⟩
  exact hnone ⟨text, hmunches.longest, hmunches.not_sticks⟩

theorem Refuses.iff_false {code code' : String} {q : Prop} (h : s.Refuses code) (hne : code ≠ code') (hq : ¬ q) :
    s.Refuses code' ↔ q :=
  iff_of_false (fun h' => hne (h.unique h')) hq

/-- Where text is left and a number has a value, a token is read if and only if some beginning of the rest is in the
token language and the longest of them is no number right before a letter; it is the token of that beginning. All else is
refused: as a bad number, as a string that is not closed, or as a bad character. -/
theorem nextToken_munches (hrest : s.rest ≠ []) (hread : ∀ text, s.nextToken.1 ≠ .error (.unreadable text)) :
    ((∃ t, s.nextToken.1 = .ok t) ↔ ∃ text, Longest text s.rest ∧ ¬ Sticks text s.rest) ∧
    (∀ t, s.nextToken.1 = .ok t ↔ ∃ k text, s.Munches t k text) ∧
    (s.Refuses "L003" ↔ ∃ text, Longest text s.rest ∧ Sticks text s.rest) ∧
    (s.Refuses "L002" ↔ Unclosed s.rest) ∧
    (s.Refuses "L001" ↔ (∀ text, ¬ Begins text s.rest) ∧ ¬ Unclosed s.rest) := by
  rcases nextToken_cases hrest hread with ⟨t, k, text, ht, h⟩ | ⟨href, text, hlongest, hsticks⟩ | ⟨href, hopen⟩ |
    ⟨href, hnone, hclosed⟩
  · have hnot (code : String) : ¬ s.Refuses code := fun href => href.ne_ok t ht
    refine ⟨iff_of_true ⟨t, ht⟩ ⟨text, h.longest, h.not_sticks⟩, fun u => ⟨fun hu => ?_, ?_⟩,
      iff_of_false (hnot _) ?_, iff_of_false (hnot _) fun hopen => hopen.not_begins h.longest.toBegins,
      iff_of_false (hnot _) fun hnone => hnone.1 text h.longest.toBegins⟩
    · rw [← Except.ok.inj (ht.symm.trans hu)]
      exact ⟨k, text, h⟩
    · rintro ⟨k', text', h'⟩
      rw [h'.unique h]
      exact ht
    · rintro ⟨u, hlongest, hsticks⟩
      exact h.not_sticks (hlongest.unique h.longest ▸ hsticks)
  · have hno : ¬ ∃ u, Longest u s.rest ∧ ¬ Sticks u s.rest := fun ⟨u, hu, hnot⟩ => hnot (hlongest.unique hu ▸ hsticks)
    exact ⟨(href.no_token hno).1, (href.no_token hno).2, iff_of_true href ⟨text, hlongest, hsticks⟩,
      href.iff_false (by decide) fun hopen => hopen.not_begins hlongest.toBegins,
      href.iff_false (by decide) fun hnone => hnone.1 text hlongest.toBegins⟩
  · have hno : ∀ u, ¬ Longest u s.rest := fun u hu => hopen.not_begins hu.toBegins
    have hnot := href.no_token fun ⟨u, hu, _⟩ => hno u hu
    exact ⟨hnot.1, hnot.2, href.iff_false (by decide) fun ⟨u, hu, _⟩ => hno u hu, iff_of_true href hopen,
      href.iff_false (by decide) fun h => h.2 hopen⟩
  · have hno : ∀ u, ¬ Longest u s.rest := fun u hu => hnone u hu.toBegins
    have hnot := href.no_token fun ⟨u, hu, _⟩ => hno u hu
    exact ⟨hnot.1, hnot.2, href.iff_false (by decide) fun ⟨u, hu, _⟩ => hno u hu,
      href.iff_false (by decide) hclosed, iff_of_true href ⟨hnone, hclosed⟩⟩

/-- A number goes on after a point only with a digit. -/
theorem nextToken_munches_decimal : ((ofSource "" "a1.5.x").advance 1).rest ≠ [] ∧
    (∀ text, ((ofSource "" "a1.5.x").advance 1).nextToken.1 ≠ .error (.unreadable text)) ∧
    ∃ t k, t.lexeme = "1.5" ∧ ((ofSource "" "a1.5.x").advance 1).Munches t k ['1', '.', '5'] := by
  have hrest : ((ofSource "" "a1.5.x").advance 1).rest ≠ [] := by decide
  have htoken : ((ofSource "" "a1.5.x").advance 1).nextToken.1.toOption.map Token.lexeme = some "1.5" := by decide +kernel
  cases ht : ((ofSource "" "a1.5.x").advance 1).nextToken.1 with
  | error f =>
    rw [ht] at htoken
    cases htoken
  | ok t =>
    have hread : ∀ text, ((ofSource "" "a1.5.x").advance 1).nextToken.1 ≠ .error (.unreadable text) := by
      intro text h
      cases ht.symm.trans h
    rw [ht] at htoken
    have hlexeme : t.lexeme = "1.5" := Option.some.inj htoken
    obtain ⟨k, text, h⟩ := ((nextToken_munches hrest hread).2.1 t).mp ht
    have htext : text = ['1', '.', '5'] := by
      rw [← String.toList_ofList (l := text), ← h.lexeme_eq, hlexeme]
      rfl
    exact ⟨hrest, ht ▸ hread, t, k, hlexeme, htext ▸ h⟩

end Scanner
end Lookahead
