import Lookahead.Proofs.Scan.Sight
import Lookahead.Proofs.Scan.Tiling

/-! Tokens written out again. Their lexemes in a row, with layout between them that starts with a blank, are scanned into
the same tokens, whatever the layout is. -/
namespace Lookahead

/-- Blanks, and comments with the ends of their lines. -/
inductive Separator : List Char → Prop
  | nil : Separator []
  | blank {b cs} : Text.isBlank b = true → Separator cs → Separator (b :: cs)
  | comment {body cs} : '\n' ∉ body → Separator cs → Separator ('/' :: '/' :: body ++ '\n' :: cs)

/-- Layout to stand after each of `n` lexemes; only after the last one there need not be any. -/
structure Separates (n : ℕ) (gaps : List (List Char)) : Prop where
  length_eq : gaps.length = n
  separator : ∀ gap ∈ gaps, Separator gap
  inner : ∀ gap ∈ gaps.dropLast, ∃ b rest, gap = b :: rest ∧ Text.isBlank b = true
  last : ∀ gap ∈ gaps.getLast?, ∀ b ∈ gap.head?, Text.isBlank b = true

/-- The lexemes of the tokens, with the layout after each of them. -/
def spaced (tokens : List Token) (gaps : List (List Char)) : List Char :=
  (List.zipWith (fun t gap => t.lexeme.toList ++ gap) tokens gaps).flatten

/-- A token but for its place. -/
def Token.unplaced (t : Token) : Kind × String × Option Value := (t.kind, t.lexeme, t.value)

/-! ## Layout -/

theorem layout_of_comment {body : List Char} (h : '\n' ∉ body) :
    layout ('/' :: '/' :: body) = '/' :: '/' :: body := by
  have hbody : ∀ c ∈ body, decide (c ≠ '\n') = true := fun c hc => decide_eq_true fun heq => h (heq ▸ hc)
  rw [layout_comment, List.takeWhile_eq_self_iff.mpr hbody, List.dropWhile_eq_nil_iff.mpr hbody]
  simp [layout, layoutFrom]

theorem Separator.passed {cs : List Char} (h : Separator cs) : Passed cs := by
  induction h with
  | nil => exact fun ds => rfl
  | @blank b cs hb _ ih => exact (passed_of_blanks (List.forall_mem_singleton.mpr hb)).append ih
  | @comment body cs hbody _ ih =>
    rw [List.append_cons]
    exact (passed_line (layout_of_comment hbody)).append ih

namespace Separates
variable {n : ℕ} {gap : List Char} {gaps : List (List Char)}

theorem tail (h : Separates (n + 1) (gap :: gaps)) : Separates n gaps where
  length_eq := Nat.succ_injective h.length_eq
  separator := fun g hg => h.separator g (List.mem_cons_of_mem gap hg)
  inner := by
    cases gaps with
    | nil => exact List.forall_mem_nil _
    | cons next gaps => exact fun g hg => h.inner g (List.mem_cons_of_mem gap hg)
  last := by
    cases gaps with
    | nil => exact fun g hg => nomatch hg
    | cons next gaps => exact fun g hg => h.last g hg

/-- What comes after a lexeme starts with a blank, or there is nothing. -/
theorem fades (h : Separates (n + 1) (gap :: gaps)) (after : List Char) (tokens : List Token) :
    Fades after (gap ++ spaced tokens gaps) := by
  cases gaps with
  | nil =>
    cases gap with
    | nil =>
      rw [spaced, List.zipWith_nil_right]
      exact .nil
    | cons b gap => exact .blank (h.last (b :: gap) rfl b rfl)
  | cons next gaps =>
    obtain ⟨b, rest, rfl, hb⟩ := h.inner gap List.mem_cons_self
    exact .blank hb

end Separates

/-! ## Scans of tokens written out -/

theorem Lexeme.item?_token {found : Lexeme} {file : String} {p : Cursor} {t : Token}
    (h : found.item? file p = some (.token t)) (file' : String) (q : Cursor) :
    ∃ t', found.item? file' q = some (.token t') ∧ t'.unplaced = t.unplaced := by
  cases found with
  | token kind text value =>
    cases h
    exact ⟨_, rfl, rfl⟩
  | fault f text => cases h
  | unreadable text => cases h

section Scan
variable {file : String} {p : Cursor} {cs : List Char} {s : Scan}

theorem Scan.tokens_push (t : Token) (s : Scan) : (s.push (.token t)).tokens = t :: s.tokens := rfl

/-- The tokens of a scan without errors, written out with layout between them, are scanned again. The induction is on
the pieces of the scan, of which only the layout in front of a lexeme changes. -/
theorem Scans.spaced (h : Scans file p cs s) (hread : s.unreadable = none) (herrors : s.errors = [])
    {gaps : List (List Char)} (hgaps : Separates s.tokens.length gaps) (file' : String) (q : Cursor) :
    ∃ s', Scans file' q (Lookahead.spaced s.tokens gaps) s' ∧ s'.unreadable = none ∧ s'.errors = [] ∧
      s'.tokens.map Token.unplaced = s.tokens.map Token.unplaced := by
  induction h generalizing gaps q with
  | finish => exact ⟨_, .finish rfl, rfl, rfl, rfl⟩
  | unreadable => cases hread
  | @item p lead c rest text after i s hlead htext hwidth hitem _ ih =>
    cases i with
    | error e => cases herrors
    | token t =>
      obtain ⟨gap, gaps, rfl⟩ := List.exists_cons_of_length_eq_add_one hgaps.length_eq
      obtain ⟨hlexeme, -⟩ := ((lexeme_found c rest).covers htext hwidth hitem).2
      have hnext := ih hread herrors hgaps.tail ((q.past text).past gap)
      obtain ⟨s', hscans, hread', herrors', htokens⟩ := hnext
      have hafter := hscans.after_layout (hgaps.separator gap List.mem_cons_self).passed
      obtain ⟨t', ht', hunplaced⟩ := Lexeme.item?_token hitem file' (q.past [])
      have hnone : layout ([] ++ c :: rest) = [] := by
        rw [passed_of_rest hlead] at hlead
        exact List.append_right_eq_self.mp hlead
      have hitem' := Scans.item_fades hnone htext hwidth ht' (fun _ _ => ScanItem.noConfusion)
        (hgaps.fades after s.tokens) hafter
      refine ⟨s'.push (.token t'), ?_, hread', herrors', ?_⟩
      · rw [Scan.tokens_push, Lookahead.spaced, List.zipWith_cons_cons, List.flatten_cons, hlexeme, List.append_assoc]
        exact hitem'
      · rw [Scan.tokens_push, Scan.tokens_push, List.map_cons, List.map_cons, htokens, hunplaced]

end Scan

/-! ## Whole texts -/

/-- A text without errors can be laid out anew: its lexemes in a row, with any layout in front, layout after each that
starts with a blank, and after the last such layout or none, are scanned without errors into the same tokens. -/
theorem tokenize_spaced {file source : String} {tokens : List Token} (h : tokenize file source = .ok tokens)
    {first : List Char} {gaps : List (List Char)} (hfirst : Separator first)
    (hgaps : Separates tokens.dropLast.length gaps) (file' : String) :
    ∃ tokens', tokenize file' (String.ofList (first ++ spaced tokens.dropLast gaps)) = .ok tokens' ∧
      tokens'.map Token.unplaced = tokens.map Token.unplaced := by
  obtain ⟨hread, herrors, rfl⟩ := tokenize_eq_ok_iff.mp h
  rw [List.dropLast_concat] at hgaps ⊢
  have hscans := scans_scanFrom file .start source.toList
  obtain ⟨s', hscans', hread', herrors', htokens⟩ :=
    hscans.spaced hread herrors hgaps file' (Cursor.start.past first)
  have hscan := (hscans'.after_layout hfirst.passed).eq
  refine ⟨s'.tokens ++ [s'.endToken file'], tokenize_eq_ok_iff.mpr ?_, ?_⟩
  · rw [String.toList_ofList, hscan]
    exact ⟨hread', herrors', rfl⟩
  · rw [List.map_append, List.map_append, htokens]
    rfl

/-- A string with slashes and the end of a line in it, before a slash. -/
theorem tokenize_spaced_string :
    tokenize "" "a'//\n'/b" = .ok [⟨.identifier, "a", some (.text "a"), ⟨"", 1, 1, 0⟩⟩,
      ⟨.string, "'//\n'", some (.text "//\n"), ⟨"", 1, 2, 1⟩⟩, ⟨.operator, "/", none, ⟨"", 2, 2, 6⟩⟩,
      ⟨.identifier, "b", some (.text "b"), ⟨"", 2, 3, 7⟩⟩, ⟨.eof, "", none, ⟨"", 2, 4, 8⟩⟩] ∧
    Separator ['/', '/', 'c', '\n'] ∧ Separates 4 [[' '], ['\n', '/', '/', '\n'], ['\t'], []] ∧
    ∃ tokens, tokenize "" "//c\na '//\n'\n//\n/\tb" = .ok tokens ∧ tokens.map Token.unplaced =
      [(.identifier, "a", some (.text "a")), (.string, "'//\n'", some (.text "//\n")), (.operator, "/", none),
        (.identifier, "b", some (.text "b")), (.eof, "", none)] := by
  have htokens : tokenize "" "a'//\n'/b" = .ok [⟨.identifier, "a", some (.text "a"), ⟨"", 1, 1, 0⟩⟩,
      ⟨.string, "'//\n'", some (.text "//\n"), ⟨"", 1, 2, 1⟩⟩, ⟨.operator, "/", none, ⟨"", 2, 2, 6⟩⟩,
      ⟨.identifier, "b", some (.text "b"), ⟨"", 2, 3, 7⟩⟩, ⟨.eof, "", none, ⟨"", 2, 4, 8⟩⟩] := by decide +kernel
  have hblank : ∀ b ∈ [' ', '\n', '\t'], Text.isBlank b = true := List.all_eq_true.mp (by decide +kernel)
  have hfirst : Separator ['/', '/', 'c', '\n'] := @Separator.comment ['c'] [] (by decide) .nil
  have hline : Separator ['\n', '/', '/', '\n'] := .blank (hblank _ (by decide)) (@Separator.comment [] [] (by decide) .nil)
  have hgaps : Separates 4 [[' '], ['\n', '/', '/', '\n'], ['\t'], []] := by
    refine ⟨rfl, ?_, ?_, ?_⟩
    · simp only [List.forall_mem_cons]
      exact ⟨.blank (hblank _ (by decide)) .nil, hline, .blank (hblank _ (by decide)) .nil, .nil, List.forall_mem_nil _⟩
    · intro gap hgap
      have hhead : ∀ g ∈ [[' '], ['\n', '/', '/', '\n'], ['\t']], ∃ b ∈ [' ', '\n', '\t'], ∃ rest, g = b :: rest := by simp
      obtain ⟨b, hb, rest, rfl⟩ := hhead gap hgap
      exact ⟨b, rest, rfl, hblank b hb⟩
    · rintro gap ⟨⟩ b ⟨⟩
  refine ⟨htokens, hfirst, hgaps, ?_⟩
  obtain ⟨tokens, hspaced, hunplaced⟩ := tokenize_spaced htokens hfirst hgaps ""
  exact ⟨tokens, hspaced, hunplaced⟩

end Lookahead
