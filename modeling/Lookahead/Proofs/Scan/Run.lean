import Lookahead.Proofs.Scan.Layout
import Lookahead.Proofs.Scan.Lexeme
import Lookahead.Scan.Basic

/-! Scans made of pieces: layout, and then what a lexeme puts into the scan. -/
namespace Lookahead

namespace Lexeme
variable {c : Char} {cs : List Char} {found : Lexeme}

/-- What a lexeme found at `p` is to a scan; one that has no value stops it. -/
def item? (file : String) (p : Cursor) : Lexeme → Option ScanItem
  | token kind text value => some (.token ⟨kind, String.ofList text, value, p.location file⟩)
  | fault f _ => some (.error ⟨f, p.location file⟩)
  | unreadable _ => none

theorem Found.text_prefix (h : Found c cs found) : found.text <+: c :: cs := by
  cases h with
  | token _ h => exact h
  | badCharacter => exact List.nil_prefix
  | badNumber _ h => exact h
  | openString => exact List.prefix_rfl
  | unreadable _ h => exact h

/-- The characters passed over, one at least. -/
theorem Found.exists_taken (h : Found c cs found) :
    ∃ text after, c :: cs = text ++ after ∧ text.length = max 1 found.text.length := by
  have hle : max 1 found.text.length ≤ (c :: cs).length :=
    max_le (Nat.succ_le_of_lt (Nat.succ_pos _)) h.text_prefix.length_le
  exact ⟨_, _, (List.take_append_drop _ _).symm, List.length_take_of_le hle⟩

end Lexeme

/-- The scan of a text that stands at the given place. -/
inductive Scans (file : String) : Cursor → List Char → Scan → Prop
  | finish {p cs} : layout cs = cs → Scans file p cs ⟨[], p.past cs, none⟩
  | unreadable {p gap c rest text after} : layout (gap ++ c :: rest) = gap → c :: rest = text ++ after →
      text.length = max 1 (lexeme c rest).text.length → (lexeme c rest).item? file (p.past gap) = none →
      Scans file p (gap ++ c :: rest) ⟨[], (p.past gap).past text, some (String.ofList (lexeme c rest).text)⟩
  | item {p gap c rest text after i s} : layout (gap ++ c :: rest) = gap → c :: rest = text ++ after →
      text.length = max 1 (lexeme c rest).text.length → (lexeme c rest).item? file (p.past gap) = some i →
      Scans file ((p.past gap).past text) after s → Scans file p (gap ++ c :: rest) (s.push i)

variable {file : String} {p : Cursor} {cs : List Char} {s : Scan}

theorem Scan.mem_tokens_iff {t : Token} : t ∈ s.tokens ↔ .token t ∈ s.items := by
  refine List.mem_filterMap.trans ⟨fun ⟨i, hi, hit⟩ => ?_, fun h => ⟨.token t, h, rfl⟩⟩
  cases i with
  | token u =>
    obtain rfl := Option.some.inj hit
    exact hi
  | error e => cases hit

theorem Scan.mem_errors_iff {e : ScanError} : e ∈ s.errors ↔ .error e ∈ s.items := by
  refine List.mem_filterMap.trans ⟨fun ⟨i, hi, hie⟩ => ?_, fun h => ⟨.error e, h, rfl⟩⟩
  cases i with
  | token t => cases hie
  | error d =>
    obtain rfl := Option.some.inj hie
    exact hi

theorem scanFrom_of_finish (h : layout cs = cs) : scanFrom file p cs = ⟨[], p.past cs, none⟩ := by
  rw [scanFrom, h]
  split
  · rfl
  · rename_i hdrop
    rw [List.drop_length] at hdrop
    cases hdrop

theorem scanFrom_of_lexeme {gap rest text after : List Char} {c : Char} (hgap : layout (gap ++ c :: rest) = gap)
    (htext : c :: rest = text ++ after) (hwidth : text.length = max 1 (lexeme c rest).text.length) :
    scanFrom file p (gap ++ c :: rest) =
      match (lexeme c rest).item? file (p.past gap) with
      | some i => (scanFrom file ((p.past gap).past text) after).push i
      | none => ⟨[], (p.past gap).past text, some (String.ofList (lexeme c rest).text)⟩ := by
  rw [scanFrom, hgap]
  split
  · rename_i hdrop
    rw [List.drop_left] at hdrop
    cases hdrop
  · rename_i hdrop
    rw [List.drop_left] at hdrop
    cases hdrop
    dsimp only
    rw [← hwidth, htext, List.take_left, List.drop_left]
    cases lexeme c rest <;> rfl

theorem Scans.eq (h : Scans file p cs s) : scanFrom file p cs = s := by
  induction h with
  | finish hend => exact scanFrom_of_finish hend
  | unreadable hgap htext hwidth hitem => rw [scanFrom_of_lexeme hgap htext hwidth, hitem]
  | item hgap htext hwidth hitem _ ih => rw [scanFrom_of_lexeme hgap htext hwidth, hitem, ← ih]

/-- The scanner scans. The induction is on what is left of the text. -/
theorem scans_scanFrom (file : String) (p : Cursor) (cs : List Char) : Scans file p cs (scanFrom file p cs) := by
  induction h : cs.length using Nat.strong_induction_on generalizing p cs with
  | _ n ih =>
    subst h
    have hcs := layout_append_drop cs
    cases hdrop : cs.drop (layout cs).length with
    | nil =>
      rw [hdrop, List.append_nil] at hcs
      rw [scanFrom_of_finish hcs]
      exact .finish hcs
    | cons c rest =>
      rw [hdrop] at hcs
      generalize hgap : layout cs = gap at hcs
      subst hcs
      obtain ⟨text, after, htext, hwidth⟩ := (lexeme_found c rest).exists_taken
      have hshorter : after.length < (gap ++ c :: rest).length := by
        rw [htext, List.length_append, List.length_append]
        omega
      rw [scanFrom_of_lexeme hgap htext hwidth]
      cases hitem : (lexeme c rest).item? file (p.past gap) with
      | none => exact .unreadable hgap htext hwidth hitem
      | some i => exact .item hgap htext hwidth hitem (ih _ hshorter _ _ rfl)

/-- Layout at the start of a text is passed over. -/
theorem Scans.after_layout (hcs : Passed cs) {ds : List Char} (h : Scans file (p.past cs) ds s) :
    Scans file p (cs ++ ds) s := by
  generalize hq : p.past cs = q at h
  cases h with
  | finish hds =>
    subst hq
    rw [← Cursor.past_append]
    exact .finish (by rw [hcs, hds])
  | @unreadable _ gap c rest text after hgap htext hwidth hitem =>
    subst hq
    rw [← Cursor.past_append p cs gap] at hitem ⊢
    have hlayout : layout ((cs ++ gap) ++ c :: rest) = cs ++ gap := by rw [List.append_assoc, hcs, hgap]
    rw [← List.append_assoc]
    exact .unreadable hlayout htext hwidth hitem
  | @item _ gap c rest text after i t hgap htext hwidth hitem ht =>
    subst hq
    rw [← Cursor.past_append p cs gap] at hitem ht
    have hlayout : layout ((cs ++ gap) ++ c :: rest) = cs ++ gap := by rw [List.append_assoc, hcs, hgap]
    rw [← List.append_assoc]
    exact .item hlayout htext hwidth hitem ht

theorem scan_eq_ok_iff {file source : String} {s : Scanned} : scan file source = .ok s ↔
    (scanFrom file .start source.toList).unreadable = none ∧
      ⟨(scanFrom file .start source.toList).tokens ++ [(scanFrom file .start source.toList).endToken file],
        (scanFrom file .start source.toList).errors⟩ = s := by
  unfold scan Scan.scanned
  cases (scanFrom file .start source.toList).unreadable <;> simp

theorem tokenize_eq_ok_iff {file source : String} {tokens : List Token} : tokenize file source = .ok tokens ↔
    (scanFrom file .start source.toList).unreadable = none ∧ (scanFrom file .start source.toList).errors = [] ∧
      (scanFrom file .start source.toList).tokens ++ [(scanFrom file .start source.toList).endToken file] = tokens := by
  unfold tokenize scan Scan.scanned
  cases (scanFrom file .start source.toList).unreadable with
  | some lexeme => simp
  | none => cases (scanFrom file .start source.toList).errors <;> simp

end Lookahead
