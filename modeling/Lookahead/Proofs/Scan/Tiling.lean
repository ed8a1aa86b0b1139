import Lookahead.Proofs.Scan.Run

/-! A scan tiles its text. The spans of the tokens, of the errors and of the layout between them stand one after the
other and leave nothing out. -/
namespace Lookahead

/-! ## Spans -/

/-- The text that a fault is about, and the text after it: one character, a whole lexeme, or all that is left from a
quote that is not closed. -/
inductive ScanFault.Covers : ScanFault → List Char → List Char → Prop
  | badCharacter {c after} : Covers (.badCharacter (String.singleton c)) [c] after
  | badNumber {text reason after} : text ≠ [] → Covers (.badNumber (String.ofList text) reason) text after
  | openString {quote body} : quote ∉ body → Covers (.openString (String.singleton quote)) (quote :: body) []

namespace ScanItem

def location : ScanItem → Location
  | token t => t.location
  | error e => e.location

def Covers : ScanItem → List Char → List Char → Prop
  | token t, text, _ => t.lexeme.toList = text ∧ text ≠ []
  | error e, text, after => e.fault.Covers text after

theorem Covers.ne_nil {i : ScanItem} {text after : List Char} (h : i.Covers text after) : text ≠ [] := by
  cases i with
  | token t => exact h.2
  | error e =>
    obtain ⟨fault, location⟩ := e
    cases h with
    | badCharacter => exact List.cons_ne_nil _ _
    | badNumber h => exact h
    | openString => exact List.cons_ne_nil _ _

end ScanItem

/-- A piece of layout, or a token or an error with the text it covers. -/
inductive Span where
  | layout (text : List Char)
  | item (i : ScanItem) (text : List Char)

namespace Span

def text : Span → List Char
  | layout text => text
  | item _ text => text

def item? : Span → Option ScanItem
  | layout _ => none
  | item i _ => some i

def Fits (file : String) (p : Cursor) (after : List Char) : Span → Prop
  | layout text => Gap text after
  | item i text => i.location = p.location file ∧ i.Covers text after

/-- The spans fit one after the other, from `p` to the end of the text. -/
def Tiles (file : String) : Cursor → List Span → Prop
  | _, [] => True
  | p, sp :: spans => sp.Fits file p (spans.flatMap text) ∧ Tiles file (p.past sp.text) spans

end Span

/-! ## Places -/

section Places
variable {file : String} {p : Cursor} {sp : Span} {spans : List Span}

theorem Cursor.offset_past (p : Cursor) (cs : List Char) : (p.past cs).offset = p.offset + cs.length := by
  induction cs generalizing p with
  | nil => rfl
  | cons c cs ih =>
    have hstep : (p.step c).offset = p.offset + 1 := by rw [step]; split <;> rfl
    rw [past_cons, ih, hstep, List.length_cons]
    omega

theorem Span.Fits.ne_nil {after : List Char} (h : sp.Fits file p after) : sp.text ≠ [] := by
  cases sp with
  | layout text => exact Gap.ne_nil h
  | item i text => exact h.2.ne_nil

theorem Span.Tiles.ne_nil (h : Tiles file p spans) : ∀ sp ∈ spans, sp.text ≠ [] := by
  induction spans generalizing p with
  | nil => exact fun sp hsp => absurd hsp List.not_mem_nil
  | cons sp spans ih => exact List.forall_mem_cons.mpr ⟨h.1.ne_nil, ih h.2⟩

/-- Where a span begins that is not the first. -/
theorem Span.Tiles.lt_offset (h : Tiles file p (sp :: spans)) : p.offset < (p.past sp.text).offset := by
  have hlength := List.length_pos_iff.mpr h.1.ne_nil
  rw [Cursor.offset_past]
  omega

theorem Span.Tiles.offset_bounds (h : Tiles file p spans) : ∀ i ∈ spans.filterMap item?,
    (p.offset : ℤ) ≤ i.location.offset ∧ i.location.offset < (p.past (spans.flatMap text)).offset := by
  induction spans generalizing p with
  | nil => exact fun i hi => absurd hi List.not_mem_nil
  | cons sp spans ih =>
    have hlt := h.lt_offset
    have hrest := ih h.2
    rw [List.flatMap_cons, Cursor.past_append]
    have hend : (p.past sp.text).offset ≤ ((p.past sp.text).past (spans.flatMap text)).offset := by
      rw [Cursor.offset_past _ (spans.flatMap text)]
      omega
    intro i hi
    cases sp with
    | layout text =>
      have hi := hrest i hi
      exact ⟨by omega, hi.2⟩
    | item j text =>
      rcases List.mem_cons.mp hi with rfl | hi
      · have hplace : i.location.offset = p.offset := by rw [h.1.1]; rfl
        exact ⟨by omega, by omega⟩
      · have hi := hrest i hi
        exact ⟨by omega, hi.2⟩

theorem Span.Tiles.pairwise (h : Tiles file p spans) :
    (spans.filterMap item?).Pairwise fun i j => i.location.offset < j.location.offset := by
  induction spans generalizing p with
  | nil => exact .nil
  | cons sp spans ih =>
    cases sp with
    | layout text => exact ih h.2
    | item i text =>
      refine List.pairwise_cons.mpr ⟨fun j hj => ?_, ih h.2⟩
      have hlt := h.lt_offset
      have hj := h.2.offset_bounds j hj
      have hplace : i.location.offset = p.offset := by rw [h.1.1]; rfl
      omega

/-- The text of a token stands where the token says. -/
theorem Span.Tiles.lexeme_prefix (h : Tiles file p spans) {t : Token} (ht : .token t ∈ spans.filterMap item?) :
    t.lexeme.toList <+: (spans.flatMap text).drop (t.location.offset - p.offset).toNat := by
  induction spans generalizing p with
  | nil => exact absurd ht List.not_mem_nil
  | cons sp spans ih =>
    have hlater (ht : .token t ∈ spans.filterMap item?) :
        t.lexeme.toList <+: ((sp :: spans).flatMap text).drop (t.location.offset - p.offset).toNat := by
      have hplace := (h.2.offset_bounds _ ht).1
      have hshift : (t.location.offset - p.offset).toNat =
          sp.text.length + (t.location.offset - (p.past sp.text).offset).toNat := by
        rw [Cursor.offset_past] at hplace ⊢
        simp only [ScanItem.location] at hplace
        omega
      rw [List.flatMap_cons, hshift, List.drop_length_add_append]
      exact ih h.2 ht
    cases sp with
    | layout text => exact hlater ht
    | item i text =>
      rcases List.mem_cons.mp ht with rfl | ht
      · obtain ⟨hplace, rfl, -⟩ := h.1
        have hzero : (t.location.offset - p.offset).toNat = 0 := by
          rw [show t.location = p.location file from hplace]
          simp [Cursor.location]
        rw [hzero, List.flatMap_cons]
        exact List.prefix_append _ _
      · exact hlater ht

end Places

/-! ## The spans of a scan -/

section Scan
variable {file : String} {p : Cursor} {cs : List Char} {s : Scan}

/-- Layout comes apart into pieces in front of spans for the rest of the text. -/
theorem exists_layout_spans {spans : List Span} (htext : spans.flatMap Span.text = cs.drop (layout cs).length)
    (htiles : Span.Tiles file (p.past (layout cs)) spans) :
    ∃ all : List Span, all.flatMap Span.text = cs ∧ Span.Tiles file p all ∧
      all.filterMap Span.item? = spans.filterMap Span.item? := by
  induction h : cs.length using Nat.strong_induction_on generalizing p cs with
  | _ n ih =>
    subst h
    obtain hnil | ⟨gap, after, rfl, hgap, hlayout⟩ := layout_cases cs
    · rw [hnil] at htext htiles
      exact ⟨spans, htext, htiles, rfl⟩
    · have hlength : after.length < (gap ++ after).length := by
        have := List.length_pos_iff.mpr hgap.ne_nil
        rw [List.length_append]
        omega
      rw [hlayout] at htext htiles
      rw [List.length_append, List.drop_length_add_append] at htext
      rw [Cursor.past_append] at htiles
      obtain ⟨all, hall, htiles, hitems⟩ := ih _ hlength htext htiles rfl
      refine ⟨.layout gap :: all, ?_, ⟨?_, htiles⟩, hitems⟩
      · rw [List.flatMap_cons, hall, Span.text]
      · rw [hall]
        exact hgap

/-- What a lexeme puts into a scan covers the characters passed over. -/
theorem Lexeme.Found.covers {c : Char} {rest text after : List Char} {found : Lexeme} {i : ScanItem}
    (h : Found c rest found) (htext : c :: rest = text ++ after) (hwidth : text.length = max 1 found.text.length)
    (hi : found.item? file p = some i) : i.location = p.location file ∧ i.Covers text after := by
  have htake {l : List Char} (hl : l ≠ []) (hstarts : l <+: c :: rest) (hlength : text.length = max 1 l.length) :
      l = text := by
    have hpos := List.length_pos_iff.mpr hl
    rw [List.prefix_iff_eq_take, htext, ← show text.length = l.length by omega, List.take_left] at hstarts
    exact hstarts
  cases h with
  | token hne hstarts =>
    cases hi
    obtain rfl := htake hne hstarts hwidth
    exact ⟨rfl, String.toList_ofList, hne⟩
  | badCharacter =>
    cases hi
    obtain ⟨d, rfl⟩ := List.length_eq_one_iff.mp hwidth
    obtain rfl := (List.cons.inj htext).1
    exact ⟨rfl, .badCharacter⟩
  | badNumber hne hstarts =>
    cases hi
    obtain rfl := htake hne hstarts hwidth
    exact ⟨rfl, .badNumber hne⟩
  | openString hquote =>
    cases hi
    obtain rfl := htake (List.cons_ne_nil _ _) List.prefix_rfl hwidth
    obtain rfl := List.append_right_eq_self.mp htext.symm
    exact ⟨rfl, .openString hquote⟩
  | unreadable => cases hi

/-- The invariant of a scan that runs to the end. The induction is on its pieces. -/
theorem Scans.exists_spans (h : Scans file p cs s) (hs : s.unreadable = none) :
    s.finish = p.past cs ∧ ∃ spans : List Span, spans.flatMap Span.text = cs ∧ Span.Tiles file p spans ∧
      spans.filterMap Span.item? = s.items := by
  induction h with
  | @finish p cs hend =>
    have htiles : Span.Tiles file (p.past (layout cs)) [] := trivial
    refine ⟨rfl, exists_layout_spans ?_ htiles⟩
    rw [hend, List.drop_length]
    rfl
  | unreadable => cases hs
  | @item p gap c rest text after i s hgap htext hwidth hitem _ ih =>
    obtain ⟨hfinish, spans, hspans, htiles, hitems⟩ := ih hs
    refine ⟨?_, ?_⟩
    · rw [htext, Cursor.past_append, Cursor.past_append]
      exact hfinish
    have hfits : (Span.item i text).Fits file (p.past gap) (spans.flatMap Span.text) := by
      rw [hspans]
      exact (lexeme_found c rest).covers htext hwidth hitem
    have hdrop : ((Span.item i text) :: spans).flatMap Span.text =
        (gap ++ c :: rest).drop (layout (gap ++ c :: rest)).length := by
      rw [hgap, List.drop_left, List.flatMap_cons, hspans, htext]
      rfl
    have htiles : Span.Tiles file (p.past (layout (gap ++ c :: rest))) (.item i text :: spans) := by
      rw [hgap]
      exact ⟨hfits, htiles⟩
    obtain ⟨all, hall, htiles, hall'⟩ := exists_layout_spans hdrop htiles
    exact ⟨all, hall, htiles, hall'.trans (congrArg (i :: ·) hitems)⟩

end Scan

/-! ## Whole texts -/

/-- The spans that make up the text, the tokens and errors among them, and the token that ends the text. -/
structure Tiling (file source : String) (s : Scanned) (spans : List Span) (eof : Token) : Prop where
  text_eq : spans.flatMap Span.text = source.toList
  fit : Span.Tiles file .start spans
  tokens_eq : s.tokens = (spans.filterMap Span.item?).filterMap ScanItem.token? ++ [eof]
  errors_eq : s.errors = (spans.filterMap Span.item?).filterMap ScanItem.error?
  eof_kind : eof.kind = .eof
  eof_lexeme : eof.lexeme = ""
  eof_offset : eof.location.offset = source.length

section Tiling
variable {file source : String} {s : Scanned} {spans : List Span} {eof : Token}

theorem exists_tiling (h : scan file source = .ok s) : ∃ spans eof, Tiling file source s spans eof := by
  have hscans := scans_scanFrom file .start source.toList
  unfold scan Scan.scanned at h
  cases hread : (scanFrom file .start source.toList).unreadable with
  | some lexeme =>
    rw [hread] at h
    cases h
  | none =>
    rw [hread] at h
    cases h
    obtain ⟨hfinish, spans, htext, htiles, hitems⟩ := hscans.exists_spans hread
    refine ⟨spans, _, htext, htiles, by rw [hitems]; rfl, by rw [hitems]; rfl, rfl, rfl, ?_⟩
    have hoffset := Cursor.offset_past .start source.toList
    rw [Scan.endToken, hfinish, Cursor.location, hoffset, Cursor.start, String.length_toList, Nat.zero_add]

namespace Tiling

theorem pairwise_offset (h : Tiling file source s spans eof) :
    ((spans.filterMap Span.item?).map (fun i => i.location.offset) ++ [eof.location.offset]).Pairwise (· < ·) := by
  rw [List.pairwise_append, List.pairwise_map]
  refine ⟨h.fit.pairwise, List.pairwise_singleton _ _, fun x hx y hy => ?_⟩
  obtain ⟨i, hi, rfl⟩ := List.mem_map.mp hx
  have hlt := (h.fit.offset_bounds i hi).2
  rw [h.text_eq, Cursor.offset_past, Cursor.start, String.length_toList, Nat.zero_add] at hlt
  rwa [List.mem_singleton.mp hy, h.eof_offset]

theorem lexeme_prefix (h : Tiling file source s spans eof) {t : Token} (ht : t ∈ s.tokens) :
    t.lexeme.toList <+: source.toList.drop t.location.offset.toNat := by
  rw [h.tokens_eq, List.mem_append, List.mem_filterMap] at ht
  rcases ht with ⟨i, hi, hit⟩ | ht
  · cases i with
    | error e => cases hit
    | token t' =>
      obtain rfl := Option.some.inj hit
      have hstarts := h.fit.lexeme_prefix hi
      rwa [h.text_eq, show (Cursor.start.offset : ℤ) = 0 from rfl, Int.sub_zero] at hstarts
  · rw [List.mem_singleton.mp ht, h.eof_lexeme]
    exact List.nil_prefix

theorem pairwise_errors (h : Tiling file source s spans eof) :
    s.errors.Pairwise fun e e' => e.location.offset < e'.location.offset := by
  rw [h.errors_eq, List.pairwise_filterMap]
  refine h.fit.pairwise.imp fun {i j} hij e he e' he' => ?_
  cases i <;> cases he
  cases j <;> cases he'
  exact hij

end Tiling

/-- The first error of a text is the leftmost one. -/
theorem tokenize_eq_error_iff (h : scan file source = .ok s)
    (hs : s.errors.Pairwise fun e e' => e.location.offset < e'.location.offset) (e : ScanError) :
    tokenize file source = .error (.error e) ↔
      e ∈ s.errors ∧ ∀ e' ∈ s.errors, e.location.offset ≤ e'.location.offset := by
  unfold tokenize
  rw [h]
  dsimp only
  cases herrors : s.errors with
  | nil => simp
  | cons d errors =>
    rw [herrors, List.pairwise_cons] at hs
    have hleast : ∀ e' ∈ d :: errors, d.location.offset ≤ e'.location.offset :=
      List.forall_mem_cons.mpr ⟨Int.le_refl _, fun e' he' => Int.le_of_lt (hs.1 e' he')⟩
    constructor
    · rintro ⟨⟩
      exact ⟨List.mem_cons_self, hleast⟩
    · rintro ⟨he, hmin⟩
      rcases List.mem_cons.mp he with rfl | he
      · rfl
      · have hlt := hs.1 e he
        have hle := hmin d List.mem_cons_self
        omega

/-- A scan that returns has cut its text into spans that are not empty: the lexemes of its tokens, the texts its errors
are about, and layout. Tokens and errors come in the order of their places, the end of the text last, and the first
error of a text is the leftmost one. -/
theorem scan_tiles (h : scan file source = .ok s) : ∃ spans eof, Tiling file source s spans eof ∧
    (∀ sp ∈ spans, sp.text ≠ []) ∧
    ((spans.filterMap Span.item?).map (fun i => i.location.offset) ++ [eof.location.offset]).Pairwise (· < ·) ∧
    (∀ t ∈ s.tokens, t.lexeme.toList <+: source.toList.drop t.location.offset.toNat) ∧
    ∀ e, tokenize file source = .error (.error e) ↔
      e ∈ s.errors ∧ ∀ e' ∈ s.errors, e.location.offset ≤ e'.location.offset := by
  obtain ⟨spans, eof, ht⟩ := exists_tiling h
  exact ⟨spans, eof, ht, ht.fit.ne_nil, ht.pairwise_offset, fun t => ht.lexeme_prefix,
    tokenize_eq_error_iff h ht.pairwise_errors⟩

theorem scan_tiles_faulty : ∃ s, scan "" "a # 2b // 'c\n 'd" = .ok s ∧ s.tokens.map Token.lexeme = ["a", ""] ∧
    s.errors.map (fun e => e.location.offset) = [2, 4, 14] ∧
      ∃ spans eof, Tiling "" "a # 2b // 'c\n 'd" s spans eof ∧ ∀ sp ∈ spans, sp.text ≠ [] := by
  have hscan : (scan "" "a # 2b // 'c\n 'd").toOption.map (fun s =>
      (s.tokens.map Token.lexeme, s.errors.map (fun e => e.location.offset))) = some (["a", ""], [2, 4, 14]) := by
    decide +kernel
  cases h : scan "" "a # 2b // 'c\n 'd" with
  | error lexeme =>
    rw [h] at hscan
    cases hscan
  | ok s =>
    rw [h] at hscan
    have hfound := Prod.mk.inj (Option.some.inj hscan)
    obtain ⟨spans, eof, ht, hne, -⟩ := scan_tiles h
    exact ⟨s, rfl, hfound.1, hfound.2, spans, eof, ht, hne⟩

end Tiling

end Lookahead
