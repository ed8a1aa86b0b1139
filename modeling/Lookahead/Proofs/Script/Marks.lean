import Lookahead.Proofs.Script.Forest
import Mathlib.Data.List.Forall2

/-! Text of the script language up to what does not matter in it, as marks that tokens are held against, and
the trees of all tokens that keep to some marks. A rule of the grammar makes a tree out of the trees of its
parts. -/
namespace Lookahead
namespace Script

/-! ## Marks -/

/-- What a token has to be. Nothing is asked of locations, of the lexemes of literals and of tokens that their
kind determines, or of the values of names and operators. -/
inductive Mark where
  | fixed (k : Kind)
  | name (lexeme : String)
  | operator (lexeme : String)
  | number (v : Value)
  | string (v : Value)

namespace Mark

def On : Mark → Token → Prop
  | fixed k, t => t.kind = k
  | name s, t => t.kind = .identifier ∧ t.lexeme = s
  | operator s, t => t.kind = .operator ∧ t.lexeme = s
  | number v, t => t.kind = .number ∧ t.value = some v
  | string v, t => t.kind = .string ∧ t.value = some v

def parens (m : List Mark) : List Mark := .fixed .leftParen :: (m ++ [.fixed .rightParen])

def braces (m : List Mark) : List Mark := .fixed .leftBrace :: (m ++ [.fixed .rightBrace])

def brackets (m : List Mark) : List Mark := .fixed .leftBracket :: (m ++ [.fixed .rightBracket])

/-- One after the other, with commas between them. -/
def separated : List (List Mark) → List Mark
  | [] => []
  | m :: ms => m ++ ms.flatMap (.fixed .comma :: ·)

end Mark

/-- The tokens keep to the marks, one by one. -/
def Writes (m : List Mark) (w : List Token) : Prop := List.Forall₂ Mark.On m w

theorem exists_forall₂_append {α β : Type} {R : α → β → Prop} {l m : List α} {w : List β}
    (h : List.Forall₂ R (l ++ m) w) : ∃ u v, w = u ++ v ∧ List.Forall₂ R l u ∧ List.Forall₂ R m v := by
  induction l generalizing w with
  | nil => exact ⟨[], w, rfl, .nil, h⟩
  | cons a l ih =>
    cases h with
    | cons ha h =>
      obtain ⟨u, v, rfl, hu, hv⟩ := ih h
      exact ⟨_ :: u, v, rfl, .cons ha hu, hv⟩

theorem writes_append {m n : List Mark} {w : List Token} (h : Writes (m ++ n) w) :
    ∃ u v, w = u ++ v ∧ Writes m u ∧ Writes n v := exists_forall₂_append h

/-! ## Trees of marked tokens -/

/-- Tokens that keep to the marks have a tree for the symbol, and it is as `Q` says. -/
def Yields (s : Symbol) (m : List Mark) (Q : Tree → Prop) : Prop :=
  ∀ w, Writes m w → ∃ T, Forest [s] w [T] ∧ Q T

/-- A part of a right-hand side: a symbol, the marks of its tokens, and what is known of its tree. -/
structure Part where
  symbol : Symbol
  marks : List Mark
  fact : Tree → Prop

def Part.Holds (p : Part) : Prop := Yields p.symbol p.marks p.fact

/-- What is known of each part holds of the tree in its place. -/
def Facts : List Part → List Tree → Prop
  | [], F => F = []
  | p :: parts, F => ∃ T G, F = T :: G ∧ p.fact T ∧ Facts parts G

variable {s : Symbol} {m : List Mark} {Q R : Tree → Prop} {parts : List Part}

theorem Yields.mono (h : Yields s m Q) (hQR : ∀ T, Q T → R T) : Yields s m R := fun w hw =>
  let ⟨T, hT, hQ⟩ := h w hw
  ⟨T, hT, hQR T hQ⟩

theorem forest_of_parts (hparts : ∀ p ∈ parts, p.Holds) {w : List Token} (hw : Writes (parts.flatMap Part.marks) w) :
    ∃ F, Forest (parts.map Part.symbol) w F ∧ Facts parts F := by
  induction parts generalizing w with
  | nil =>
    cases hw
    exact ⟨[], .nil, rfl⟩
  | cons p parts ih =>
    rw [List.forall_mem_cons] at hparts
    obtain ⟨u, v, rfl, hu, hv⟩ := writes_append hw
    obtain ⟨T, hT, hfact⟩ := hparts.1 u hu
    obtain ⟨F, hF, hfacts⟩ := ih hparts.2 hv
    exact ⟨T :: F, hT.cons hF, T, F, rfl, hfact, hfacts⟩

/-- Over children of which the parts are known, a node of the rule is as `Q` says. -/
def Makes (r : Symbol × List Symbol) (parts : List Part) (Q : Tree → Prop) : Prop :=
  ∀ (i : Int) F, F.map Tree.symbol = r.2.map Symbol.name → Facts parts F → Q (.node r.1.name (some i) none F)

theorem Makes.of_imp {r : Symbol × List Symbol} {p q : Part} (h : ∀ T, p.fact T → q.fact T)
    (hq : Makes r (q :: parts) Q) : Makes r (p :: parts) Q := by
  rintro i F hF ⟨T, G, rfl, hT, hG⟩
  exact hq i (T :: G) hF ⟨T, G, rfl, h T hT, hG⟩

theorem yields_node (r : Symbol × List Symbol) (parts : List Part) (hr : r ∈ rules) (hl : parts.map Part.symbol = r.2)
    (hparts : ∀ p ∈ parts, p.Holds) (hm : parts.flatMap Part.marks = m) (hQ : Makes r parts Q) : Yields r.1 m Q := by
  subst hm
  intro w hw
  obtain ⟨F, hF, hfacts⟩ := forest_of_parts hparts hw
  rw [hl] at hF
  obtain ⟨i, hT⟩ := forest_node hr hF
  exact ⟨_, hT, hQ i F hF.symbols hfacts⟩

/-! ## Leaves -/

theorem yields_leaf {a : Mark} (hs : s ∈ Symbol.terminals) (ha : ∀ k, a.On k → terminalOf k = s.name) :
    Yields s [a] fun T => ∃ k, T = .leaf s.name k ∧ a.On k := by
  intro w hw
  cases hw with
  | cons hk hnil =>
    cases hnil
    exact ⟨_, forest_leaf hs (ha _ hk), _, rfl, hk⟩

namespace Symbol

/-- The kind that makes a token a terminal, where the kind alone does. -/
def kind? : Symbol → Option Kind
  | letWord => some .letWord
  | constWord => some .constWord
  | fnWord => some .fnWord
  | ifWord => some .ifWord
  | elseWord => some .elseWord
  | whileWord => some .whileWord
  | forWord => some .forWord
  | returnWord => some .returnWord
  | breakWord => some .breakWord
  | continueWord => some .continueWord
  | equals => some .equals
  | semicolon => some .semicolon
  | leftParen => some .leftParen
  | rightParen => some .rightParen
  | leftBrace => some .leftBrace
  | rightBrace => some .rightBrace
  | leftBracket => some .leftBracket
  | rightBracket => some .rightBracket
  | comma => some .comma
  | colon => some .colon
  | dot => some .dot
  | _ => none

theorem terminalOf_of_kind {s : Symbol} {t : Token} (h : s.kind? = some t.kind) : terminalOf t = s.name := by
  obtain ⟨k, l, v, loc⟩ := t
  cases s <;> cases h <;> rfl

theorem mem_terminals_of_kind {s : Symbol} (h : s.kind?.isSome = true) : s ∈ terminals := by
  cases s <;> first
    | decide
    | cases h

end Symbol

namespace Part

/-- A terminal that its kind determines. -/
def fixed (s : Symbol) : Part := ⟨s, s.kind?.toList.map .fixed, fun T => T.isLeaf = true⟩

/-- A symbol that derives the empty word here. -/
def empty (s : Symbol) : Part := ⟨s, [], fun T => T.isLeaf = true⟩

def named (lexeme : String) : Part := ⟨.identifier, [.name lexeme], fun T => T.lexeme = .ok lexeme⟩

@[simp] theorem marks_fixed (s : Symbol) : (fixed s).marks = s.kind?.toList.map .fixed := rfl

@[simp] theorem marks_empty (s : Symbol) : (empty s).marks = [] := rfl

@[simp] theorem marks_named (lexeme : String) : (named lexeme).marks = [.name lexeme] := rfl

@[simp] theorem holds_fixed {s : Symbol} (h : s.kind?.isSome = true) : (fixed s).Holds := by
  obtain ⟨k, hk⟩ := Option.isSome_iff_exists.mp h
  have hmarks : (fixed s).marks = [.fixed k] := by rw [fixed, hk]; rfl
  have hterminal : ∀ t : Token, t.kind = k → terminalOf t = s.name := fun t ht =>
    Symbol.terminalOf_of_kind (ht ▸ hk)
  rw [Holds, hmarks]
  refine (yields_leaf (a := .fixed k) (Symbol.mem_terminals_of_kind h) hterminal).mono ?_
  rintro _ ⟨t, rfl, -⟩
  rfl

theorem holds_empty {s : Symbol} (h : (s, []) ∈ rules) : (empty s).Holds :=
  yields_node (s, []) [] h rfl (fun _ hp => absurd hp List.not_mem_nil) rfl fun _ _ _ hF => by rw [hF]; rfl

theorem isLeaf_of_facts {l : List Symbol} {F : List Tree} (h : Facts (l.map empty) F) : F.all Tree.isLeaf = true := by
  induction l generalizing F with
  | nil =>
    obtain rfl : F = [] := h
    rfl
  | cons s l ih =>
    obtain ⟨T, G, rfl, hT, hG⟩ := h
    have hleaf : T.isLeaf = true := hT
    rw [List.all_cons, hleaf, ih hG, Bool.and_self]

@[simp] theorem holds_named (lexeme : String) : (named lexeme).Holds := by
  have hleaf := yields_leaf (s := .identifier) (a := .name lexeme) (by decide) fun k hk => by rw [terminalOf, hk.1]
  refine hleaf.mono ?_
  rintro _ ⟨k, rfl, -, rfl⟩
  rfl

end Part
end Script
end Lookahead
