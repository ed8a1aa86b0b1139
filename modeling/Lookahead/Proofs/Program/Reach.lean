import Lookahead.Proofs.Program.Settle
import Lookahead.Proofs.Tree.Listing
import Mathlib.Data.List.Forall2
import Mathlib.Logic.Relation

/-! What a conversion comes to see of a tree, and what it asks of the nodes that it sees. They follow the rules, with
two exceptions: the symbol of an operator is not looked at, and a statement may be anything that has a
conversion. -/
namespace Lookahead

open Script

namespace Script

/-! ## Symbols -/

/-- What a symbol in a rule stands for: a mark that is passed over, a leaf that is read, or a node. -/
inductive Role where
  | mark
  | leaf
  | node
deriving DecidableEq

def Symbol.role : Symbol → Role
  | .identifier | .number | .string => .leaf
  | s => if s ∈ Symbol.nonterminals then .node else .mark

/-- What an operator applies to, for the symbols with rules for operators. -/
def Symbol.operand? : Symbol → Option Symbol
  | .compTail => some .compExpr
  | .addTail => some .addExpr
  | .mulTail => some .mulExpr
  | .unaryExpr => some .unaryExpr
  | _ => none

/-- Nodes with a conversion into an expression. -/
def expressions : List Symbol :=
  [.expr, .assignExpr, .compExpr, .addExpr, .mulExpr, .unaryExpr, .callExpr, .memberExpr, .primaryExpr, .objLiteral,
    .arrayLiteral]

/-- Nodes with any conversion. -/
def converted : List Symbol := Symbol.nonterminals.filter fun s => isStatement s || expressions.contains s

def groupShape : List Symbol := [.leftParen, .expr, .rightParen]

/-- The rules without operators and parentheses, of which less or more is asked than the symbols. -/
def plainRules : List (Symbol × List Symbol) :=
  rules.filter fun r => (r.1.operand?.isNone || r.2.length ≠ 2) && r.2 ≠ groupShape

/-- The right-hand sides of the plain rules for a symbol. -/
def shapes (s : Symbol) : List (List Symbol) := (plainRules.filter fun r => r.1 = s).map Prod.snd

/-- The symbols with plain rules only. -/
def Symbol.isPlain (s : Symbol) : Bool := s.operand?.isNone && s ≠ .stmt && s ≠ .primaryExpr

variable {s r : Symbol} {l : List Symbol}

theorem mem_shapes : l ∈ shapes s ↔ (s, l) ∈ plainRules := by
  simp [shapes]

theorem mem_rules_of_plain (h : (s, l) ∈ plainRules) : (s, l) ∈ rules := (List.mem_filter.mp h).1

theorem Symbol.role_eq_node (h : s ∈ Symbol.nonterminals) : s.role = .node := by
  cases s <;> first | rfl | exact absurd h (by decide)

theorem Symbol.nonterminal_of_role (h : s.role = .node) : s ∈ Symbol.nonterminals := by
  cases s <;> first | exact Role.noConfusion h | decide

end Script

namespace Tree
variable {s r : Symbol} {l : List Symbol} {ls : List (List Symbol)} {cs : List Tree} {t u c : Tree}
  {f : ConversionFailure}

/-! ## Nodes in reach -/

/-- An operator with what it applies to. -/
def isOperation (t : Tree) : Bool :=
  ((Symbol.ofNonterminal? t.symbol).bind Symbol.operand?).isSome && t.children.length = 2

/-- The nodes below a node that are converted with it; an operator is never one, whatever its symbol. -/
def parts (t : Tree) : List Tree :=
  (if t.isOperation then t.children.tail else t.children).filter fun c => (Symbol.ofNonterminal? c.symbol).isSome

def Reaches : Tree → Tree → Prop := Relation.ReflTransGen fun t c => c ∈ t.parts

theorem mem_children_of_parts (h : c ∈ t.parts) : c ∈ t.children := by
  have hmem := (List.mem_filter.mp h).1
  split at hmem
  · exact List.mem_of_mem_tail hmem
  · exact hmem

theorem mem_parts (ht : t.isOperation = false) (hc : c ∈ t.children) (hs : c.symbol = s.name)
    (hnode : s ∈ Symbol.nonterminals) : c ∈ t.parts := by
  rw [parts, if_neg (by simp [ht])]
  exact List.mem_filter.mpr ⟨hc, by rw [hs, Symbol.ofNonterminal?_name hnode, Option.isSome_some]⟩

theorem isOperation_eq (hs : t.symbol = s.name) (hnode : s ∈ Symbol.nonterminals) :
    t.isOperation = (s.operand?.isSome && decide (t.children.length = 2)) := by
  rw [isOperation, hs, Symbol.ofNonterminal?_name hnode, Option.bind_some]

theorem self_mem_subtrees (t : Tree) : t ∈ t.subtrees := by
  cases t
  simp

theorem child_mem_subtrees (h : c ∈ t.children) : c ∈ t.subtrees := by
  cases t with
  | node s p k cs =>
    rw [subtrees_node]
    exact List.mem_cons_of_mem _ (List.mem_flatMap.mpr ⟨c, h, self_mem_subtrees c⟩)

/-- What is in reach of a node is part of the tree, with all that is below it. -/
theorem Reaches.mem_subtrees (h : t.Reaches u) (hc : c ∈ u.subtrees) : c ∈ t.subtrees := by
  induction h using Relation.ReflTransGen.head_induction_on with
  | refl => exact hc
  | @head t v hv _ ih =>
    cases t with
    | node s p k cs =>
      rw [subtrees_node]
      exact List.mem_cons_of_mem _ (List.mem_flatMap.mpr ⟨v, mem_children_of_parts hv, ih⟩)

/-! ## What is asked of a node -/

/-- A leaf whose token can be read as the symbol asks. -/
def ReadableAs : Symbol → Tree → Prop
  | .identifier, c => c.token ≠ none
  | .string, c => c.token ≠ none
  | .number, c => ∃ k v, c.token = some k ∧ Expr.numberValue k = .ok v
  | _, _ => True

inductive Fits (t : Tree) : Prop
  | rule {s : Symbol} {l : List Symbol} (hs : t.symbol = s.name) (hl : (s, l) ∈ plainRules)
      (hshape : t.shape = l.map Symbol.name) (hread : List.Forall₂ ReadableAs l t.children)
  | group (hs : t.symbol = Symbol.primaryExpr.name) (hshape : t.shape = groupShape.map Symbol.name)
      (hleaves : (t.children.eraseIdx 1).all isLeaf = true)
  | operation {s r : Symbol} {o a : Tree} (hs : t.symbol = s.name) (hr : s.operand? = some r)
      (hchildren : t.children = [o, a]) (ha : a.symbol = r.name) (ho : o.token ≠ none)
  | statement {r : Symbol} {a : Tree} (hs : t.symbol = Symbol.stmt.name) (hr : r ∈ converted)
      (hchildren : t.children = [a]) (ha : a.symbol = r.name)

/-- All that a conversion sees fits. -/
def Sound (t : Tree) : Prop := ∀ u, t.Reaches u → u.Fits

/-- The failure is about this node. -/
inductive Charges (u : Tree) : ConversionFailure → Prop
  | malformed {l : List Symbol} : u.shape ≠ l.map Symbol.name → Charges u (u.malformed l)
  | unexpected : Charges u u.unexpected
  | tokenMissing {c : Tree} : c ∈ u.children → c.token = none → Charges u (.fault (.tokenMissing c.symbol))
  | noConversion {c : Tree} : c ∈ u.children → Charges u (.fault (.noConversion c.symbol))
  | unreadable {c : Tree} {k : Token} {x : String} : c ∈ u.children → c.symbol = Symbol.number.name → c.token = some k →
      Expr.numberValue k = .error (.unreadable x) → Charges u (.unreadable x)

/-- The failure is about a node in reach that does not fit. -/
def Blames (t : Tree) (f : ConversionFailure) : Prop := ∃ u, t.Reaches u ∧ ¬ u.Fits ∧ u.Charges f

theorem sound_iff : t.Sound ↔ t.Fits ∧ ∀ c ∈ t.parts, c.Sound := by
  constructor
  · intro h
    exact ⟨h t .refl, fun c hc u hu => h u (.head hc hu)⟩
  · intro h u hu
    cases Relation.ReflTransGen.cases_head hu with
    | inl heq => exact heq ▸ h.1
    | inr hstep =>
      obtain ⟨c, hc, hcu⟩ := hstep
      exact h.2 c hc u hcu

theorem Blames.of_part (hc : c ∈ t.parts) (h : c.Blames f) : t.Blames f := by
  obtain ⟨u, hu, hfits, hcharge⟩ := h
  exact ⟨u, .head hc hu, hfits, hcharge⟩

theorem Blames.self (hfits : ¬ t.Fits) (h : t.Charges f) : t.Blames f := ⟨t, .refl, hfits, h⟩

theorem Blames.not_sound (h : t.Blames f) : ¬ t.Sound := by
  obtain ⟨u, hu, hfits, -⟩ := h
  exact fun hsound => hfits (hsound u hu)

theorem Fits.exists_shape (h : t.Fits) (hs : t.symbol = s.name) (hplain : s.isPlain = true) :
    ∃ l ∈ shapes s, t.shape = l.map Symbol.name ∧ List.Forall₂ ReadableAs l t.children := by
  cases h with
  | rule hs' hl hshape hread =>
    obtain rfl := Symbol.name_injective (hs.symm.trans hs')
    exact ⟨_, mem_shapes.mpr hl, hshape, hread⟩
  | group hs' =>
    obtain rfl := Symbol.name_injective (hs.symm.trans hs')
    exact absurd hplain (by decide)
  | operation hs' hr =>
    obtain rfl := Symbol.name_injective (hs.symm.trans hs')
    simp [Symbol.isPlain, hr] at hplain
  | statement hs' =>
    obtain rfl := Symbol.name_injective (hs.symm.trans hs')
    exact absurd hplain (by decide)

/-- A node of a symbol with plain rules that has the shape of none of them does not fit. -/
theorem blames_of_no_shape (hs : t.symbol = s.name) (hl : s.isPlain = true ∧ shapes s = ls)
    (hne : ∀ l ∈ ls, t.shape ≠ l.map Symbol.name) (hcharge : t.Charges f) : t.Blames f := by
  refine .self (fun h => ?_) hcharge
  obtain ⟨m, hm, hshape, -⟩ := h.exists_shape hs hl.1
  exact hne m (hl.2 ▸ hm) hshape

end Tree
end Lookahead
