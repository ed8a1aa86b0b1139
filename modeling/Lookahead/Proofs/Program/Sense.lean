import Lookahead.Proofs.Program.Contents
import Lookahead.Proofs.Program.ReadStmt

/-! What the trees of the grammar stand for, symbol by symbol: expressions, statements, sequences of them, or what a
tail does to the operand in front of it. Nothing is said of how a tree came about; each rule of the grammar makes
sense of a node from the senses of its children. -/
namespace Lookahead

open Script

/-! ## Senses -/

/-- A part whose tree stands for something of which `ok` is true, made of the contents of the part. -/
def Denotes {α : Type} (s : Symbol) (fact : ℕ → α → Tree → Prop) (ok : α → Prop) (contents : α → List Content)
    (p : Part) : Prop :=
  ∃ m d a, p = ⟨s, m, fact d a⟩ ∧ ok a ∧ Mark.contents m = contents a

/-- Nothing stands for no items. -/
theorem Denotes.nil {α : Type} {s : Symbol} {fact : ℕ → List α → Tree → Prop} {ok : α → Prop}
    {contents : List α → List Content} (d : ℕ) (h : contents [] = []) :
    Denotes s fact (∀ a ∈ ·, ok a) contents ⟨s, [], fact d []⟩ :=
  ⟨[], d, [], rfl, fun _ ha => absurd ha List.not_mem_nil, h.symm⟩

/-- Well-formed expressions stay well-formed, and `c` is added to their contents. -/
def Extends (f : Expr → Expr) (c : List Content) : Prop :=
  ∀ e : Expr, e.WellFormed → (f e).WellFormed ∧ (f e).contents = e.contents ++ c

theorem extends_id : Extends id [] := fun e he => ⟨he, (List.append_nil e.contents).symm⟩

theorem Extends.comp {f g : Expr → Expr} {c c' : List Content} (hf : Extends f c) (hg : Extends g c') :
    Extends (f ∘ g) (c' ++ c) := by
  intro e he
  obtain ⟨hge, hgc⟩ := hg e he
  obtain ⟨hfe, hfc⟩ := hf (g e) hge
  exact ⟨hfe, by rw [Function.comp_apply, hfc, hgc, List.append_assoc]⟩

/-- A tail of a chain, empty or not. -/
def Chain.TailSense (C : Chain) (p : Part) : Prop :=
  p = .empty C.tail ∨ ∃ m f d, p = C.longTail m f d ∧ Extends f (Mark.contents m)

/-- An expression that is also read as an operand and a tail, by the tail in front of it. -/
def Level.Sense (l : Level) (p : Part) : Prop :=
  ∃ m d a f da df c, p = ⟨l.chain, m, fun T => Gives Expr.ofTree d (f a) T ∧ l.Chained da a f df T⟩ ∧ a.WellFormed ∧
    Extends f c ∧ Mark.contents m = a.contents ++ c

def Property.WellFormed (p : Property) : Prop := ∀ key e, p = .entry key (some e) → e.WellFormed

namespace Script

/-- What the part of a symbol can be. -/
def Sense (s : Symbol) (p : Part) : Prop :=
  match s with
  | .identifier => ∃ x, p = .named x
  | .number => ∃ v, p = Expr.literal .number [.number v] (.number v)
  | .string => ∃ v, p = Expr.literal .string [.string v] (.string v)
  | .addOp | .mulOp | .compOp | .notOp => ∃ o, p = .operator s o ∧ operatorClass o = s.name
  | .program => Denotes s (Gives Program.ofTreeWithin) Program.WellFormed Program.contents p
  | .stmtList => Denotes s (Gives Stmt.ofStatements) (∀ x ∈ ·, x.WellFormed) Stmt.contentsOf p
  | .stmt | .fnDecl | .ifStmt | .whileStmt | .forStmt | .returnStmt | .breakStmt | .continueStmt =>
    Denotes s (Gives Stmt.ofTree) Stmt.WellFormed Stmt.contents p
  | .varDecl | .exprStmt => Denotes s (Gives Stmt.ofTree) (fun x => x.IsInit ∧ x.WellFormed) Stmt.contents p
  | .varInit => Denotes s (Gives fun n => Stmt.ofInit (Stmt.partsAt n)) (∀ e ∈ ·, e.WellFormed) Expr.optionContents p
  | .params => Denotes s (Gives fun _ => Stmt.ofParams) (fun _ => True) (List.map .lexeme) p
  | .paramTail =>
    Denotes s (Gives fun _ T => (T.afterComma .identifier .paramTail).mapM Tree.lexeme) (fun _ => True)
      (List.map .lexeme) p
  | .elseClause =>
    Denotes s (Gives fun n => Stmt.ofElse (Stmt.partsAt n)) (∀ b ∈ ·, ∀ x ∈ b, x.WellFormed)
      (fun b => Stmt.contentsOf (b.getD [])) p
  | .forInit =>
    Denotes s (Gives fun n => Stmt.ofForInit (Stmt.partsAt n)) (∀ x ∈ ·, x.IsInit ∧ x.WellFormed)
      (fun x => Stmt.contentsOf x.toList) p
  | .optExpr => Denotes s (Gives Expr.ofOptExpr) (∀ e ∈ ·, e.WellFormed) Expr.optionContents p
  | .block => Denotes s (Gives Stmt.ofBlock) (∀ x ∈ ·, x.WellFormed) Stmt.contentsOf p
  | .expr | .assignExpr | .unaryExpr | .callExpr | .memberExpr | .primaryExpr | .objLiteral | .arrayLiteral =>
    Denotes s (Gives Expr.ofTree) Expr.WellFormed Expr.contents p
  | .compExpr => Level.comparison.Sense p
  | .addExpr => Level.additive.Sense p
  | .mulExpr => Level.multiplicative.Sense p
  | .compTail => (Chain.operations .comparison).TailSense p
  | .addTail => (Chain.operations .additive).TailSense p
  | .mulTail => (Chain.operations .multiplicative).TailSense p
  | .callTail => Chain.calls.TailSense p
  | .memberTail => Chain.accesses.TailSense p
  | .assignTail => p = .empty s ∨ Denotes s (Expr.After .equals .assignExpr) Expr.WellFormed Expr.contents p
  | .args => Denotes s (Gives Expr.ofArgList) (∀ e ∈ ·, e.WellFormed) Expr.contentsOf p
  | .argsTail =>
    Denotes s (Gives fun n T => (T.afterComma .expr .argsTail).mapM (Expr.ofTree n)) (∀ e ∈ ·, e.WellFormed)
      Expr.contentsOf p
  | .propList => Denotes s (Gives Expr.ofProperties) (∀ q ∈ ·, q.WellFormed) Property.contentsOf p
  | .propTail =>
    Denotes s (Adds .propList .prop .propTail fun n => Expr.ofProperty (Expr.ofTree n)) (∀ q ∈ ·, q.WellFormed)
      Property.contentsOf p
  | .prop => Denotes s (Gives fun n => Expr.ofProperty (Expr.ofTree n)) Property.WellFormed Property.contents p
  | .propValue => p = .empty s ∨ Denotes s (Expr.After .colon .expr) Expr.WellFormed Expr.contents p
  | .elements => Denotes s (Gives Expr.ofElements) (∀ e ∈ ·, e.WellFormed) Expr.contentsOf p
  | .elementsTail =>
    Denotes s (Adds .elements .expr .elementsTail Expr.ofTree) (∀ e ∈ ·, e.WellFormed) Expr.contentsOf p
  | _ => p = .fixed s

/-- Whatever parts the symbols have, `C` is true of them. -/
def ForSenses : List Symbol → (List Part → Prop) → Prop
  | [], C => C []
  | s :: l, C => ∀ p, Sense s p → ForSenses l fun parts => C (p :: parts)

/-- The rule makes sense of every node whose children make sense. -/
def Composes (r : Symbol × List Symbol) : Prop :=
  ForSenses r.2 fun parts => ∃ Q, Sense r.1 ⟨r.1, parts.flatMap Part.marks, Q⟩ ∧ Makes r parts Q

theorem ForSenses.apply {C : List Part → Prop} {l : List Symbol} {parts : List Part} (h : ForSenses l C)
    (hparts : List.Forall₂ Sense l parts) : C parts := by
  induction hparts generalizing C with
  | nil => exact h
  | cons hp _ ih => exact ih (h _ hp)

end Script
end Lookahead
