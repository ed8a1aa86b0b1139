import Lookahead.Program.OfTree
import Lookahead.Proofs.Script.Marks

/-! Programs in writing. An expression stands in parentheses exactly where its rank is below that of its place;
nothing else is in parentheses, and no comma comes last. -/
namespace Lookahead

open Script

/-! ## Ranks -/

/-- The levels of expressions, from the loosest to the tightest. -/
inductive Rank where
  | assignment
  | comparison
  | additive
  | multiplicative
  | unary
  | call
  | member
  | primary
deriving DecidableEq

namespace Rank

def index : Rank → Nat
  | assignment => 0
  | comparison => 1
  | additive => 2
  | multiplicative => 3
  | unary => 4
  | call => 5
  | member => 6
  | primary => 7

def next : Rank → Rank
  | assignment => comparison
  | comparison => additive
  | additive => multiplicative
  | multiplicative => unary
  | unary => call
  | call => member
  | member => primary
  | primary => primary

theorem index_injective : Function.Injective index := by
  intro r r' h
  cases r <;> cases r' <;> first | rfl | cases h

theorem index_next {r : Rank} (h : r ≠ primary) : r.next.index = r.index + 1 := by
  cases r <;> first | rfl | exact absurd rfl h

theorem index_le_primary (r : Rank) : r.index ≤ primary.index := by cases r <;> decide

end Rank

namespace Level

def operators : Level → List String
  | comparison => comparisonOperators
  | additive => additiveOperators
  | multiplicative => multiplicativeOperators

def rank : Level → Rank
  | comparison => .comparison
  | additive => .additive
  | multiplicative => .multiplicative

/-- The level of a binary operator. -/
def ofOperator (operator : String) : Level :=
  if operator ∈ additiveOperators then additive
  else if operator ∈ multiplicativeOperators then multiplicative
  else comparison

end Level

namespace Expr

def rank : Expr → Rank
  | assign .. => .assignment
  | binary _ operator _ => (Level.ofOperator operator).rank
  | unary .. => .unary
  | call .. => .call
  | member .. => .member
  | identifier _ | number _ | string _ | object _ | array _ => .primary

end Expr

/-! ## Marks -/

/-- An expression of rank `r` at a place that needs rank `place`. -/
def placed (r place : Rank) (m : List Mark) : List Mark :=
  if r.index < place.index then Mark.parens m else m

theorem placed_self (r : Rank) (m : List Mark) : placed r r m = m := if_neg (Nat.lt_irrefl _)

/-- Only an expression of the rank itself stands there, but not one place further on, without parentheses. -/
theorem placed_next {r place : Rank} (h : r ≠ place) (hplace : place ≠ .primary) (m : List Mark) :
    placed r place.next m = placed r place m := by
  have hne : r.index ≠ place.index := fun heq => h (Rank.index_injective heq)
  have hiff : r.index < place.next.index ↔ r.index < place.index := by
    rw [Rank.index_next hplace]
    omega
  unfold placed
  exact if_congr hiff rfl rfl

mutual

def Expr.marks : Expr → List Mark
  | .assign a v => placed a.rank .comparison a.marks ++ .fixed .equals :: v.marks
  | .binary l o r =>
    let rank := (Level.ofOperator o).rank
    placed l.rank rank l.marks ++ .operator o :: placed r.rank rank.next r.marks
  | .unary o a => .operator o :: placed a.rank .unary a.marks
  | .call c args => placed c.rank .call c.marks ++ Mark.parens (Mark.separated (Expr.marksOf args))
  | .member o p true => placed o.rank .member o.marks ++ Mark.brackets p.marks
  | .member o p false => placed o.rank .member o.marks ++ .fixed .dot :: p.marks
  | .identifier s => [.name s]
  | .number v => [.number v]
  | .string v => [.string v]
  | .object ps => Mark.braces (Mark.separated (Property.marksOf ps))
  | .array es => Mark.brackets (Mark.separated (Expr.marksOf es))

def Expr.marksOf : List Expr → List (List Mark)
  | [] => []
  | e :: es => e.marks :: Expr.marksOf es

def Property.marks : Property → List Mark
  | .entry key none => [.name key]
  | .entry key (some e) => .name key :: .fixed .colon :: e.marks

def Property.marksOf : List Property → List (List Mark)
  | [] => []
  | p :: ps => p.marks :: Property.marksOf ps

end

/-- The marks of an expression at a place that needs the given rank. -/
def Expr.marksAt (e : Expr) (place : Rank) : List Mark := placed e.rank place e.marks

def Expr.optionMarks : Option Expr → List Mark
  | none => []
  | some e => e.marks

/-- What comes after the name of a variable. -/
def Expr.initMarks : Option Expr → List Mark
  | none => [.fixed .semicolon]
  | some e => .fixed .equals :: (e.marks ++ [.fixed .semicolon])

mutual

def Stmt.marks : Stmt → List Mark
  | .varDecl constant x value =>
    .fixed (if constant then .constWord else .letWord) :: .name x :: Expr.initMarks value
  | .fnDecl f parameters body =>
    .fixed .fnWord :: .name f :: (Mark.parens (Mark.separated (parameters.map fun p => [.name p])) ++
      Mark.braces (Stmt.marksOf body))
  | .ifElse c body none => .fixed .ifWord :: (Mark.parens c.marks ++ Mark.braces (Stmt.marksOf body))
  | .ifElse c body (some orElse) =>
    .fixed .ifWord :: (Mark.parens c.marks ++ Mark.braces (Stmt.marksOf body) ++
      .fixed .elseWord :: Mark.braces (Stmt.marksOf orElse))
  | .whileLoop c body => .fixed .whileWord :: (Mark.parens c.marks ++ Mark.braces (Stmt.marksOf body))
  | .forLoop none c u body =>
    .fixed .forWord :: (Mark.parens (.fixed .semicolon ::
      (Expr.optionMarks c ++ .fixed .semicolon :: Expr.optionMarks u)) ++ Mark.braces (Stmt.marksOf body))
  | .forLoop (some init) c u body =>
    .fixed .forWord :: (Mark.parens (init.marks ++
      (Expr.optionMarks c ++ .fixed .semicolon :: Expr.optionMarks u)) ++ Mark.braces (Stmt.marksOf body))
  | .returning value => .fixed .returnWord :: (Expr.optionMarks value ++ [.fixed .semicolon])
  | .breaking => [.fixed .breakWord, .fixed .semicolon]
  | .continuing => [.fixed .continueWord, .fixed .semicolon]
  | .expression e => e.marks ++ [.fixed .semicolon]
  | .bare e => e.marks

def Stmt.marksOf : List Stmt → List Mark
  | [] => []
  | s :: ss => s.marks ++ Stmt.marksOf ss

end

/-- The marks of a program, up to the end of the input. -/
def Program.render (p : Program) : List Mark := Stmt.marksOf p.body ++ [.fixed .eof]

theorem Expr.marksOf_eq (es : List Expr) : Expr.marksOf es = es.map Expr.marks := by
  induction es with
  | nil => rfl
  | cons e es ih => rw [Expr.marksOf, ih, List.map_cons]

theorem Property.marksOf_eq (ps : List Property) : Property.marksOf ps = ps.map Property.marks := by
  induction ps with
  | nil => rfl
  | cons p ps ih => rw [Property.marksOf, ih, List.map_cons]

end Lookahead
