import Lookahead.Proofs.Program.Written

/-! How deep conversions nest. A conversion that needs no more than it is allowed gives what it would give without
a limit, and one that needs more gives nothing. -/
namespace Lookahead

/-! ## Results within a limit -/

/-- The result `x` where `depth` conversions under way at once are within the limit `n`. -/
def within {α : Type} (depth n : ℕ) (x : Conversion α) : Conversion α := if depth ≤ n then x else .error tooDeep

section within
variable {α β : Type} {d e n : ℕ} {x : Conversion α} {a : α}

@[simp] theorem within_zero : within 0 n x = x := if_pos n.zero_le

@[simp] theorem within_within : within d n (within e n x) = within (max d e) n x := by
  unfold within
  split_ifs <;> first | rfl | omega

@[simp] theorem within_bind (f : α → Conversion β) : within d n x >>= f = within d n (x >>= f) := by
  unfold within
  split <;> rfl

@[simp] theorem within_map (f : α → β) : f <$> within d n x = within d n (f <$> x) := by
  unfold within
  split <;> rfl

theorem ok_bind (f : α → Conversion β) : (Except.ok a : Conversion α) >>= f = f a := rfl

/-- One more conversion is under way around those that `x` takes. -/
theorem within_of_succ {f : ℕ → Conversion α} (h₀ : f 0 = .error tooDeep) (h : ∀ n, f (n + 1) = within d n x) (n : ℕ) :
    f n = within (d + 1) n x := by
  cases n with
  | zero => rw [h₀, within, if_neg (by omega)]
  | succ n =>
    rw [h, within, within]
    simp only [Nat.add_le_add_iff_right]

end within

/-- The tree converts to `a`, if `depth` conversions may be under way at once, and does not convert otherwise. -/
def Gives {α : Type} (convert : ℕ → Tree → Conversion α) (depth : ℕ) (a : α) (T : Tree) : Prop :=
  ∀ n, convert n T = within depth n (.ok a)

/-- A part whose tree converts to `a`. -/
def Script.Part.giving {α : Type} (s : Script.Symbol) (m : List Script.Mark) (convert : ℕ → Tree → Conversion α)
    (depth : ℕ) (a : α) : Script.Part :=
  ⟨s, m, Gives convert depth a⟩

@[simp] theorem Script.Part.marks_giving {α : Type} (s : Script.Symbol) (m : List Script.Mark)
    (convert : ℕ → Tree → Conversion α) (depth : ℕ) (a : α) : (Part.giving s m convert depth a).marks = m := rfl

/-- The greatest of the depths, or zero. -/
def deepest {ι : Type} (depth : ι → ℕ) : List ι → ℕ
  | [] => 0
  | i :: is => max (depth i) (deepest depth is)

theorem deepest_zero {ι : Type} (is : List ι) : deepest (fun _ => 0) is = 0 := by
  induction is with
  | nil => rfl
  | cons i is ih => rw [deepest, ih, Nat.max_self]

/-! ## Depths of programs -/

/-- The operand that starts a chain is not converted again if it is a chain of the same rank. -/
def Rank.step (chain operand : Rank) : ℕ := if operand = chain then 0 else 2

mutual

/-- How many conversions are under way at once below the one of an expression. -/
def Expr.nesting : Expr → ℕ
  | .assign a v => max (a.nesting + 2) (v.nesting + 2)
  | .binary l o r => max (l.nesting + (Level.ofOperator o).rank.step l.rank) (r.nesting + 2)
  | .unary _ a => a.nesting + 2
  | .call c args => max (c.nesting + Rank.call.step c.rank) (Expr.depthOf args + 1)
  | .member o _ false => o.nesting + Rank.member.step o.rank
  | .member o p true => max (o.nesting + Rank.member.step o.rank) (p.nesting + 2)
  | .identifier _ | .number _ | .string _ => 0
  | .object ps => Property.depthOf ps + 2
  | .array es => Expr.depthOf es + 2

def Expr.depthOf : List Expr → ℕ
  | [] => 0
  | e :: es => max (e.nesting + 2) (Expr.depthOf es)

def Property.depth : Property → ℕ
  | .entry _ none => 0
  | .entry _ (some e) => e.nesting + 2

def Property.depthOf : List Property → ℕ
  | [] => 0
  | p :: ps => max p.depth (Property.depthOf ps)

end

/-- How many conversions are under way at once for an expression. -/
def Expr.depth (e : Expr) : ℕ := e.nesting + 2

theorem Expr.depthOf_eq (es : List Expr) : Expr.depthOf es = deepest Expr.depth es := by
  induction es with
  | nil => rfl
  | cons e es ih => rw [Expr.depthOf, ih, deepest, Expr.depth]

theorem Property.depthOf_eq (ps : List Property) : Property.depthOf ps = deepest Property.depth ps := by
  induction ps with
  | nil => rfl
  | cons p ps ih => rw [Property.depthOf, ih, deepest]

def Expr.optionDepth : Option Expr → ℕ
  | none => 0
  | some e => e.depth

mutual

def Stmt.nesting : Stmt → ℕ
  | .varDecl _ _ value => Expr.optionDepth value
  | .fnDecl _ _ body => Stmt.depthOf body + 2
  | .ifElse c body none => max c.depth (Stmt.depthOf body + 2)
  | .ifElse c body (some orElse) => max (Stmt.depthOf orElse + 2) (max c.depth (Stmt.depthOf body + 2))
  | .whileLoop c body => max c.depth (Stmt.depthOf body + 2)
  | .forLoop none c u body =>
    max (Expr.optionDepth c + 1) (max (Expr.optionDepth u + 1) (Stmt.depthOf body + 2))
  | .forLoop (some init) c u body =>
    max (init.nesting + 2) (max (Expr.optionDepth c + 1) (max (Expr.optionDepth u + 1) (Stmt.depthOf body + 2)))
  | .returning value => Expr.optionDepth value + 1
  | .breaking | .continuing => 0
  | .expression e => e.depth
  | .bare e => e.nesting

def Stmt.depthOf : List Stmt → ℕ
  | [] => 0
  | s :: ss => max (s.nesting + 4) (Stmt.depthOf ss)

end

/-- How many conversions are under way at once for a program. -/
def Program.depth (p : Program) : ℕ := Stmt.depthOf p.body + 1

end Lookahead
