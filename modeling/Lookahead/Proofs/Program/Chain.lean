import Lookahead.Proofs.Program.Spine

/-! Chains: operands of one rank with binary operators between them, calls of calls, members of members. The
grammar has the rest of a chain in tails, on the right, and the conversion folds it to the left; so an operand on
the left is read together with whatever tail comes after it. -/
namespace Lookahead

open Script

inductive Chain where
  | operations (l : Level)
  | calls
  | accesses

namespace Chain

def rank : Chain → Rank
  | operations l => l.rank
  | calls => .call
  | accesses => .member

def tail : Chain → Symbol
  | operations l => l.tail
  | calls => .callTail
  | accesses => .memberTail

/-- What an operand becomes under a tail, with a limit for the conversions that the tail takes. -/
def onto : Chain → ℕ → Tree → Expr → Conversion Expr
  | operations l, n, tail, e => do
    let operations ← (tail.operations l).mapM fun (o, a) => return (← o.lexeme, ← Expr.ofTree n a)
    return Expr.fold e operations
  | calls, n, tail, e => do
    let calls ← tail.calls.mapM (Expr.ofArgList n)
    return calls.foldl .call e
  | accesses, n, tail, e => do
    let accesses ← tail.accesses.mapM (Expr.ofAccess (Expr.ofTree n))
    return accesses.foldl (fun base a => .member base a.1 a.2) e

variable {C : Chain} {A R : Tree} {i : Option Int} {k : Option Token} {e : Expr} {f g : Expr → Expr}
  {m mk : List Mark} {d dk δ : ℕ}

theorem rank_injective : Function.Injective rank := by
  rintro (l | _ | _) (l' | _ | _) h
  · rw [show l = l' by cases l <;> cases l' <;> first | rfl | cases h]
  all_goals first | rfl | cases h | cases l <;> cases h | cases l' <;> cases h

theorem rank_ne (C : Chain) : ∀ r ∈ [Rank.assignment, .unary, .primary], r ≠ C.rank := by
  rcases C with l | _ | _
  · cases l <;> decide
  · decide
  · decide

theorem head_rule (C : Chain) : (C.rank.symbol, [C.rank.next.symbol, C.tail]) ∈ rules := by
  rcases C with l | _ | _
  · cases l <;> decide
  · decide
  · decide

theorem tail_rule (C : Chain) : (C.tail, []) ∈ rules := by
  rcases C with l | _ | _
  · cases l <;> decide
  · decide
  · decide

theorem ofNode_eq (hF : [A, R].map Tree.symbol = [C.rank.next.symbol, C.tail].map Symbol.name) (n : ℕ) :
    Expr.ofNode (n + 1) (.node C.rank.symbol.name i k [A, R]) = Expr.ofTree n A >>= C.onto n R := by
  rcases C with l | _ | _
  · have hnode : Expr.ofNode (n + 1) (.node l.rank.symbol.name i k [A, R]) =
        Expr.ofChain (Expr.ofTree n) l (.node l.rank.symbol.name i k [A, R]) := by
      rw [Expr.ofNode, Tree.symbol, Symbol.ofNonterminal?_name (by cases l <;> decide)]
      cases l <;> rfl
    have hshape : [A, R].map Tree.symbol = [l.operand, l.tail].map Symbol.name := by cases l <;> exact hF
    rw [rank, hnode, Expr.ofChain, Tree.split?_node hshape]
    rfl
  · rw [rank, Expr.ofNode, Tree.symbol, Symbol.ofNonterminal?_name (by decide)]
    dsimp only [Rank.symbol]
    rw [Expr.ofCall, Tree.split?_node (l := [.memberExpr, .callTail]) hF]
    rfl
  · rw [rank, Expr.ofNode, Tree.symbol, Symbol.ofNonterminal?_name (by decide)]
    dsimp only [Rank.symbol]
    rw [Expr.ofMember, Tree.split?_node (l := [.primaryExpr, .memberTail]) hF]
    rfl

theorem wrapped?_eq_none (hF : [A, R].map Tree.symbol = [C.rank.next.symbol, C.tail].map Symbol.name)
    (hR : R.isLeaf = false) : (Tree.node C.rank.symbol.name i k [A, R]).wrapped? = none := by
  have hshape : wrapperShape? C.rank.symbol = some ([C.rank.next.symbol, C.tail], 0) := by
    rcases C with l | _ | _
    · cases l <;> rfl
    · rfl
    · rfl
  have hs : C.rank.symbol ∈ Symbol.nonterminals := by cases C.rank <;> decide
  rw [Tree.wrapped?_node hs hF, hshape, Option.bind_some, if_neg]
  simp [hR]

end Chain

theorem Expr.ofTree_of_node {T : Tree} {d : ℕ} {x : Conversion Expr} (hT : T.wrapped? = none)
    (h : ∀ n, ofNode (n + 1) T = within d n x) : ∀ n, ofTree n T = within (d + 2) n x := by
  refine within_of_succ rfl fun n => ?_
  rw [ofTree, Tree.core_of_none hT]
  exact within_of_succ (f := fun n => ofNode n T) rfl h n

namespace Chain
variable {C : Chain} {e l : Expr} {f g : Expr → Expr} {m mk : List Mark} {d dk δ : ℕ}

/-- Under the tail every operand `e` becomes `f e`. -/
def Turns (C : Chain) (f : Expr → Expr) (d : ℕ) (R : Tree) : Prop := ∀ n e, C.onto n R e = within d n (.ok (f e))

theorem turns_of_isLeaf {R : Tree} (hR : R.isLeaf = true) : C.Turns id 0 R := by
  intro n e
  cases R with
  | node s p k cs =>
    obtain rfl : cs = [] := Tree.children_eq_nil hR
    rcases C with l | _ | _
    · rw [onto, Tree.operations]
      rfl
    · rw [onto, Tree.calls]
      rfl
    · rw [onto, Tree.accesses]
      rfl

/-- A tail under which every operand `e` becomes `f e`. -/
def tailPart (C : Chain) (m : List Mark) (f : Expr → Expr) (d : ℕ) : Part := ⟨C.tail, m, C.Turns f d⟩

/-- The same for a tail that is not empty. -/
def longTail (C : Chain) (m : List Mark) (f : Expr → Expr) (d : ℕ) : Part :=
  ⟨C.tail, m, fun R => R.isLeaf = false ∧ C.Turns f d R⟩

@[simp] theorem marks_longTail (C : Chain) (m : List Mark) (f : Expr → Expr) (d : ℕ) :
    (C.longTail m f d).marks = m := rfl

theorem holds_noTail (C : Chain) : (C.tailPart [] id 0).Holds :=
  (Part.holds_empty C.tail_rule).mono fun _ hR => turns_of_isLeaf hR

/-- An operand under a tail that is not empty. -/
theorem makes_head : Makes (C.rank.symbol, [C.rank.next.symbol, C.tail])
    [.giving C.rank.next.symbol m Expr.ofTree d e, C.longTail mk f dk] (Gives Expr.ofTree (max d dk + 2) (f e)) := by
  rintro i F hF ⟨A, _, rfl, hA, R, _, rfl, ⟨hlong, hR⟩, rfl⟩
  refine Expr.ofTree_of_node (wrapped?_eq_none hF hlong) fun n => ?_
  rw [ofNode_eq hF, hA, within_bind, ok_bind, hR, within_within]

/-- Before every tail that is not empty the expression can be read as the operand that the tail comes after. -/
def Opens (C : Chain) (e : Expr) (δ : ℕ) : Prop :=
  ∀ m f d, (C.longTail m f d).Holds →
    (Part.giving C.rank.symbol (e.marksAt C.rank ++ m) Expr.ofTree (max δ d + 2) (f e)).Holds

/-- One more operator, argument list or member: marks `mk` in front of any tail, by which the operand `e` becomes
`g e` first. -/
def Link (C : Chain) (mk : List Mark) (g : Expr → Expr) (dk : ℕ) : Prop :=
  ∀ m f d, (C.tailPart m f d).Holds → (C.longTail (mk ++ m) (f ∘ g) (max dk d)).Holds

theorem opens_of_holds (h : (e.part C.rank.next.symbol (e.marksAt C.rank)).Holds) : C.Opens e e.depth := by
  intro m f d hR
  refine yields_node (C.rank.symbol, [C.rank.next.symbol, C.tail])
    [e.part C.rank.next.symbol (e.marksAt C.rank), C.longTail m f d] C.head_rule rfl ?_ ?_ makes_head
  · simp [h, hR]
  · simp

theorem Opens.link (h : C.Opens l δ) (hk : C.Link mk g dk) (hmarks : (g l).marksAt C.rank = l.marksAt C.rank ++ mk) :
    C.Opens (g l) (max δ dk) := by
  intro m f d hR
  have hlong : (C.tailPart m f d).Holds := hR.mono fun R hR => hR.2
  have hread := h (mk ++ m) (f ∘ g) (max dk d) (hk m f d hlong)
  rwa [← List.append_assoc, ← hmarks, ← max_assoc] at hread

theorem Opens.holds (h : C.Opens l δ) (hk : C.Link mk g dk) :
    (Part.giving C.rank.symbol (l.marksAt C.rank ++ mk) Expr.ofTree (max δ dk + 2) (g l)).Holds := by
  have hread := h (mk ++ []) (id ∘ g) (max dk 0) (hk [] id 0 C.holds_noTail)
  rwa [List.append_nil, Nat.max_zero] at hread

end Chain

/-! ## Links -/

namespace Level

def symbol : Level → Symbol
  | comparison => .compOp
  | additive => .addOp
  | multiplicative => .mulOp

theorem operatorClass_eq {l : Level} {o : String} (h : o ∈ l.operators) : operatorClass o = l.symbol.name := by
  have hall : ∀ l ∈ [comparison, additive, multiplicative], ∀ o ∈ l.operators, operatorClass o = l.symbol.name := by
    decide +kernel
  exact hall l (by cases l <;> simp) o h

end Level

/-- A terminal that stands for the operator, among others. -/
def Script.Part.operator (s : Symbol) (lexeme : String) : Part :=
  ⟨s, [.operator lexeme], fun T => T.lexeme = .ok lexeme⟩

@[simp] theorem Script.Part.marks_operator (s : Symbol) (lexeme : String) :
    (Part.operator s lexeme).marks = [.operator lexeme] := rfl

theorem Script.Part.holds_operator {s : Symbol} {lexeme : String} (hs : s ∈ Symbol.terminals)
    (h : operatorClass lexeme = s.name) : (Part.operator s lexeme).Holds := by
  have hleaf := yields_leaf (a := .operator lexeme) hs fun k hk => by
    rw [terminalOf, hk.1]
    dsimp only
    rw [hk.2, h]
  refine hleaf.mono ?_
  rintro _ ⟨k, rfl, -, rfl⟩
  rfl

namespace Tree
variable {l : Level} {s s' : Symbol} {p p' : Option Int} {k k' : Option Token} {o a b c rest : Tree}

theorem operations_node (h : [a, rest].map symbol = [l.operand, l.tail].map Symbol.name) :
    (node s.name p k [o, node l.chain.name p' k' [a, rest]]).operations l = (rest.operations l).push (o, a) := by
  rw [operations, if_pos rfl, hasShape_node h, decide_eq_true rfl, if_pos rfl]

theorem calls_node
    (h : [b, a, c, rest].map symbol = [Symbol.leftParen, .args, .rightParen, .callTail].map Symbol.name) :
    (node s.name p k [b, a, c, rest]).calls = rest.calls.push a := by
  rw [calls, hasShape_node h, decide_eq_true rfl, if_pos rfl]

theorem accesses_named (h : [b, a, rest].map symbol = [Symbol.dot, .identifier, .memberTail].map Symbol.name) :
    (node s.name p k [b, a, rest]).accesses = rest.accesses.push (.named a) := by
  rw [accesses, hasShape_node h, decide_eq_true rfl, if_pos rfl]

theorem accesses_computed
    (h : [b, a, c, rest].map symbol = [Symbol.leftBracket, .expr, .rightBracket, .memberTail].map Symbol.name) :
    (node s.name p k [b, a, c, rest]).accesses = rest.accesses.push (.computed a) := by
  rw [accesses, hasShape_node h, decide_eq_true rfl, if_pos rfl]

end Tree

/-- An operand and a tail under which it becomes `f a`, which the tail in front of them reads one by one. -/
def Level.Chained (l : Level) (d : ℕ) (a : Expr) (f : Expr → Expr) (dk : ℕ) (T : Tree) : Prop :=
  ∃ (i : Int) (A R : Tree), T = .node l.chain.name (some i) none [A, R] ∧
    [A, R].map Tree.symbol = [l.operand, l.tail].map Symbol.name ∧ Gives Expr.ofTree d a A ∧
      (Chain.operations l).Turns f dk R

namespace Chain
variable {m : List Mark} {r a p : Expr} {args : List Expr} {f : Expr → Expr} {d dk : ℕ} {q : Part}

/-! A tail is made of one operation, call or access and the tail that comes after it, here the part `q`. -/

theorem makes_chained {l : Level} (hq : ∀ R, q.fact R → (operations l).Turns f dk R) :
    Makes (l.chain, [l.operand, l.tail]) [.giving l.operand m Expr.ofTree d a, q] (l.Chained d a f dk) := by
  rintro i F hF ⟨A, _, rfl, hA, R, _, rfl, hR, rfl⟩
  exact ⟨i, A, R, rfl, hF, hA, hq R hR⟩

theorem makes_operation {l : Level} {o : String} (hq : ∀ T, q.fact T → l.Chained d a f dk T) :
    Makes (l.tail, [l.symbol, l.chain]) [.operator l.symbol o, q]
      fun R => R.isLeaf = false ∧ (operations l).Turns (f ∘ fun e => .binary e o a) (max d dk) R := by
  rintro i F - ⟨O, _, rfl, hO, T, _, rfl, hT, rfl⟩
  obtain ⟨j, A, R, rfl, hF, hA, hR⟩ := hq T hT
  refine ⟨rfl, fun n e => ?_⟩
  have hlexeme : O.lexeme = .ok o := hO
  rw [onto, Tree.operations_node hF]
  unfold Expr.fold
  rw [Spine.foldl_push]
  dsimp only
  rw [hlexeme, ok_bind, hA n]
  simp only [within_bind, ok_bind, pure_bind]
  exact (congrArg (within d n) (hR n (.binary e o a))).trans within_within

theorem makes_call (hq : ∀ R, q.fact R → calls.Turns f dk R) :
    Makes (.callTail, [.leftParen, .args, .rightParen, .callTail])
      [.fixed .leftParen, .giving .args m Expr.ofArgList d args, .fixed .rightParen, q]
      fun R => R.isLeaf = false ∧ calls.Turns (f ∘ fun e => .call e args) (max d dk) R := by
  rintro i F hF ⟨b, _, rfl, -, A, _, rfl, hA, c, _, rfl, -, R, _, rfl, hR, rfl⟩
  refine ⟨rfl, fun n e => ?_⟩
  rw [onto, Tree.calls_node hF, Spine.foldl_push, hA n]
  simp only [within_bind, ok_bind]
  exact (congrArg (within d n) (hq R hR n (.call e args))).trans within_within

theorem makes_named {x : String} (hq : ∀ R, q.fact R → accesses.Turns f dk R) :
    Makes (.memberTail, [.dot, .identifier, .memberTail]) [.fixed .dot, .named x, q]
      fun R => R.isLeaf = false ∧ accesses.Turns (f ∘ fun e => .member e (.identifier x) false) dk R := by
  rintro i F hF ⟨b, _, rfl, -, A, _, rfl, hA, R, _, rfl, hR, rfl⟩
  refine ⟨rfl, fun n e => ?_⟩
  have hlexeme : A.lexeme = .ok x := hA
  rw [onto, Tree.accesses_named hF, Spine.foldl_push, Expr.ofAccess, hlexeme]
  simp only [ok_bind, pure_bind]
  exact hq R hR n (.member e (.identifier x) false)

theorem makes_computed (hq : ∀ R, q.fact R → accesses.Turns f dk R) :
    Makes (.memberTail, [.leftBracket, .expr, .rightBracket, .memberTail])
      [.fixed .leftBracket, .giving .expr m Expr.ofTree d p, .fixed .rightBracket, q]
      fun R => R.isLeaf = false ∧ accesses.Turns (f ∘ fun e => .member e p true) (max d dk) R := by
  rintro i F hF ⟨b, _, rfl, -, A, _, rfl, hA, c, _, rfl, -, R, _, rfl, hR, rfl⟩
  refine ⟨rfl, fun n e => ?_⟩
  rw [onto, Tree.accesses_computed hF, Spine.foldl_push, Expr.ofAccess, hA n]
  simp only [within_bind, ok_bind, pure_bind]
  exact (congrArg (within d n) (hq R hR n (.member e p true))).trans within_within

theorem link_operation {l : Level} {o : String} (ho : o ∈ l.operators) (hr : (r.part l.operand m).Holds) :
    (operations l).Link (.operator o :: m) (fun e => .binary e o r) r.depth := by
  intro m' f d hR
  have hchain : Part.Holds ⟨l.chain, m ++ m', l.Chained r.depth r f d⟩ := by
    refine yields_node (l.chain, [l.operand, l.tail]) [r.part l.operand m, (operations l).tailPart m' f d]
      (by cases l <;> decide) rfl ?_ ?_ (makes_chained fun _ h => h)
    · simp [hr, hR]
    · simp [tailPart]
  refine yields_node (l.tail, [l.symbol, l.chain]) [.operator l.symbol o, _] (by cases l <;> decide) rfl
    (List.forall_mem_cons.mpr ⟨Part.holds_operator (by cases l <;> decide) (Level.operatorClass_eq ho),
      List.forall_mem_singleton.mpr hchain⟩) ?_ (makes_operation fun _ h => h)
  simp

theorem link_call (hargs : (Part.giving .args m Expr.ofArgList d args).Holds) :
    calls.Link (Mark.parens m) (fun e => .call e args) d := by
  intro m' f d' hR
  refine yields_node (.callTail, [.leftParen, .args, .rightParen, .callTail])
    [.fixed .leftParen, .giving .args m Expr.ofArgList d args, .fixed .rightParen, calls.tailPart m' f d']
    (by decide) rfl ?_ ?_ (makes_call fun _ h => h)
  · simp +decide [hargs, hR]
  · simp [Symbol.kind?, tailPart, longTail, Mark.parens]

theorem link_named (x : String) :
    accesses.Link [.fixed .dot, .name x] (fun e => .member e (.identifier x) false) 0 := by
  intro m' f d hR
  rw [Nat.zero_max]
  refine yields_node (.memberTail, [.dot, .identifier, .memberTail])
    [.fixed .dot, .named x, accesses.tailPart m' f d] (by decide) rfl ?_ ?_ (makes_named fun _ h => h)
  · simp +decide [hR]
  · simp [Symbol.kind?, tailPart, longTail]

theorem link_computed (hp : (p.part .expr m).Holds) :
    accesses.Link (Mark.brackets m) (fun e => .member e p true) p.depth := by
  intro m' f d hR
  refine yields_node (.memberTail, [.leftBracket, .expr, .rightBracket, .memberTail])
    [.fixed .leftBracket, p.part .expr m, .fixed .rightBracket, accesses.tailPart m' f d] (by decide) rfl ?_ ?_
    (makes_computed fun _ h => h)
  · simp +decide [hp, hR]
  · simp [Symbol.kind?, tailPart, longTail, Mark.brackets]

end Chain

/-! ## Expressions -/

/-- The expression can be read at its own rank, and in front of the tails of every chain. -/
structure Expr.Readable (e : Expr) : Prop where
  holds : (e.part e.rank.symbol e.marks).Holds
  opens : ∀ C : Chain, C.Opens e (e.nesting + C.rank.step e.rank)

namespace Expr
variable {e l : Expr}

theorem Readable.whole (h : e.Readable) : (e.part .expr e.marks).Holds := holds_whole h.holds

theorem Readable.placed (h : e.Readable) (place : Rank) : (e.part place.symbol (e.marksAt place)).Holds :=
  holds_placed h.holds place

/-- An expression of another rank is the first operand of a chain. -/
theorem opens_of_ne {C : Chain} (h : (e.part e.rank.symbol e.marks).Holds) (hne : e.rank ≠ C.rank) :
    C.Opens e (e.nesting + C.rank.step e.rank) := by
  have hplace : e.marksAt C.rank.next = e.marksAt C.rank := placed_next hne (C.rank_ne _ (by decide)).symm e.marks
  have hread := holds_placed h C.rank.next
  rw [hplace] at hread
  rw [Rank.step, if_neg hne]
  exact Chain.opens_of_holds hread

theorem readable_of_holds (h : (e.part e.rank.symbol e.marks).Holds)
    (hrank : e.rank ∈ [Rank.assignment, .unary, .primary]) : e.Readable :=
  ⟨h, fun C => opens_of_ne h (C.rank_ne _ hrank)⟩

theorem Readable.link {C : Chain} {g : Expr → Expr} {mk : List Mark} {dk : ℕ} (hl : l.Readable) (hk : C.Link mk g dk)
    (hrank : (g l).rank = C.rank) (hmarks : (g l).marks = l.marksAt C.rank ++ mk)
    (hnesting : (g l).nesting = max (l.nesting + C.rank.step l.rank) dk) : (g l).Readable := by
  have hholds : ((g l).part (g l).rank.symbol (g l).marks).Holds := by
    have h := (hl.opens C).holds hk
    rwa [← hnesting, ← hmarks, ← hrank] at h
  refine ⟨hholds, fun C' => ?_⟩
  by_cases hC : (g l).rank = C'.rank
  · obtain rfl : C = C' := Chain.rank_injective (hrank.symm.trans hC)
    have hplaced : (g l).marksAt C.rank = l.marksAt C.rank ++ mk := by
      rw [marksAt, hrank, placed_self, hmarks]
    have hstep : C.rank.step (g l).rank = 0 := if_pos hC
    rw [hstep, Nat.add_zero, hnesting]
    exact (hl.opens C).link hk hplaced
  · exact opens_of_ne hholds hC

end Expr

end Lookahead
