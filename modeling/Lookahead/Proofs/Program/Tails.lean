import Lookahead.Proofs.Program.Chain

/-! Spines one tail at a time, as other conversions read a node: by the symbols of its children. -/
namespace Lookahead

open Script

namespace Tree
variable {t o c : Tree} {l : Level}

theorem split?_node_eq (s : String) (p : Option Int) (k : Option Token) (cs : List Tree) (symbols : List Symbol) :
    (node s p k cs).split? symbols = if (node s p k cs).hasShape symbols then some cs else none := rfl

theorem statements_eq (t : Tree) : t.statements =
    if t.isLeaf then .done else
      match t.split? [.stmt, .stmtList] with
      | some [a, rest] => rest.statements.push a
      | _ => .broken (t.malformed [.stmt, .stmtList]) := by
  fun_cases statements t <;> simp_all [split?_node_eq, isLeaf, children]

theorem afterComma_eq (item tail : Symbol) (t : Tree) : t.afterComma item tail =
    if t.isLeaf then .done else
      match t.split? [.comma, item, tail] with
      | some [_, a, rest] => (rest.afterComma item tail).push a
      | _ => .broken (t.malformed [.comma, item, tail]) := by
  fun_cases afterComma item tail t <;> simp_all [split?_node_eq, isLeaf, children]

/-- The items after the first of a sequence in which a comma may come last. -/
def following (list item tail : Symbol) (t : Tree) : Spine Tree :=
  if t.isLeaf then .done else
    match t.split? [.comma, list] with
    | some [_, rest] => rest.entries list item tail
    | _ => .broken (t.malformed [.comma, list])

theorem entries_eq (list item tail : Symbol) (t : Tree) : t.entries list item tail =
    if t.isLeaf then .done else
      match t.split? [item, tail] with
      | some [a, rest] => (rest.following list item tail).push a
      | _ => .broken (t.malformed [item, tail]) := by
  fun_cases entries list item tail t with
  | case7 s p k cs hne hpair =>
    match cs with
    | [] => exact absurd rfl hne
    | [a, .node s' p' k' cs'] => exact absurd rfl (hpair a s' p' k' cs')
    | [_] | _ :: _ :: _ :: _ => simp [split?_node_eq, isLeaf, children, hasShape, shape]
  | _ => simp_all [split?_node_eq, isLeaf, children, following]

theorem operations_of_isLeaf (h : t.isLeaf = true) : t.operations l = .done := by
  cases t with
  | node s p k cs =>
    obtain rfl : cs = [] := children_eq_nil h
    rw [operations]

theorem operations_of_pair (h : t.children = [o, c]) (hc : c.symbol = l.chain.name) : t.operations l =
    match c.split? [l.operand, l.tail] with
    | some [a, rest] => (rest.operations l).push (o, a)
    | _ => .broken (c.malformed [l.operand, l.tail]) := by
  cases t with
  | node s p k cs =>
    obtain rfl : cs = [o, c] := h
    cases c with
    | node s' p' k' cs' =>
      have hs : s' = l.chain.name := hc
      match cs' with
      | [a, rest] =>
        rw [operations, if_pos hs, split?_node_eq]
        split <;> rfl
      | [] | [_] | _ :: _ :: _ :: _ =>
        simp [operations, hs, split?_node_eq, hasShape, shape, children]

theorem operations_of_not_pair (hleaf : t.isLeaf = false)
    (h : ∀ o c, t.children = [o, c] → c.symbol ≠ l.chain.name) : t.operations l = .broken t.unexpected := by
  fun_cases operations l t <;> simp_all [isLeaf, children, symbol]

theorem calls_eq (t : Tree) : t.calls =
    if t.isLeaf then .done else
      match t.split? [.leftParen, .args, .rightParen, .callTail] with
      | some [_, a, _, rest] => rest.calls.push a
      | _ => .broken (t.malformed [.leftParen, .args, .rightParen, .callTail]) := by
  fun_cases calls t <;> simp_all [split?_node_eq, isLeaf, children]

theorem accesses_eq (t : Tree) : t.accesses =
    if t.isLeaf then .done else
      match t.split? [.dot, .identifier, .memberTail] with
      | some [_, a, rest] => rest.accesses.push (.named a)
      | _ =>
        match t.split? [.leftBracket, .expr, .rightBracket, .memberTail] with
        | some [_, a, _, rest] => rest.accesses.push (.computed a)
        | _ => .broken t.unexpected := by
  fun_cases accesses t <;> simp_all [split?_node_eq, isLeaf, children]

end Tree

/-! ## Nodes without the children that are asked for -/

theorem Expr.ofUnary_of_not_pair {t : Tree} (f : Tree → Conversion Expr)
    (h : ∀ o a, t.children = [o, a] → a.symbol ≠ Symbol.unaryExpr.name) : ofUnary f t = .error t.unexpected := by
  unfold ofUnary
  split <;> simp_all

theorem Expr.ofPrimary_of_not_single {t : Tree} (f : Tree → Conversion Expr) (h : ∀ a, t.children ≠ [a]) :
    ofPrimary f t = .error t.unexpected := by
  unfold ofPrimary
  split
  · exact absurd ‹_› (h _)
  · rfl

theorem Stmt.ofForInit_of_not_single {t : Tree} (c : Stmt.Parts) (h : ∀ a, t.children ≠ [a]) :
    ofForInit c t = .error t.unexpected := by
  unfold ofForInit
  split
  · exact absurd ‹_› (h _)
  · rfl

theorem Stmt.ofStmt_of_not_single {t : Tree} (c : Stmt.Parts) (h : ∀ a, t.children ≠ [a]) :
    ofStmt c t = .error t.unexpected := by
  unfold ofStmt
  split
  · exact absurd ‹_› (h _)
  · rfl

end Lookahead
