import Lookahead.Program.Fault

/-! Spines: the items of a sequence that a tree holds in a chain of tails. A tail of the wrong shape ends
the spine; what comes before it still counts. -/
namespace Lookahead

open Script

structure Spine (α : Type) where
  items : List α
  fault : Option ConversionFailure

namespace Spine

variable {α β : Type}

def done : Spine α := ⟨[], none⟩

def broken (e : ConversionFailure) : Spine α := ⟨[], some e⟩

def push (a : α) (s : Spine α) : Spine α := { s with items := a :: s.items }

/-- Converts the items in order, then reports the fault. -/
def mapM (f : α → Conversion β) (s : Spine α) : Conversion (List β) := do
  let bs ← s.items.mapM f
  match s.fault with
  | none => return bs
  | some e => throw e

end Spine

namespace Tree

/-! ## Sequences -/

def statements : Tree → Spine Tree
  | .node _ _ _ [] => .done
  | .node s p k [a, rest] =>
    if (node s p k [a, rest]).hasShape [.stmt, .stmtList] then rest.statements.push a
    else .broken ((node s p k [a, rest]).malformed [.stmt, .stmtList])
  | .node s p k cs => .broken ((node s p k cs).malformed [.stmt, .stmtList])

/-- The items after the first of a sequence with commas. -/
def afterComma (item tail : Symbol) : Tree → Spine Tree
  | .node _ _ _ [] => .done
  | .node s p k [c, a, rest] =>
    if (node s p k [c, a, rest]).hasShape [.comma, item, tail] then (rest.afterComma item tail).push a
    else .broken ((node s p k [c, a, rest]).malformed [.comma, item, tail])
  | .node s p k cs => .broken ((node s p k cs).malformed [.comma, item, tail])

/-- The items of a sequence in which a comma may come last. -/
def entries (list item tail : Symbol) : Tree → Spine Tree
  | .node _ _ _ [] => .done
  | .node s p k [a, .node s' p' k' cs'] =>
    if (node s p k [a, node s' p' k' cs']).hasShape [item, tail] then
      match cs' with
      | [] => Spine.done.push a
      | [c, rest] =>
        if (node s' p' k' [c, rest]).hasShape [.comma, list] then (rest.entries list item tail).push a
        else (Spine.broken ((node s' p' k' [c, rest]).malformed [.comma, list])).push a
      | cs' => (Spine.broken ((node s' p' k' cs').malformed [.comma, list])).push a
    else .broken ((node s p k [a, node s' p' k' cs']).malformed [item, tail])
  | .node s p k cs => .broken ((node s p k cs).malformed [item, tail])

end Tree

/-! ## Operators -/

/-- A level of binary operators. -/
inductive Level where
  | comparison
  | additive
  | multiplicative
deriving DecidableEq

namespace Level

def chain : Level → Symbol
  | comparison => .compExpr
  | additive => .addExpr
  | multiplicative => .mulExpr

def operand : Level → Symbol
  | comparison => .addExpr
  | additive => .mulExpr
  | multiplicative => .unaryExpr

def tail : Level → Symbol
  | comparison => .compTail
  | additive => .addTail
  | multiplicative => .mulTail

end Level

namespace Tree

/-- The operators of a chain, each with the operand on its right. -/
def operations (l : Level) : Tree → Spine (Tree × Tree)
  | .node _ _ _ [] => .done
  | .node s p k [o, .node s' p' k' cs'] =>
    if s' = l.chain.name then
      match cs' with
      | [a, rest] =>
        if (node s' p' k' [a, rest]).hasShape [l.operand, l.tail] then (rest.operations l).push (o, a)
        else .broken ((node s' p' k' [a, rest]).malformed [l.operand, l.tail])
      | cs' => .broken ((node s' p' k' cs').malformed [l.operand, l.tail])
    else .broken (node s p k [o, node s' p' k' cs']).unexpected
  | .node s p k cs => .broken (node s p k cs).unexpected

/-! ## Calls and members -/

/-- The argument lists of calls, one after the other. -/
def calls : Tree → Spine Tree
  | .node _ _ _ [] => .done
  | .node s p k [l, a, r, rest] =>
    if (node s p k [l, a, r, rest]).hasShape [.leftParen, .args, .rightParen, .callTail] then rest.calls.push a
    else .broken ((node s p k [l, a, r, rest]).malformed [.leftParen, .args, .rightParen, .callTail])
  | .node s p k cs => .broken ((node s p k cs).malformed [.leftParen, .args, .rightParen, .callTail])

end Tree

/-- A step from an object to a part of it. -/
inductive Access where
  | named (leaf : Tree)
  | computed (index : Tree)

namespace Tree

def accesses : Tree → Spine Access
  | .node _ _ _ [] => .done
  | .node s p k [d, a, rest] =>
    if (node s p k [d, a, rest]).hasShape [.dot, .identifier, .memberTail] then rest.accesses.push (.named a)
    else .broken (node s p k [d, a, rest]).unexpected
  | .node s p k [l, a, r, rest] =>
    if (node s p k [l, a, r, rest]).hasShape [.leftBracket, .expr, .rightBracket, .memberTail] then
      rest.accesses.push (.computed a)
    else .broken (node s p k [l, a, r, rest]).unexpected
  | .node s p k cs => .broken (node s p k cs).unexpected

end Tree
end Lookahead
