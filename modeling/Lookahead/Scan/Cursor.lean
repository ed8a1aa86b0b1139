import Lookahead.Location

/-! Positions while reading a text. -/
namespace Lookahead

structure Cursor where
  offset : Nat
  line : Nat
  column : Nat
deriving DecidableEq

namespace Cursor

def start : Cursor := ⟨0, 1, 1⟩

def step (p : Cursor) (c : Char) : Cursor :=
  if c = '\n' then ⟨p.offset + 1, p.line + 1, 1⟩ else ⟨p.offset + 1, p.line, p.column + 1⟩

/-- The position past `cs`. -/
def past (p : Cursor) (cs : List Char) : Cursor := cs.foldl step p

def location (p : Cursor) (file : String) : Location := ⟨file, p.line, p.column, p.offset⟩

@[simp] theorem past_nil (p : Cursor) : p.past [] = p := rfl

@[simp] theorem past_cons (p : Cursor) (c : Char) (cs : List Char) : p.past (c :: cs) = (p.step c).past cs := rfl

theorem step_newline (p : Cursor) : p.step '\n' = ⟨p.offset + 1, p.line + 1, 1⟩ := rfl

theorem step_of_ne {c : Char} (h : c ≠ '\n') (p : Cursor) : p.step c = ⟨p.offset + 1, p.line, p.column + 1⟩ :=
  if_neg h

theorem past_append (p : Cursor) (cs ds : List Char) : p.past (cs ++ ds) = (p.past cs).past ds :=
  List.foldl_append

end Cursor
end Lookahead
