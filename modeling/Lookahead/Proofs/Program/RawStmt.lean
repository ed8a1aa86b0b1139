import Lookahead.Proofs.Program.RawExpr

/-! Conversions into statements and programs that can crash. None of them does, but for numerals that cannot be
read. -/
namespace Lookahead

open Script

namespace Raw

/-! ## Nodes -/

/-- The conversions of what a statement is made of. -/
structure Parts where
  expr : Tree → Raw Expr
  optional : Tree → Raw (Option Expr)
  stmt : Tree → Raw Stmt
  block : Tree → Raw (List Stmt)

def ofStmt (c : Parts) (t : Tree) : Raw Stmt := do
  if t.children.length ≠ 1 then unexpected t
  else c.stmt (← item t.children 0)

/-- The value that a variable starts with. -/
def ofInit (c : Parts) (t : Tree) : Raw (Option Expr) := do
  if t.shape = [Symbol.equals, .expr, .semicolon].map Symbol.name then
    return some (← c.expr (← item t.children 1))
  else
    let _ ← expect t [.semicolon]
    return none

def ofVarDecl (c : Parts) (t : Tree) : Raw Stmt := do
  if t.shape = [Symbol.letWord, .identifier, .varInit].map Symbol.name then
    let [_, name, init] := t.children | crash (.count 3)
    let value ← ofInit c init
    return .varDecl false (← lexeme name) value
  else if t.shape = [Symbol.constWord, .identifier, .equals, .expr, .semicolon].map Symbol.name then
    let [_, name, _, e, _] := t.children | crash (.count 5)
    return .varDecl true (← lexeme name) (some (← c.expr e))
  else unexpected t

def ofParams (t : Tree) : Raw (List String) := do
  if t.isLeaf then return []
  let [a, tail] ← expect t [.identifier, .paramTail] | crash (.count 2)
  let first ← lexeme a
  let rest ← loop (afterComma .identifier .paramTail lexeme) tail
  return first :: rest

def ofFnDecl (c : Parts) (t : Tree) : Raw Stmt := do
  let [_, name, _, params, _, _, block, _] ← expect t Stmt.fnShape | crash (.count 8)
  let parameters ← ofParams params
  return .fnDecl (← lexeme name) parameters (← c.block block)

def ofElse (c : Parts) (t : Tree) : Raw (Option (List Stmt)) := do
  if t.isLeaf then return none
  let [_, _, block, _] ← expect t [.elseWord, .leftBrace, .block, .rightBrace] | crash (.count 4)
  return some (← c.block block)

def ofIf (c : Parts) (t : Tree) : Raw Stmt := do
  let [_, _, condition, _, _, block, _, clause] ← expect t Stmt.ifShape | crash (.count 8)
  let elseBody ← ofElse c clause
  return .ifElse (← c.expr condition) (← c.block block) elseBody

def ofWhile (c : Parts) (t : Tree) : Raw Stmt := do
  let [_, _, condition, _, _, block, _] ← expect t Stmt.whileShape | crash (.count 7)
  return .whileLoop (← c.expr condition) (← c.block block)

def ofForInit (c : Parts) (t : Tree) : Raw (Option Stmt) := do
  if t.shape = [Symbol.semicolon.name] then return none
  else if t.shape = [Symbol.varDecl.name] ∨ t.shape = [Symbol.exprStmt.name] then
    return some (← c.stmt (← item t.children 0))
  else unexpected t

def ofFor (c : Parts) (t : Tree) : Raw Stmt := do
  let [_, _, init, condition, _, update, _, _, block, _] ← expect t Stmt.forShape | crash (.count 10)
  let init ← ofForInit c init
  return .forLoop init (← c.optional condition) (← c.optional update) (← c.block block)

def ofReturn (c : Parts) (t : Tree) : Raw Stmt := do
  let [_, value, _] ← expect t [.returnWord, .optExpr, .semicolon] | crash (.count 3)
  return .returning (← c.optional value)

def ofBreak (t : Tree) : Raw Stmt := do
  let _ ← expect t [.breakWord, .semicolon]
  return .breaking

def ofContinue (t : Tree) : Raw Stmt := do
  let _ ← expect t [.continueWord, .semicolon]
  return .continuing

def ofExprStmt (c : Parts) (t : Tree) : Raw Stmt := do
  let [e, _] ← expect t [.expr, .semicolon] | crash (.count 2)
  return .expression (← c.expr e)

/-- A round for a list of statements. -/
def statement (convert : Tree → Raw Stmt) (t : Tree) : Raw (Option (Stmt × Option Tree)) := do
  if t.isLeaf then return none
  let [a, rest] ← expect t [.stmt, .stmtList] | crash (.count 2)
  return some (← convert a, some rest)

/-! ## Trees -/

mutual

def stmt : Nat → Tree → Raw Stmt
  | 0, _ => fault .tooDeep
  | n + 1, t => do
    let c ← descend t
    if (Symbol.ofNonterminal? c.symbol).isNone then fault (.noConversion c.symbol)
    else
      let s ← entry Symbol.ofNonterminal? c.symbol
      if isStatement s then stmtNode n s c else .bare <$> exprNode n c

def stmtNode : Nat → Symbol → Tree → Raw Stmt
  | 0, _, _ => fault .tooDeep
  | n + 1, s, t =>
    let parts : Parts := ⟨expr n, optExpr n, stmt n, block n⟩
    match s with
    | .stmt => ofStmt parts t
    | .varDecl => ofVarDecl parts t
    | .fnDecl => ofFnDecl parts t
    | .ifStmt => ofIf parts t
    | .whileStmt => ofWhile parts t
    | .forStmt => ofFor parts t
    | .returnStmt => ofReturn parts t
    | .breakStmt => ofBreak t
    | .continueStmt => ofContinue t
    | .exprStmt => ofExprStmt parts t
    | s => crash (.entry s.name)

def block : Nat → Tree → Raw (List Stmt)
  | 0, _ => fault .tooDeep
  | n + 1, t => do
    let [list] ← expect t [.stmtList] | crash (.count 1)
    stmtList n list

def stmtList : Nat → Tree → Raw (List Stmt)
  | 0, _ => fault .tooDeep
  | n + 1, t => loop (statement (stmt n)) t

end

def programWithin (limit : Nat) (t : Tree) : Raw Program := do
  if t.symbol ≠ Symbol.program.name then fault (.notProgram t.symbol)
  else
    let [list] ← expect t [.stmtList] | crash (.count 1)
    return ⟨← stmtList limit list⟩

/-! ## Nodes that are looked at before they are taken apart -/

theorem round_statement (f : Tree → Conversion Stmt) (t : Tree) :
    Round Tree.statements f t t.statements (statement (fun c => of (f c)) t) := by
  rw [Tree.statements_eq, statement]
  cases t.isLeaf with
  | true => exact .done
  | false =>
    obtain ⟨hsplit, hexpect⟩ | ⟨cs, hsplit, hexpect, hchildren, hsymbols⟩ := expect_cases t [.stmt, .stmtList]
    · rw [hsplit, hexpect]
      exact .broken (t.malformed [.stmt, .stmtList])
    · obtain _ | ⟨-, _ | ⟨-, _ | _⟩⟩ := hsymbols
      rename_i a rest
      rw [hsplit, hexpect]
      exact .push a rest (Tree.size_child (by simp [hchildren]))

/-- The same conversions, none of which crashes. -/
def parts (c : Stmt.Parts) : Parts :=
  ⟨fun t => of (c.expr t), fun t => of (c.optional t), fun t => of (c.stmt t), fun t => of (c.block t)⟩

section Nodes
variable (c : Stmt.Parts) (t : Tree)

@[simp] theorem parts_expr : (parts c).expr t = of (c.expr t) := rfl

@[simp] theorem parts_optional : (parts c).optional t = of (c.optional t) := rfl

@[simp] theorem parts_stmt : (parts c).stmt t = of (c.stmt t) := rfl

@[simp] theorem parts_block : (parts c).block t = of (c.block t) := rfl

/-- Children that are looked at but not taken apart. -/
theorem expect_then {α : Type} (l : List Symbol) (a : α) : (expect t l >>= fun _ => .ok a) =
    of (if t.hasShape l then .ok a else .error (t.malformed l)) := by
  rw [expect, Tree.hasShape]
  by_cases hshape : t.shape = l.map Symbol.name
  · rw [if_neg (not_not_intro hshape), decide_eq_true hshape]; rfl
  · rw [if_pos hshape, decide_eq_false hshape]; rfl

theorem ofStmt_eq : ofStmt (parts c) t = of (Stmt.ofStmt c t) := by
  rw [ofStmt]
  by_cases hlength : t.children.length = 1
  · obtain ⟨a, hchildren⟩ := List.length_eq_one_iff.mp hlength
    rw [Stmt.ofStmt, hchildren]
    rfl
  · rw [if_pos hlength, Stmt.ofStmt_of_not_single c fun a h => hlength (h ▸ rfl)]
    rfl

theorem ofInit_eq : ofInit (parts c) t = of (Stmt.ofInit c t) := by
  rw [ofInit, Stmt.ofInit]
  obtain ⟨hsplit, hshape⟩ | ⟨cs, hsplit, hshape, hchildren, hsymbols⟩ := shape_cases t [.equals, .expr, .semicolon]
  · rw [hsplit, if_neg hshape]
    exact expect_then t [.semicolon] none
  · obtain _ | ⟨-, _ | ⟨-, _ | ⟨-, _ | _⟩⟩⟩ := hsymbols
    rw [hsplit, if_pos hshape, hchildren]
    simp [item]

theorem ofVarDecl_eq : ofVarDecl (parts c) t = of (Stmt.ofVarDecl c t) := by
  rw [ofVarDecl, Stmt.ofVarDecl]
  obtain ⟨hsplit, hshape⟩ | ⟨cs, hsplit, hshape, hchildren, hsymbols⟩ :=
    shape_cases t [.letWord, .identifier, .varInit]
  · obtain ⟨hsplit', hshape'⟩ | ⟨cs, hsplit', hshape', hchildren, hsymbols⟩ :=
      shape_cases t [.constWord, .identifier, .equals, .expr, .semicolon]
    · rw [hsplit, hsplit', if_neg hshape, if_neg hshape']
      rfl
    · obtain _ | ⟨-, _ | ⟨-, _ | ⟨-, _ | ⟨-, _ | ⟨-, _ | _⟩⟩⟩⟩⟩ := hsymbols
      rw [hsplit, hsplit', if_neg hshape, if_pos hshape', hchildren]
      simp
  · obtain _ | ⟨-, _ | ⟨-, _ | ⟨-, _ | _⟩⟩⟩ := hsymbols
    rw [hsplit, if_pos hshape, hchildren]
    simp [ofInit_eq]

theorem ofParams_eq : ofParams t = of (Stmt.ofParams t) := by
  rw [ofParams, Stmt.ofParams]
  cases t.isLeaf with
  | true => rfl
  | false =>
    obtain ⟨hsplit, hexpect⟩ | ⟨cs, hsplit, hexpect, -, hsymbols⟩ := expect_cases t [.identifier, .paramTail]
    · rw [hsplit, hexpect]; rfl
    · obtain _ | ⟨-, _ | ⟨-, _ | _⟩⟩ := hsymbols
      simp [hsplit, hexpect, funext lexeme_eq, loop_eq (round_afterComma .identifier .paramTail Tree.lexeme)]

theorem ofFnDecl_eq : ofFnDecl (parts c) t = of (Stmt.ofFnDecl c t) := by
  rw [ofFnDecl, Stmt.ofFnDecl]
  obtain ⟨hsplit, hexpect⟩ | ⟨cs, hsplit, hexpect, -, hsymbols⟩ := expect_cases t Stmt.fnShape
  · rw [hsplit, hexpect]; rfl
  · obtain _ | ⟨-, _ | ⟨-, _ | ⟨-, _ | ⟨-, _ | ⟨-, _ | ⟨-, _ | ⟨-, _ | ⟨-, _ | _⟩⟩⟩⟩⟩⟩⟩⟩ := hsymbols
    simp [hsplit, hexpect, ofParams_eq]

theorem ofElse_eq : ofElse (parts c) t = of (Stmt.ofElse c t) := by
  rw [ofElse, Stmt.ofElse]
  cases t.isLeaf with
  | true => rfl
  | false =>
    obtain ⟨hsplit, hexpect⟩ | ⟨cs, hsplit, hexpect, -, hsymbols⟩ :=
      expect_cases t [.elseWord, .leftBrace, .block, .rightBrace]
    · rw [hsplit, hexpect]; rfl
    · obtain _ | ⟨-, _ | ⟨-, _ | ⟨-, _ | ⟨-, _ | _⟩⟩⟩⟩ := hsymbols
      simp [hsplit, hexpect]

theorem ofIf_eq : ofIf (parts c) t = of (Stmt.ofIf c t) := by
  rw [ofIf, Stmt.ofIf]
  obtain ⟨hsplit, hexpect⟩ | ⟨cs, hsplit, hexpect, -, hsymbols⟩ := expect_cases t Stmt.ifShape
  · rw [hsplit, hexpect]; rfl
  · obtain _ | ⟨-, _ | ⟨-, _ | ⟨-, _ | ⟨-, _ | ⟨-, _ | ⟨-, _ | ⟨-, _ | ⟨-, _ | _⟩⟩⟩⟩⟩⟩⟩⟩ := hsymbols
    simp [hsplit, hexpect, ofElse_eq]

theorem ofWhile_eq : ofWhile (parts c) t = of (Stmt.ofWhile c t) := by
  rw [ofWhile, Stmt.ofWhile]
  obtain ⟨hsplit, hexpect⟩ | ⟨cs, hsplit, hexpect, -, hsymbols⟩ := expect_cases t Stmt.whileShape
  · rw [hsplit, hexpect]; rfl
  · obtain _ | ⟨-, _ | ⟨-, _ | ⟨-, _ | ⟨-, _ | ⟨-, _ | ⟨-, _ | ⟨-, _ | _⟩⟩⟩⟩⟩⟩⟩ := hsymbols
    simp [hsplit, hexpect]

theorem ofForInit_eq : ofForInit (parts c) t = of (Stmt.ofForInit c t) := by
  by_cases hsingle : ∃ a, t.children = [a]
  · obtain ⟨a, hchildren⟩ := hsingle
    have hshape : ∀ s, t.shape = [s] ↔ a.symbol = s := fun s => by simp [Tree.shape, hchildren]
    have hitem : item [a] 0 = .ok a := rfl
    simp only [ofForInit, Stmt.ofForInit, hchildren, hshape, hitem, ok_bind]
    by_cases hsemi : a.symbol = Symbol.semicolon.name
    · rw [if_pos hsemi, if_pos hsemi]; rfl
    rw [if_neg hsemi, if_neg hsemi]
    split
    · simp
    · rfl
  · have hchildren : ∀ a, t.children ≠ [a] := fun a h => hsingle ⟨a, h⟩
    rw [Stmt.ofForInit_of_not_single c hchildren]
    simp only [ofForInit, shape_ne_single hchildren, or_self, if_false]
    rfl

theorem ofFor_eq : ofFor (parts c) t = of (Stmt.ofFor c t) := by
  rw [ofFor, Stmt.ofFor]
  obtain ⟨hsplit, hexpect⟩ | ⟨cs, hsplit, hexpect, -, hsymbols⟩ := expect_cases t Stmt.forShape
  · rw [hsplit, hexpect]; rfl
  · obtain _ | ⟨-, _ | ⟨-, _ | ⟨-, _ | ⟨-, _ | ⟨-, _ | ⟨-, _ | ⟨-, _ | ⟨-, _ | ⟨-, _ | ⟨-, _ | _⟩⟩⟩⟩⟩⟩⟩⟩⟩⟩ :=
      hsymbols
    simp [hsplit, hexpect, ofForInit_eq]

theorem ofReturn_eq : ofReturn (parts c) t = of (Stmt.ofReturn c t) := by
  rw [ofReturn, Stmt.ofReturn]
  obtain ⟨hsplit, hexpect⟩ | ⟨cs, hsplit, hexpect, -, hsymbols⟩ :=
    expect_cases t [.returnWord, .optExpr, .semicolon]
  · rw [hsplit, hexpect]; rfl
  · obtain _ | ⟨-, _ | ⟨-, _ | ⟨-, _ | _⟩⟩⟩ := hsymbols
    simp [hsplit, hexpect]

theorem ofBreak_eq : ofBreak t = of (Stmt.ofBreak t) := by
  rw [ofBreak, Stmt.ofBreak]
  exact expect_then t [.breakWord, .semicolon] Stmt.breaking

theorem ofContinue_eq : ofContinue t = of (Stmt.ofContinue t) := by
  rw [ofContinue, Stmt.ofContinue]
  exact expect_then t [.continueWord, .semicolon] Stmt.continuing

theorem ofExprStmt_eq : ofExprStmt (parts c) t = of (Stmt.ofExprStmt c t) := by
  rw [ofExprStmt, Stmt.ofExprStmt]
  obtain ⟨hsplit, hexpect⟩ | ⟨cs, hsplit, hexpect, -, hsymbols⟩ := expect_cases t [.expr, .semicolon]
  · rw [hsplit, hexpect]; rfl
  · obtain _ | ⟨-, _ | ⟨-, _ | _⟩⟩ := hsymbols
    simp [hsplit, hexpect]

end Nodes

/-! ## Trees that are converted without a crash -/

theorem stmtNode_succ {n : ℕ} (hstmt : ∀ t, stmt n t = of (Stmt.ofTree n t))
    (hblock : ∀ t, block n t = of (Stmt.ofBlock n t)) (s : Symbol) (hs : isStatement s = true) (t : Tree) :
    stmtNode (n + 1) s t = of (Stmt.ofNode (n + 1) s t) := by
  have hparts : (⟨expr n, optExpr n, stmt n, block n⟩ : Parts) =
      parts ⟨Expr.ofTree n, Expr.ofOptExpr n, Stmt.ofTree n, Stmt.ofBlock n⟩ := by
    rw [funext (expr_eq n).1, funext (optExpr_eq n), funext hstmt, funext hblock]
    rfl
  simp only [stmtNode, Stmt.ofNode, hparts]
  cases s with
  | stmt => exact ofStmt_eq _ t
  | varDecl => exact ofVarDecl_eq _ t
  | fnDecl => exact ofFnDecl_eq _ t
  | ifStmt => exact ofIf_eq _ t
  | whileStmt => exact ofWhile_eq _ t
  | forStmt => exact ofFor_eq _ t
  | returnStmt => exact ofReturn_eq _ t
  | breakStmt => exact ofBreak_eq t
  | continueStmt => exact ofContinue_eq t
  | exprStmt => exact ofExprStmt_eq _ t
  | _ => cases hs

theorem stmt_eq (n : ℕ) : (∀ t, stmt n t = of (Stmt.ofTree n t)) ∧
    (∀ s, isStatement s = true → ∀ t, stmtNode n s t = of (Stmt.ofNode n s t)) ∧ (∀ t, block n t = of (Stmt.ofBlock n t)) ∧
    ∀ t, stmtList n t = of (Stmt.ofList n t) := by
  induction n with
  | zero => exact ⟨fun _ => rfl, fun _ _ _ => rfl, fun _ => rfl, fun _ => rfl⟩
  | succ n ih =>
    obtain ⟨hstmt, hnode, hblock, hlist⟩ := ih
    refine ⟨fun t => ?_, stmtNode_succ hstmt hblock, fun t => ?_, fun t => ?_⟩
    · rw [stmt, descend_eq, ok_bind, Stmt.ofTree, entry]
      cases Symbol.ofNonterminal? t.core.symbol with
      | none => rfl
      | some s =>
        cases hs : isStatement s with
        | true => simpa [hs] using hnode s hs t.core
        | false => simp [hs, (expr_eq n).2.1]
    · rw [block, Stmt.ofBlock]
      obtain ⟨hsplit, hexpect⟩ | ⟨cs, hsplit, hexpect, -, hsymbols⟩ := expect_cases t [.stmtList]
      · rw [hsplit, hexpect]; rfl
      · obtain _ | ⟨-, _ | _⟩ := hsymbols
        rw [hsplit, hexpect, ok_bind]
        exact hlist _
    · rw [stmtList, Stmt.ofList, funext hstmt, loop_eq (round_statement (Stmt.ofTree n))]

/-- The conversion of a program crashes at no limit, but for numerals. -/
theorem programWithin_eq (n : ℕ) (t : Tree) : programWithin n t = of (Program.ofTreeWithin n t) := by
  rw [programWithin, Program.ofTreeWithin]
  by_cases hs : t.symbol = Symbol.program.name
  · rw [if_neg (not_not_intro hs), if_pos hs]
    obtain ⟨hsplit, hexpect⟩ | ⟨cs, hsplit, hexpect, -, hsymbols⟩ := expect_cases t [.stmtList]
    · rw [hsplit, hexpect]; rfl
    · obtain _ | ⟨-, _ | _⟩ := hsymbols
      simp [hsplit, hexpect, (stmt_eq n).2.2.2]
  · rw [if_pos hs, if_neg hs]
    rfl

end Raw
end Lookahead
