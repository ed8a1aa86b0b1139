import Lookahead.Proofs.Program.ReadExpr

/-! Every statement that the language can express is read back from its marks, and so is every block. The induction
is on what makes the statement well-formed. -/
namespace Lookahead

open Script

namespace Tree

theorem wrapped?_of_none {s : Symbol} {i : Option Int} {k : Option Token} {F : List Tree}
    (hs : s ∈ Symbol.nonterminals) (h : wrapperShape? s = none) : (node s.name i k F).wrapped? = none := by
  rw [wrapped?, symbol, Symbol.ofNonterminal?_name hs, Option.bind_some, h]

end Tree

/-! ## Expressions that may be absent -/

namespace Expr
variable {value : Option Expr} {e : Expr} {m : List Mark} {d : ℕ} {T : Tree}

theorem gives_option_none (hT : T.isLeaf = true) : Gives ofOptExpr 1 none T := by
  refine within_of_succ rfl fun n => ?_
  rw [ofOptExpr, ofOptional, if_pos hT]
  exact within_zero.symm

theorem makes_option : Makes (.optExpr, [.expr]) [.giving .expr m ofTree d e] (Gives ofOptExpr (d + 1) (some e)) := by
  rintro i F hF ⟨A, _, rfl, hA, rfl⟩
  refine within_of_succ rfl fun n => ?_
  rw [ofOptExpr, ofOptional, if_neg (by simp), Tree.split?_node hF]
  dsimp only
  rw [hA n, within_bind]
  rfl

abbrev optionPart (value : Option Expr) : Part :=
  .giving .optExpr (optionMarks value) ofOptExpr (optionDepth value + 1) value

theorem holds_option (h : ∀ e ∈ value, e.WellFormed) : (optionPart value).Holds := by
  cases value with
  | none => exact (Part.holds_empty (s := .optExpr) (by decide)).mono fun T hT => gives_option_none hT
  | some e =>
    refine yields_node (.optExpr, [.expr]) [e.part .expr e.marks] (by decide) rfl ?_ ?_ makes_option
    · simpa using (h e rfl).whole
    · simp [optionMarks]

end Expr

namespace Stmt
variable {s : Stmt} {ss body : List Stmt} {e : Expr} {m m' : List Mark} {d d' : ℕ} {T : Tree}

/-! ## Statements and blocks -/

def symbol : Stmt → Symbol
  | varDecl .. => .varDecl
  | fnDecl .. => .fnDecl
  | ifElse .. => .ifStmt
  | whileLoop .. => .whileStmt
  | forLoop .. => .forStmt
  | returning _ => .returnStmt
  | breaking => .breakStmt
  | continuing => .continueStmt
  | expression _ | bare _ => .exprStmt

def part (s : Stmt) : Part := .giving s.symbol s.marks ofTree (s.nesting + 2) s

@[simp] theorem marks_part (s : Stmt) : s.part.marks = s.marks := rfl

def partsAt (n : ℕ) : Parts := ⟨Expr.ofTree n, Expr.ofOptExpr n, ofTree n, ofBlock n⟩

theorem ofTree_of_node {s : Symbol} {i : Option Int} {F : List Tree} {d : ℕ} {x : Conversion Stmt}
    (hs : isStatement s = true) (h : ∀ n, ofNode (n + 1) s (.node s.name i none F) = within d n x) :
    ∀ n, ofTree n (.node s.name i none F) = within (d + 2) n x := by
  have hn : s ∈ Symbol.nonterminals := by cases s <;> first | decide | cases hs
  have hw : wrapperShape? s = none := by cases s <;> first | rfl | cases hs
  refine within_of_succ rfl fun n => ?_
  rw [ofTree, Tree.core_of_none (Tree.wrapped?_of_none hn hw), Tree.symbol, Symbol.ofNonterminal?_name hn]
  dsimp only
  rw [if_pos hs]
  exact within_of_succ (f := fun n => ofNode n s _) rfl h n

/-- No statement is a wrapper. -/
theorem makes_of_rule {x : Symbol} {l : List Symbol} {parts : List Part} (hx : isStatement x = true)
    (h : ∀ n i F, F.map Tree.symbol = l.map Symbol.name → Facts parts F →
      ofNode (n + 1) x (.node x.name i none F) = within d n (.ok s)) : Makes (x, l) parts (Gives ofTree (d + 2) s) :=
  fun i F hF hfacts => ofTree_of_node hx fun n => h n (some i) F hF hfacts

theorem makes_stmt {x : Symbol} : Makes (.stmt, [x]) [.giving x m ofTree d s] (Gives ofTree (d + 2) s) := by
  refine makes_of_rule rfl ?_
  rintro n i F hF ⟨A, _, rfl, hA, rfl⟩
  exact hA n

theorem holds_stmt (h : s.part.Holds) : (Part.giving .stmt s.marks ofTree (s.nesting + 4) s).Holds := by
  have hrule : (.stmt, [s.symbol]) ∈ rules := by
    have hall : ∀ x, isStatement x = true → x ≠ .stmt → (.stmt, [x]) ∈ rules := by intro x; cases x <;> decide
    exact hall s.symbol (by cases s <;> rfl) (by cases s <;> rintro ⟨⟩)
  refine yields_node (.stmt, [s.symbol]) [s.part] hrule rfl (List.forall_mem_singleton.mpr h) ?_ makes_stmt
  simp

def ofStatements (n : ℕ) (t : Tree) : Conversion (List Stmt) := t.statements.mapM (ofTree n)

theorem gives_statements_nil (hT : T.isLeaf = true) : Gives ofStatements 0 [] T := by
  intro n
  rw [ofStatements, Tree.statements_of_isLeaf hT]
  exact within_zero.symm

theorem makes_statements : Makes (.stmtList, [.stmt, .stmtList])
    [.giving .stmt m ofTree d s, .giving .stmtList m' ofStatements d' ss]
    (Gives ofStatements (max d d') (s :: ss)) := by
  rintro i F hF ⟨A, _, rfl, hA, R, _, rfl, hR, rfl⟩ n
  have hrest : R.statements.mapM (ofTree n) = _ := hR n
  rw [ofStatements, Tree.statements_node hF, Spine.mapM_push, hA n, hrest]
  simp [ok_bind]

theorem gives_list (hT : Gives ofStatements d ss T) : Gives ofList (d + 1) ss T := by
  refine within_of_succ rfl fun n => ?_
  rw [ofList]
  exact hT n

abbrev listPart (body : List Stmt) : Part := .giving .stmtList (marksOf body) ofList (depthOf body + 1) body

theorem holds_list (h : ∀ s ∈ body, s.part.Holds) : (listPart body).Holds := by
  have hitems : (Part.giving .stmtList (marksOf body) ofStatements (depthOf body) body).Holds := by
    induction body with
    | nil => exact (Part.holds_empty (s := .stmtList) (by decide)).mono fun T hT => gives_statements_nil hT
    | cons s body ih =>
      rw [List.forall_mem_cons] at h
      refine yields_node (.stmtList, [.stmt, .stmtList]) [.giving .stmt s.marks ofTree (s.nesting + 4) s, _]
        (by decide) rfl (List.forall_mem_cons.mpr ⟨holds_stmt h.1, List.forall_mem_singleton.mpr (ih h.2)⟩) ?_
        makes_statements
      simp [marksOf]
  exact hitems.mono fun T hT => gives_list hT

theorem makes_block : Makes (.block, [.stmtList]) [.giving .stmtList m ofList d body] (Gives ofBlock (d + 1) body) := by
  rintro i F hF ⟨A, _, rfl, hA, rfl⟩
  refine within_of_succ rfl fun n => ?_
  rw [ofBlock, Tree.split?_node hF]
  exact hA n

abbrev blockPart (body : List Stmt) : Part := .giving .block (marksOf body) ofBlock (depthOf body + 2) body

theorem holds_block (h : ∀ s ∈ body, s.part.Holds) : (blockPart body).Holds := by
  have hlist := List.forall_mem_singleton.mpr (holds_list h)
  refine yields_node (.block, [.stmtList]) [_] (by decide) rfl hlist ?_ makes_block
  simp

/-! ## Parts of statements -/

theorem makes_noInit : Makes (.varInit, [.semicolon]) [.fixed .semicolon]
    (Gives (fun n => ofInit (partsAt n)) 0 none) := by
  rintro i F hF ⟨b, _, rfl, -, rfl⟩ n
  change ofInit (partsAt n) _ = _
  rw [ofInit, Tree.split?_node_of_ne hF (by decide), Tree.hasShape_node hF]
  exact within_zero.symm

theorem makes_init : Makes (.varInit, [.equals, .expr, .semicolon])
    [.fixed .equals, .giving .expr m Expr.ofTree d e, .fixed .semicolon]
    (Gives (fun n => ofInit (partsAt n)) d (some e)) := by
  rintro i F hF ⟨b, _, rfl, -, E, _, rfl, hE, c, _, rfl, -, rfl⟩ n
  change ofInit (partsAt n) _ = _
  rw [ofInit, Tree.split?_node hF]
  dsimp only [partsAt]
  rw [hE n, within_bind]
  rfl

abbrev initPart (value : Option Expr) : Part :=
  .giving .varInit (Expr.initMarks value) (fun n => ofInit (partsAt n)) (Expr.optionDepth value) value

theorem holds_init {value : Option Expr} (h : ∀ e ∈ value, e.WellFormed) : (initPart value).Holds := by
  cases value with
  | none =>
    refine yields_node (.varInit, [.semicolon]) [.fixed .semicolon] (by decide) rfl ?_ rfl makes_noInit
    simp +decide
  | some e =>
    refine yields_node (.varInit, [.equals, .expr, .semicolon])
      [.fixed .equals, e.part .expr e.marks, .fixed .semicolon] (by decide) rfl ?_ rfl makes_init
    simp +decide [(h e rfl).whole]

theorem gives_param {x : String} (hT : T.lexeme = .ok x) : Gives (fun _ => Tree.lexeme) 0 x T :=
  fun _ => hT.trans within_zero.symm

theorem holds_param (x : String) : (Part.giving .identifier [.name x] (fun _ => Tree.lexeme) 0 x).Holds :=
  (Part.holds_named x).mono fun _ hT => gives_param hT

theorem gives_params_nil (hT : T.isLeaf = true) : Gives (fun _ => ofParams) 0 [] T := by
  intro n
  dsimp only
  rw [ofParams, if_pos hT, within_zero]

theorem makes_params {x : String} {xs : List String} : Makes (.params, [.identifier, .paramTail])
    [.named x, .giving .paramTail m (fun _ T => (T.afterComma .identifier .paramTail).mapM Tree.lexeme) d xs]
    (Gives (fun _ => ofParams) d (x :: xs)) := by
  rintro i F hF ⟨A, _, rfl, hA, R, _, rfl, hR, rfl⟩ n
  have hlexeme : A.lexeme = .ok x := hA
  have hitems : (R.afterComma .identifier .paramTail).mapM Tree.lexeme = _ := hR n
  change ofParams _ = _
  rw [ofParams, if_neg (by simp), Tree.split?_node hF]
  dsimp only
  rw [hlexeme, hitems]
  simp [ok_bind]

abbrev paramsPart (parameters : List String) : Part :=
  .giving .params (Mark.separated (parameters.map fun x => [.name x])) (fun _ => ofParams) 0 parameters

theorem holds_params (parameters : List String) : (paramsPart parameters).Holds := by
  cases parameters with
  | nil => exact (Part.holds_empty (s := .params) (by decide)).mono fun T hT => gives_params_nil hT
  | cons x xs =>
    have hrest := holds_afterComma .identifier .paramTail id (by decide) (by decide) fun y (_ : y ∈ xs) => holds_param y
    rw [List.map_id, deepest_zero] at hrest
    refine yields_node (.params, [.identifier, .paramTail]) [.named x, _] (by decide) rfl
      (List.forall_mem_cons.mpr ⟨Part.holds_named x, List.forall_mem_singleton.mpr hrest⟩) ?_ makes_params
    simp [Mark.separated, List.flatMap_map]

/-- What comes after the first block of a conditional. -/
def elseMarks : Option (List Stmt) → List Mark
  | none => []
  | some body => .fixed .elseWord :: Mark.braces (marksOf body)

def elseDepth : Option (List Stmt) → ℕ
  | none => 0
  | some body => depthOf body + 2

theorem gives_else_none (hT : T.isLeaf = true) : Gives (fun n => ofElse (partsAt n)) 0 none T := by
  intro n
  dsimp only
  rw [ofElse, if_pos hT]
  exact within_zero.symm

theorem makes_else : Makes (.elseClause, [.elseWord, .leftBrace, .block, .rightBrace])
    [.fixed .elseWord, .fixed .leftBrace, .giving .block m ofBlock d body, .fixed .rightBrace]
    (Gives (fun n => ofElse (partsAt n)) d (some body)) := by
  rintro i F hF ⟨w, _, rfl, -, b, _, rfl, -, B, _, rfl, hB, b', _, rfl, -, rfl⟩ n
  change ofElse (partsAt n) _ = _
  rw [ofElse, if_neg (by simp), Tree.split?_node hF]
  dsimp only [partsAt]
  rw [hB n, within_bind]
  rfl

abbrev elsePart (orElse : Option (List Stmt)) : Part :=
  .giving .elseClause (elseMarks orElse) (fun n => ofElse (partsAt n)) (elseDepth orElse) orElse

theorem holds_else {orElse : Option (List Stmt)} (h : ∀ body ∈ orElse, ∀ s ∈ body, s.part.Holds) :
    (elsePart orElse).Holds := by
  cases orElse with
  | none => exact (Part.holds_empty (s := .elseClause) (by decide)).mono fun T hT => gives_else_none hT
  | some body =>
    refine yields_node (.elseClause, [.elseWord, .leftBrace, .block, .rightBrace])
      [.fixed .elseWord, .fixed .leftBrace, blockPart body, .fixed .rightBrace] (by decide) rfl ?_ rfl makes_else
    simp +decide [holds_block (h body rfl)]

/-- What a loop starts with, up to the condition. -/
def startMarks : Option Stmt → List Mark
  | none => [.fixed .semicolon]
  | some s => s.marks

def startDepth : Option Stmt → ℕ
  | none => 0
  | some s => s.nesting + 2

theorem makes_noStart : Makes (.forInit, [.semicolon]) [.fixed .semicolon]
    (Gives (fun n => ofForInit (partsAt n)) 0 none) := by
  rintro i F hF ⟨b, _, rfl, -, rfl⟩ n
  change ofForInit (partsAt n) _ = _
  rw [ofForInit, Tree.children]
  dsimp only
  rw [if_pos (List.cons.inj hF).1]
  exact within_zero.symm

theorem makes_start {x : Symbol} (hx : x ∈ [Symbol.varDecl, .exprStmt]) :
    Makes (.forInit, [x]) [.giving x m ofTree d s] (Gives (fun n => ofForInit (partsAt n)) d (some s)) := by
  have hnone : x.name ≠ Symbol.semicolon.name := by
    rcases List.mem_pair.mp hx with rfl | rfl <;> decide
  have hsome : x.name = Symbol.varDecl.name ∨ x.name = Symbol.exprStmt.name :=
    (List.mem_pair.mp hx).imp (congrArg Symbol.name) (congrArg Symbol.name)
  rintro i F hF ⟨A, _, rfl, hA, rfl⟩ n
  have hname : A.symbol = x.name := (List.cons.inj hF).1
  change ofForInit (partsAt n) _ = _
  rw [ofForInit, Tree.children]
  dsimp only [partsAt]
  rw [hname, hA n, within_bind, if_neg hnone, if_pos hsome]
  rfl

abbrev startPart (init : Option Stmt) : Part :=
  .giving .forInit (startMarks init) (fun n => ofForInit (partsAt n)) (startDepth init) init

theorem holds_start {init : Option Stmt} (hi : ∀ s ∈ init, s.IsInit) (h : ∀ s ∈ init, s.part.Holds) :
    (startPart init).Holds := by
  cases init with
  | none =>
    refine yields_node (.forInit, [.semicolon]) [.fixed .semicolon] (by decide) rfl ?_ rfl makes_noStart
    simp +decide
  | some s =>
    have hsymbol : s.symbol ∈ [Symbol.varDecl, .exprStmt] := by
      cases s <;> first | exact absurd (hi _ rfl) not_false | simp [symbol]
    have hrule : (.forInit, [s.symbol]) ∈ rules := by
      rcases List.mem_pair.mp hsymbol with hs | hs <;> rw [hs] <;> decide
    refine yields_node (.forInit, [s.symbol]) [s.part] hrule rfl (List.forall_mem_singleton.mpr (h s rfl)) ?_
      (makes_start hsymbol)
    simp [startMarks]

/-! ## All statements -/

theorem makes_let {x : String} {value : Option Expr} : Makes (.varDecl, [.letWord, .identifier, .varInit])
    [.fixed .letWord, .named x, .giving .varInit m (fun n => ofInit (partsAt n)) d value]
    (Gives ofTree (d + 2) (varDecl false x value)) := by
  refine makes_of_rule rfl ?_
  rintro n i F hF ⟨w, _, rfl, -, X, _, rfl, hX, I, _, rfl, hI, rfl⟩
  have hlexeme : X.lexeme = .ok x := hX
  have hinit : ofInit (partsAt n) I = _ := hI n
  change ofVarDecl (partsAt n) _ = _
  rw [ofVarDecl, Tree.split?_node hF]
  dsimp only
  rw [hinit, hlexeme, within_bind]
  rfl

theorem makes_const {x : String} : Makes (.varDecl, [.constWord, .identifier, .equals, .expr, .semicolon])
    [.fixed .constWord, .named x, .fixed .equals, .giving .expr m Expr.ofTree d e, .fixed .semicolon]
    (Gives ofTree (d + 2) (varDecl true x (some e))) := by
  refine makes_of_rule rfl ?_
  rintro n i F hF ⟨w, _, rfl, -, X, _, rfl, hX, q, _, rfl, -, E, _, rfl, hE, c, _, rfl, -, rfl⟩
  have hlexeme : X.lexeme = .ok x := hX
  change ofVarDecl (partsAt n) _ = _
  rw [ofVarDecl, Tree.split?_node_of_ne hF (by decide), Tree.split?_node hF]
  dsimp only [partsAt]
  rw [hE n, hlexeme, ok_bind, within_bind]
  rfl

theorem makes_fnDecl {f : String} {parameters : List String} : Makes (.fnDecl, fnShape)
    [.fixed .fnWord, .named f, .fixed .leftParen, .giving .params m (fun _ => ofParams) d parameters,
      .fixed .rightParen, .fixed .leftBrace, .giving .block m' ofBlock d' body, .fixed .rightBrace]
    (Gives ofTree (max d d' + 2) (fnDecl f parameters body)) := by
  refine makes_of_rule rfl ?_
  rintro n i F hF ⟨w, _, rfl, -, X, _, rfl, hX, a, _, rfl, -, P, _, rfl, hP, b, _, rfl, -, c, _, rfl, -, B, _, rfl, hB,
    d, _, rfl, -, rfl⟩
  have hlexeme : X.lexeme = .ok f := hX
  have hparams : ofParams P = _ := hP n
  change ofFnDecl (partsAt n) _ = _
  rw [ofFnDecl, Tree.split?_node hF]
  dsimp only [partsAt]
  rw [hparams, within_bind, ok_bind, hlexeme, ok_bind, hB n, within_bind, ← within_within]
  rfl

theorem makes_ifElse {c : Expr} {orElse : Option (List Stmt)} {mc mb me : List Mark} {dc db de : ℕ} :
    Makes (.ifStmt, ifShape)
      [.fixed .ifWord, .fixed .leftParen, .giving .expr mc Expr.ofTree dc c, .fixed .rightParen, .fixed .leftBrace,
        .giving .block mb ofBlock db body, .fixed .rightBrace,
        .giving .elseClause me (fun n => ofElse (partsAt n)) de orElse]
      (Gives ofTree (max de (max dc db) + 2) (ifElse c body orElse)) := by
  refine makes_of_rule rfl ?_
  rintro n i F hF ⟨w, _, rfl, -, a, _, rfl, -, C, _, rfl, hC, b, _, rfl, -, d, _, rfl, -, B, _, rfl, hB, e, _, rfl, -,
    E, _, rfl, hE, rfl⟩
  have hclause : ofElse (partsAt n) E = _ := hE n
  change ofIf (partsAt n) _ = _
  rw [ofIf, Tree.split?_node hF]
  dsimp only
  rw [hclause, within_bind, ok_bind]
  dsimp only [partsAt]
  rw [hC n, within_bind, ok_bind, hB n, within_bind, ok_bind, ← within_within, ← within_within]
  rfl

theorem makes_while {c : Expr} {mc mb : List Mark} {dc db : ℕ} : Makes (.whileStmt, whileShape)
    [.fixed .whileWord, .fixed .leftParen, .giving .expr mc Expr.ofTree dc c, .fixed .rightParen, .fixed .leftBrace,
      .giving .block mb ofBlock db body, .fixed .rightBrace] (Gives ofTree (max dc db + 2) (whileLoop c body)) := by
  refine makes_of_rule rfl ?_
  rintro n i F hF ⟨w, _, rfl, -, a, _, rfl, -, C, _, rfl, hC, b, _, rfl, -, d, _, rfl, -, B, _, rfl, hB, e, _, rfl, -,
    rfl⟩
  change ofWhile (partsAt n) _ = _
  rw [ofWhile, Tree.split?_node hF]
  dsimp only [partsAt]
  rw [hC n, within_bind, ok_bind, hB n, within_bind, ok_bind, ← within_within]
  rfl

theorem makes_for {init : Option Stmt} {c u : Option Expr} {mi mc mu mb : List Mark} {di dc du db : ℕ} :
    Makes (.forStmt, forShape)
      [.fixed .forWord, .fixed .leftParen, .giving .forInit mi (fun n => ofForInit (partsAt n)) di init,
        .giving .optExpr mc Expr.ofOptExpr dc c, .fixed .semicolon, .giving .optExpr mu Expr.ofOptExpr du u,
        .fixed .rightParen, .fixed .leftBrace, .giving .block mb ofBlock db body, .fixed .rightBrace]
      (Gives ofTree (max di (max dc (max du db)) + 2) (forLoop init c u body)) := by
  refine makes_of_rule rfl ?_
  rintro n i F hF ⟨w, _, rfl, -, a, _, rfl, -, I, _, rfl, hI, C, _, rfl, hC, s, _, rfl, -, U, _, rfl, hU, b, _, rfl, -,
    d, _, rfl, -, B, _, rfl, hB, e, _, rfl, -, rfl⟩
  have hstart : ofForInit (partsAt n) I = _ := hI n
  change ofFor (partsAt n) _ = _
  rw [ofFor, Tree.split?_node hF]
  dsimp only
  rw [hstart, within_bind, ok_bind]
  dsimp only [partsAt]
  rw [hC n, within_bind, ok_bind, hU n, within_bind, ok_bind, hB n, within_bind, ok_bind, ← within_within,
    ← within_within, ← within_within]
  rfl

theorem makes_return {value : Option Expr} : Makes (.returnStmt, [.returnWord, .optExpr, .semicolon])
    [.fixed .returnWord, .giving .optExpr m Expr.ofOptExpr d value, .fixed .semicolon]
    (Gives ofTree (d + 2) (returning value)) := by
  refine makes_of_rule rfl ?_
  rintro n i F hF ⟨w, _, rfl, -, V, _, rfl, hV, c, _, rfl, -, rfl⟩
  change ofReturn (partsAt n) _ = _
  rw [ofReturn, Tree.split?_node hF]
  dsimp only [partsAt]
  rw [hV n, within_bind]
  rfl

theorem makes_break : Makes (.breakStmt, [.breakWord, .semicolon]) [.fixed .breakWord, .fixed .semicolon]
    (Gives ofTree 2 breaking) := by
  refine makes_of_rule (d := 0) rfl ?_
  rintro n i F hF -
  change ofBreak _ = _
  rw [ofBreak, Tree.hasShape_node hF, within_zero]
  rfl

theorem makes_continue : Makes (.continueStmt, [.continueWord, .semicolon]) [.fixed .continueWord, .fixed .semicolon]
    (Gives ofTree 2 continuing) := by
  refine makes_of_rule (d := 0) rfl ?_
  rintro n i F hF -
  change ofContinue _ = _
  rw [ofContinue, Tree.hasShape_node hF, within_zero]
  rfl

theorem makes_expression : Makes (.exprStmt, [.expr, .semicolon])
    [.giving .expr m Expr.ofTree d e, .fixed .semicolon] (Gives ofTree (d + 2) (expression e)) := by
  refine makes_of_rule rfl ?_
  rintro n i F hF ⟨E, _, rfl, hE, c, _, rfl, -, rfl⟩
  change ofExprStmt (partsAt n) _ = _
  rw [ofExprStmt, Tree.split?_node hF]
  dsimp only [partsAt]
  rw [hE n, within_bind]
  rfl

/-! ## Statements in writing -/

theorem holds_of_rule (r : Symbol × List Symbol) (parts : List Part) (hs : s.symbol = r.1) (hr : r ∈ rules)
    (hl : parts.map Part.symbol = r.2) (hparts : ∀ p ∈ parts, p.Holds) (hm : parts.flatMap Part.marks = s.marks)
    (h : Makes r parts (Gives ofTree (s.nesting + 2) s)) : s.part.Holds := by
  have hyields : Yields r.1 s.marks s.part.fact := yields_node r parts hr hl hparts hm h
  rwa [← hs] at hyields

theorem marks_ifElse (c : Expr) (body : List Stmt) (orElse : Option (List Stmt)) : (ifElse c body orElse).marks =
    .fixed .ifWord :: (Mark.parens c.marks ++ Mark.braces (marksOf body) ++ elseMarks orElse) := by
  cases orElse <;> simp [marks, elseMarks]

theorem nesting_ifElse (c : Expr) (body : List Stmt) (orElse : Option (List Stmt)) :
    (ifElse c body orElse).nesting = max (elseDepth orElse) (max c.depth (depthOf body + 2)) := by
  cases orElse <;> simp [nesting, elseDepth]

theorem marks_forLoop (init : Option Stmt) (c u : Option Expr) (body : List Stmt) : (forLoop init c u body).marks =
    .fixed .forWord :: (Mark.parens (startMarks init ++ (Expr.optionMarks c ++ .fixed .semicolon ::
      Expr.optionMarks u)) ++ Mark.braces (marksOf body)) := by
  cases init <;> simp [marks, startMarks]

theorem nesting_forLoop (init : Option Stmt) (c u : Option Expr) (body : List Stmt) : (forLoop init c u body).nesting =
    max (startDepth init) (max (Expr.optionDepth c + 1) (max (Expr.optionDepth u + 1) (depthOf body + 2))) := by
  cases init <;> simp [nesting, startDepth]

theorem holds_let {x : String} {value : Option Expr} (h : ∀ e ∈ value, e.WellFormed) :
    (varDecl false x value).part.Holds := by
  refine holds_of_rule (.varDecl, [.letWord, .identifier, .varInit]) [.fixed .letWord, .named x, _] rfl (by decide) rfl
    (List.forall_mem_cons.mpr ⟨Part.holds_fixed rfl, List.forall_mem_cons.mpr ⟨Part.holds_named x,
      List.forall_mem_singleton.mpr (holds_init h)⟩⟩) ?_ ?_
  · simp [Symbol.kind?, marks]
  · rw [nesting]
    exact makes_let

theorem holds_const {x : String} {e : Expr} (h : e.WellFormed) : (varDecl true x (some e)).part.Holds := by
  refine holds_of_rule (.varDecl, [.constWord, .identifier, .equals, .expr, .semicolon])
    [.fixed .constWord, .named x, .fixed .equals, e.part .expr e.marks, .fixed .semicolon] rfl (by decide) rfl ?_ ?_ ?_
  · simp +decide [h.whole]
  · simp [Symbol.kind?, marks, Expr.initMarks]
  · rw [nesting]
    exact makes_const

theorem holds_fnDecl {f : String} {parameters : List String} (h : ∀ s ∈ body, s.part.Holds) :
    (fnDecl f parameters body).part.Holds := by
  refine holds_of_rule (.fnDecl, fnShape) [.fixed .fnWord, .named f, .fixed .leftParen,
    paramsPart parameters, .fixed .rightParen, .fixed .leftBrace, blockPart body, .fixed .rightBrace]
    rfl (by decide) rfl ?_ ?_ ?_
  · simp +decide [holds_params, holds_block h]
  · simp [Symbol.kind?, marks, Mark.parens, Mark.braces]
  · rw [nesting, ← Nat.zero_max (depthOf body + 2)]
    exact makes_fnDecl

theorem holds_ifElse {c : Expr} {orElse : Option (List Stmt)} (hc : c.WellFormed) (h : ∀ s ∈ body, s.part.Holds)
    (helse : ∀ body ∈ orElse, ∀ s ∈ body, s.part.Holds) : (ifElse c body orElse).part.Holds := by
  refine holds_of_rule (.ifStmt, ifShape) [.fixed .ifWord, .fixed .leftParen, c.part .expr c.marks, .fixed .rightParen,
    .fixed .leftBrace, blockPart body, .fixed .rightBrace, elsePart orElse] rfl (by decide) rfl ?_ ?_ ?_
  · simp +decide [hc.whole, holds_block h, holds_else helse]
  · simp [Symbol.kind?, marks_ifElse, Mark.parens, Mark.braces]
  · rw [nesting_ifElse]
    exact makes_ifElse

theorem holds_while {c : Expr} (hc : c.WellFormed) (h : ∀ s ∈ body, s.part.Holds) :
    (whileLoop c body).part.Holds := by
  refine holds_of_rule (.whileStmt, whileShape) [.fixed .whileWord, .fixed .leftParen, c.part .expr c.marks,
    .fixed .rightParen, .fixed .leftBrace, blockPart body, .fixed .rightBrace] rfl (by decide) rfl ?_ ?_ ?_
  · simp +decide [hc.whole, holds_block h]
  · simp [Symbol.kind?, marks, Mark.parens, Mark.braces]
  · rw [nesting]
    exact makes_while

theorem holds_for {init : Option Stmt} {c u : Option Expr} (hinit : (startPart init).Holds) (hc : ∀ e ∈ c, e.WellFormed)
    (hu : ∀ e ∈ u, e.WellFormed) (h : ∀ s ∈ body, s.part.Holds) : (forLoop init c u body).part.Holds := by
  refine holds_of_rule (.forStmt, forShape) [.fixed .forWord, .fixed .leftParen, startPart init, Expr.optionPart c,
    .fixed .semicolon, Expr.optionPart u, .fixed .rightParen, .fixed .leftBrace, blockPart body, .fixed .rightBrace]
    rfl (by decide) rfl ?_ ?_ ?_
  · simp +decide [hinit, Expr.holds_option hc, Expr.holds_option hu, holds_block h]
  · simp [Symbol.kind?, marks_forLoop, Mark.parens, Mark.braces]
  · rw [nesting_forLoop]
    exact makes_for

theorem holds_return {value : Option Expr} (h : ∀ e ∈ value, e.WellFormed) : (returning value).part.Holds := by
  refine holds_of_rule (.returnStmt, [.returnWord, .optExpr, .semicolon]) [.fixed .returnWord,
    Expr.optionPart value, .fixed .semicolon]
    rfl (by decide) rfl ?_ ?_ ?_
  · simp +decide [Expr.holds_option h]
  · simp [Symbol.kind?, marks]
  · rw [nesting]
    exact makes_return

theorem holds_break : breaking.part.Holds := by
  refine holds_of_rule (.breakStmt, [.breakWord, .semicolon]) [.fixed .breakWord, .fixed .semicolon]
    rfl (by decide) rfl ?_ ?_ ?_
  · simp +decide
  · simp [Symbol.kind?, marks]
  · rw [nesting]
    exact makes_break

theorem holds_continue : continuing.part.Holds := by
  refine holds_of_rule (.continueStmt, [.continueWord, .semicolon]) [.fixed .continueWord, .fixed .semicolon]
    rfl (by decide) rfl ?_ ?_ ?_
  · simp +decide
  · simp [Symbol.kind?, marks]
  · rw [nesting]
    exact makes_continue

theorem holds_expression {e : Expr} (h : e.WellFormed) : (expression e).part.Holds := by
  refine holds_of_rule (.exprStmt, [.expr, .semicolon]) [e.part .expr e.marks, .fixed .semicolon]
    rfl (by decide) rfl ?_ ?_ ?_
  · simp +decide [h.whole]
  · simp [Symbol.kind?, marks]
  · rw [nesting]
    exact makes_expression

theorem WellFormed.holds {s : Stmt} (h : s.WellFormed) : s.part.Holds := by
  induction h with
  | @varDecl constant x value hconst hvalue =>
    cases constant with
    | false => exact holds_let hvalue
    | true =>
      obtain ⟨e, rfl⟩ := Option.isSome_iff_exists.mp (hconst rfl)
      exact holds_const (hvalue e rfl)
  | fnDecl _ ih => exact holds_fnDecl ih
  | ifElse hc _ _ ih ihelse => exact holds_ifElse hc ih ihelse
  | whileLoop hc _ ih => exact holds_while hc ih
  -- The statement that a loop starts with is read by the same induction.
  | forLoop hinit _ hc hu _ ihinit ih => exact holds_for (holds_start hinit ihinit) hc hu ih
  | returning h => exact holds_return h
  | breaking => exact holds_break
  | continuing => exact holds_continue
  | expression h => exact holds_expression h

end Stmt

theorem Program.makes_program {body : List Stmt} {m : List Mark} {d : ℕ} : Makes (.program, [.stmtList])
    [.giving .stmtList m Stmt.ofList d body] (Gives ofTreeWithin d ⟨body⟩) := by
  rintro i F hF ⟨L, _, rfl, hL, rfl⟩ n
  rw [ofTreeWithin, if_pos (by rfl), Tree.split?_node hF]
  dsimp only
  rw [hL n, within_bind]
  rfl

end Lookahead
