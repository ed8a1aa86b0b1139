import Lookahead.Proofs.Program.ComposeExpr

/-! The rules for statements and programs make sense, and with them all rules. -/
namespace Lookahead

open Script

theorem composes_option : Composes (.optExpr, [.expr]) := by
  rintro _ ⟨m, d, e, rfl, he, hm⟩
  refine ⟨_, ⟨_, _, some e, rfl, ?_, by simp [hm, Expr.optionContents]⟩, Expr.makes_option⟩
  rintro _ ⟨⟩
  exact he

theorem composes_noOption : Composes (.optExpr, []) :=
  composes_nil ⟨_, 1, none, rfl, by simp, rfl⟩ fun _ => Expr.gives_option_none

namespace Stmt

/-! ## Sequences of statements -/

theorem composes_stmt {s : Symbol} (h : ∀ p, Sense s p → Denotes s (Gives ofTree) WellFormed contents p) :
    Composes (.stmt, [s]) := by
  intro p hp
  obtain ⟨m, d, x, rfl, hx, hm⟩ := h p hp
  exact ⟨_, ⟨_, _, _, rfl, hx, by simp [hm]⟩, makes_stmt⟩

theorem denotes_of_isInit {s : Symbol} {p : Part}
    (h : Denotes s (Gives ofTree) (fun x => x.IsInit ∧ x.WellFormed) contents p) :
    Denotes s (Gives ofTree) WellFormed contents p := by
  obtain ⟨m, d, x, rfl, hx, hm⟩ := h
  exact ⟨m, d, x, rfl, hx.2, hm⟩

theorem composes_statements : Composes (.stmtList, [.stmt, .stmtList]) := by
  rintro _ ⟨m, d, x, rfl, hx, hm⟩ _ ⟨m', d', xs, rfl, hxs, hm'⟩
  refine ⟨_, ⟨_, _, _, rfl, List.forall_mem_cons.mpr ⟨hx, hxs⟩, ?_⟩, makes_statements⟩
  simp [hm, hm', contentsOf]

theorem composes_noStatements : Composes (.stmtList, []) :=
  composes_nil (Denotes.nil 0 rfl) fun _ => gives_statements_nil

theorem composes_block : Composes (.block, [.stmtList]) := by
  rintro _ ⟨m, d, xs, rfl, hxs, hm⟩
  exact ⟨_, ⟨_, _, _, rfl, hxs, by simp [hm]⟩, (makes_block (m := m)).of_imp fun _ => gives_list⟩

/-! ## Statements -/

theorem composes_let : Composes (.varDecl, [.letWord, .identifier, .varInit]) := by
  rintro _ rfl _ ⟨x, rfl⟩ _ ⟨m, d, value, rfl, hvalue, hm⟩
  have hlet : (varDecl false x value).WellFormed := .varDecl (fun h => nomatch h) hvalue
  exact ⟨_, ⟨_, _, varDecl false x value, rfl, ⟨trivial, hlet⟩, by simp [hm, contents]⟩, makes_let⟩

theorem composes_init : Composes (.varInit, [.equals, .expr, .semicolon]) := by
  rintro _ rfl _ ⟨m, d, e, rfl, he, hm⟩ _ rfl
  refine ⟨_, ⟨_, _, some e, rfl, ?_, by simp [hm, Expr.optionContents]⟩, makes_init⟩
  rintro _ ⟨⟩
  exact he

theorem composes_noInit : Composes (.varInit, [.semicolon]) := by
  rintro _ rfl
  exact ⟨_, ⟨_, _, none, rfl, by simp, by simp [Expr.optionContents]⟩, makes_noInit⟩

theorem composes_const : Composes (.varDecl, [.constWord, .identifier, .equals, .expr, .semicolon]) := by
  rintro _ rfl _ ⟨x, rfl⟩ _ rfl _ ⟨m, d, e, rfl, he, hm⟩ _ rfl
  have hconst : (varDecl true x (some e)).WellFormed := by
    refine .varDecl (fun _ => rfl) ?_
    rintro _ ⟨⟩
    exact he
  refine ⟨_, ⟨_, _, varDecl true x (some e), rfl, ⟨trivial, hconst⟩, ?_⟩, makes_const⟩
  simp [hm, contents, Expr.optionContents]

theorem composes_fnDecl : Composes (.fnDecl, fnShape) := by
  rintro _ rfl _ ⟨f, rfl⟩ _ rfl _ ⟨m, d, parameters, rfl, -, hm⟩ _ rfl _ rfl _ ⟨m', d', body, rfl, hbody, hm'⟩ _ rfl
  exact ⟨_, ⟨_, _, _, rfl, .fnDecl hbody, by simp [hm, hm', contents]⟩, makes_fnDecl⟩

theorem composes_params : Composes (.params, [.identifier, .paramTail]) := by
  rintro _ ⟨x, rfl⟩ _ ⟨m, d, xs, rfl, -, hm⟩
  exact ⟨_, ⟨_, _, x :: xs, rfl, trivial, by simp [hm]⟩, makes_params⟩

theorem composes_noParams : Composes (.params, []) :=
  composes_nil ⟨_, 0, [], rfl, trivial, rfl⟩ fun _ => gives_params_nil

theorem composes_paramTail : Composes (.paramTail, [.comma, .identifier, .paramTail]) := by
  rintro _ rfl _ ⟨x, rfl⟩ _ ⟨m, d, xs, rfl, -, hm⟩
  exact ⟨_, ⟨_, _, x :: xs, rfl, trivial, by simp [hm]⟩, makes_afterComma fun _ => gives_param⟩

theorem composes_noParamTail : Composes (.paramTail, []) :=
  composes_nil ⟨_, 0, [], rfl, trivial, rfl⟩ fun _ => gives_afterComma_nil _ _

theorem contents_ifElse (c : Expr) (body : List Stmt) (orElse : Option (List Stmt)) :
    (ifElse c body orElse).contents = c.contents ++ contentsOf body ++ contentsOf (orElse.getD []) := by
  cases orElse <;> simp [contents, contentsOf]

theorem composes_ifElse : Composes (.ifStmt, ifShape) := by
  rintro _ rfl _ rfl _ ⟨mc, dc, c, rfl, hc, hmc⟩ _ rfl _ rfl _ ⟨mb, db, body, rfl, hbody, hmb⟩ _ rfl
    _ ⟨me, de, orElse, rfl, helse, hme⟩
  exact ⟨_, ⟨_, _, _, rfl, .ifElse hc hbody helse, by simp [hmc, hmb, hme, contents_ifElse]⟩, makes_ifElse⟩

theorem composes_else : Composes (.elseClause, [.elseWord, .leftBrace, .block, .rightBrace]) := by
  rintro _ rfl _ rfl _ ⟨m, d, body, rfl, hbody, hm⟩ _ rfl
  refine ⟨_, ⟨_, _, some body, rfl, ?_, by simp [hm]⟩, makes_else⟩
  rintro _ ⟨⟩
  exact hbody

theorem composes_noElse : Composes (.elseClause, []) :=
  composes_nil ⟨_, 0, none, rfl, by simp, rfl⟩ fun _ => gives_else_none

theorem composes_while : Composes (.whileStmt, whileShape) := by
  rintro _ rfl _ rfl _ ⟨m, d, c, rfl, hc, hm⟩ _ rfl _ rfl _ ⟨m', d', body, rfl, hbody, hm'⟩ _ rfl
  exact ⟨_, ⟨_, _, _, rfl, .whileLoop hc hbody, by simp [hm, hm', contents]⟩, makes_while⟩

theorem contents_forLoop (init : Option Stmt) (c u : Option Expr) (body : List Stmt) :
    (forLoop init c u body).contents = contentsOf init.toList ++ Expr.optionContents c ++ Expr.optionContents u ++
      contentsOf body := by
  cases init <;> simp [contents, contentsOf]

theorem composes_for : Composes (.forStmt, forShape) := by
  rintro _ rfl _ rfl _ ⟨mi, di, init, rfl, hinit, hmi⟩ _ ⟨mc, dc, c, rfl, hc, hmc⟩ _ rfl _ ⟨mu, du, u, rfl, hu, hmu⟩
    _ rfl _ rfl _ ⟨mb, db, body, rfl, hbody, hmb⟩ _ rfl
  have hfor : (forLoop init c u body).WellFormed :=
    .forLoop (fun x hx => (hinit x hx).1) (fun x hx => (hinit x hx).2) hc hu hbody
  exact ⟨_, ⟨_, _, _, rfl, hfor, by simp [hmi, hmc, hmu, hmb, contents_forLoop]⟩, makes_for⟩

theorem composes_start {s : Symbol} (hs : s ∈ [Symbol.varDecl, .exprStmt]) : Composes (.forInit, [s]) := by
  intro p hp
  obtain ⟨m, d, x, rfl, hx, hm⟩ : Denotes s (Gives ofTree) (fun x => x.IsInit ∧ x.WellFormed) contents p := by
    rcases List.mem_pair.mp hs with rfl | rfl <;> exact hp
  refine ⟨_, ⟨_, _, some x, rfl, ?_, by simp [hm, contentsOf]⟩, makes_start hs⟩
  rintro _ ⟨⟩
  exact hx

theorem composes_noStart : Composes (.forInit, [.semicolon]) := by
  rintro _ rfl
  exact ⟨_, ⟨_, _, none, rfl, by simp, by simp [contentsOf]⟩, makes_noStart⟩

theorem composes_return : Composes (.returnStmt, [.returnWord, .optExpr, .semicolon]) := by
  rintro _ rfl _ ⟨m, d, value, rfl, hvalue, hm⟩ _ rfl
  exact ⟨_, ⟨_, _, _, rfl, .returning hvalue, by simp [hm, contents]⟩, makes_return⟩

theorem composes_break : Composes (.breakStmt, [.breakWord, .semicolon]) := by
  rintro _ rfl _ rfl
  exact ⟨_, ⟨_, _, _, rfl, .breaking, by simp [contents]⟩, makes_break⟩

theorem composes_continue : Composes (.continueStmt, [.continueWord, .semicolon]) := by
  rintro _ rfl _ rfl
  exact ⟨_, ⟨_, _, _, rfl, .continuing, by simp [contents]⟩, makes_continue⟩

theorem composes_expression : Composes (.exprStmt, [.expr, .semicolon]) := by
  rintro _ ⟨m, d, e, rfl, he, hm⟩ _ rfl
  exact ⟨_, ⟨_, _, expression e, rfl, ⟨trivial, .expression he⟩, by simp [hm, contents]⟩, makes_expression⟩

end Stmt

theorem Program.composes_program : Composes (.program, [.stmtList]) := by
  rintro _ ⟨m, d, body, rfl, hbody, hm⟩
  exact ⟨_, ⟨_, _, ⟨body⟩, rfl, hbody, by simp [hm, contents]⟩,
    (makes_program (m := m)).of_imp fun _ => Stmt.gives_list⟩

/-! ## All rules -/

open Lookahead.Expr Lookahead.Stmt in
theorem Script.composes_of_mem : ∀ r ∈ rules, Composes r := by
  simp only [rules, List.forall_mem_cons, List.not_mem_nil, IsEmpty.forall_iff, implies_true, and_true]
  exact ⟨Program.composes_program, composes_statements, composes_noStatements,
    composes_stmt fun _ => denotes_of_isInit, composes_stmt fun _ h => h, composes_stmt fun _ h => h,
    composes_stmt fun _ h => h, composes_stmt fun _ h => h, composes_stmt fun _ h => h, composes_stmt fun _ h => h,
    composes_stmt fun _ h => h, composes_stmt fun _ => denotes_of_isInit, composes_let, composes_const, composes_init,
    composes_noInit, composes_fnDecl, composes_params, composes_noParams, composes_paramTail, composes_noParamTail,
    composes_ifElse, composes_else, composes_noElse, composes_while, composes_for, composes_start (by decide),
    composes_start (by decide), composes_noStart, composes_option, composes_noOption, composes_return, composes_break,
    composes_continue, composes_expression, composes_block, composes_expr, composes_assignExpr, composes_assignTail,
    composes_empty (Or.inl rfl), composes_compExpr, composes_compTail, composes_empty (Or.inl rfl), composes_addExpr,
    composes_addTail, composes_empty (Or.inl rfl), composes_mulExpr, composes_mulTail, composes_empty (Or.inl rfl),
    composes_unary (by decide), composes_unary (by decide), composes_unaryExpr, composes_callExpr,
    Chain.composes_callTail, composes_empty (Or.inl rfl), composes_memberExpr, Chain.composes_named,
    Chain.composes_computed, composes_empty (Or.inl rfl), composes_identifier, composes_number, composes_string,
    composes_group, composes_literal (by decide), composes_literal (by decide), composes_args, composes_noArgs,
    composes_argsTail, composes_noArgsTail, composes_object, composes_propList, composes_noProps, composes_propTail,
    composes_noPropTail, composes_prop, composes_propValue, composes_empty (Or.inl rfl), composes_array,
    composes_elements, composes_noElements, composes_elementsTail, composes_noElementsTail⟩

end Lookahead
