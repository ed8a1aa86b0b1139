import Lookahead.Pipeline
import Lookahead.Proofs.Grammar.LL1
import Lookahead.Proofs.Parse.Predict
import Lookahead.Proofs.Script.Symbols
import Mathlib.Data.List.Infix
import Mathlib.Data.List.Pairwise

/-! The grammar of the script language is LL(1). Bounds for its FIRST and FOLLOW sets are written down and
checked against the rules one by one; they leave no lookahead to two rules of one nonterminal. -/
namespace Lookahead
namespace Script

/-! ## Bounds -/

namespace Symbol

def primaryFront : List Symbol := [identifier, number, string, leftParen, leftBrace, leftBracket]

def exprFront : List Symbol := [addOp, notOp] ++ primaryFront

def stmtFront : List Symbol :=
  [letWord, constWord, fnWord, ifWord, whileWord, forWord, returnWord, breakWord, continueWord] ++ exprFront

/-- The symbols that can derive the empty word. -/
def vanishing : List Symbol :=
  [program, stmtList, params, paramTail, elseClause, optExpr, block, assignTail, compTail, addTail, mulTail, callTail,
    memberTail, args, argsTail, propList, propTail, propValue, elements, elementsTail]

/-- The terminals that a symbol can start with. -/
def front : Symbol → List Symbol
  | program | stmtList | stmt | block => stmtFront
  | varDecl => [letWord, constWord]
  | varInit => [equals, semicolon]
  | fnDecl => [fnWord]
  | params | propList | prop => [identifier]
  | paramTail | argsTail | propTail | elementsTail => [comma]
  | ifStmt => [ifWord]
  | elseClause => [elseWord]
  | whileStmt => [whileWord]
  | forStmt => [forWord]
  | forInit => [letWord, constWord, semicolon] ++ exprFront
  | returnStmt => [returnWord]
  | breakStmt => [breakWord]
  | continueStmt => [continueWord]
  | optExpr | exprStmt | expr | assignExpr | compExpr | addExpr | mulExpr | unaryExpr | args | elements => exprFront
  | callExpr | memberExpr | primaryExpr => primaryFront
  | assignTail => [equals]
  | compTail => [compOp]
  | addTail => [addOp]
  | mulTail => [mulOp]
  | callTail => [leftParen]
  | memberTail => [dot, leftBracket]
  | objLiteral => [leftBrace]
  | propValue => [colon]
  | arrayLiteral => [leftBracket]
  | s => [s]

def afterExpr : List Symbol := [comma, semicolon, rightParen, rightBracket, rightBrace]

/-- The terminals that can come right after a nonterminal, where `none` is the end of the input. -/
def after : Symbol → List (Option Symbol)
  | program => [none]
  | stmtList => [none, rightBrace]
  | stmt | fnDecl | ifStmt | elseClause | whileStmt | forStmt | returnStmt | breakStmt | continueStmt =>
    [none, some rightBrace] ++ stmtFront.map some
  | varDecl | varInit | exprStmt => [none, some rightBrace, some semicolon] ++ stmtFront.map some
  | params | paramTail | args | argsTail => [rightParen]
  | forInit => [some semicolon] ++ exprFront.map some
  | optExpr => [rightParen, semicolon]
  | block | propList | propTail => [rightBrace]
  | elements | elementsTail => [rightBracket]
  | prop | propValue => [comma, rightBrace]
  | expr | assignExpr | assignTail => afterExpr.map some
  | compExpr | compTail => (equals :: afterExpr).map some
  | addExpr | addTail => (compOp :: equals :: afterExpr).map some
  | mulExpr | mulTail => (addOp :: compOp :: equals :: afterExpr).map some
  | unaryExpr | callExpr | callTail => (mulOp :: addOp :: compOp :: equals :: afterExpr).map some
  | memberExpr | memberTail => (leftParen :: mulOp :: addOp :: compOp :: equals :: afterExpr).map some
  | primaryExpr | objLiteral | arrayLiteral =>
    (dot :: leftBracket :: leftParen :: mulOp :: addOp :: compOp :: equals :: afterExpr).map some
  | _ => []

/-- The terminals that a word can start with. -/
def heads : List Symbol → List Symbol
  | [] => []
  | s :: l => s.front ++ if s ∈ vanishing then heads l else []

end Symbol

open Lookahead.Script.Symbol

/-- The lookaheads of a rule. -/
def lookaheads (r : Symbol × List Symbol) : List (Option Symbol) :=
  (heads r.2).map some ++ if r.2 ⊆ vanishing then r.1.after else []

/-! ## Rule by rule -/

theorem vanishing_closed : ∀ r ∈ rules, r.2 ⊆ vanishing → r.1 ∈ vanishing := by decide

theorem front_self : ∀ s ∈ terminals, s ∈ s.front := by decide

theorem heads_closed : ∀ r ∈ rules, heads r.2 ⊆ r.1.front := by decide

theorem after_closed : ∀ r ∈ rules, ∀ l ∈ r.2.tails, ∀ s ∈ l.head?, s ∈ nonterminals →
    lookaheads (r.1, l.tail) ⊆ s.after := by
  decide +kernel

theorem lookaheads_separate : rules.Pairwise fun r q => r.1 = q.1 → ∀ t ∈ lookaheads r, t ∉ lookaheads q := by
  decide +kernel

/-! ## The bounds hold -/

variable {s : Symbol} {l α β : List Symbol} {t x : String} {p : Production}

theorem vanishing_of_vanishes (h : grammar.Vanishes x) : ∃ s ∈ vanishing, s.name = x := by
  induction h with
  | @production p hp _ ih =>
    obtain ⟨r, hr, hlhs, hbody⟩ := exists_rule hp
    refine ⟨r.1, vanishing_closed r hr fun s hs => ?_, hlhs.symm⟩
    obtain ⟨s', hs', hname⟩ := ih s.name (hbody ▸ List.mem_map_of_mem hs)
    exact name_inj.mp hname ▸ hs'

theorem subset_vanishing (h : grammar.AllVanish (l.map name)) : l ⊆ vanishing := by
  intro s hs
  obtain ⟨s', hs', hname⟩ := vanishing_of_vanishes (h s.name (List.mem_map_of_mem hs))
  exact name_inj.mp hname ▸ hs'

theorem mem_heads {a : Symbol} (hα : α ⊆ vanishing) (ha : a ∈ s.front) : a ∈ heads (α ++ s :: β) := by
  induction α with
  | nil => exact List.mem_append_left _ ha
  | cons r α ih =>
    rw [List.cons_subset] at hα
    rw [List.cons_append, heads, if_pos hα.1]
    exact List.mem_append_right _ (ih hα.2)

theorem front_of_starts (h : grammar.Starts t x) : ∃ a s : Symbol, a ∈ s.front ∧ a.name = t ∧ s.name = x := by
  induction h with
  | terminal ht _ =>
    obtain ⟨s, hs, rfl⟩ := mem_terminals_iff.mp ht
    exact ⟨s, s, front_self s hs, rfl, rfl⟩
  | @production p α β x hp hb hα _ ih =>
    obtain ⟨r, hr, hlhs, hbody⟩ := exists_rule hp
    obtain ⟨a, s, ha, rfl, rfl⟩ := ih
    obtain ⟨α', l, hr₂, rfl, hl⟩ := List.map_eq_append_iff.mp (hbody.symm.trans hb)
    obtain ⟨s', β', rfl, hs', rfl⟩ := List.map_eq_cons_iff.mp hl
    rw [name_inj] at hs'
    subst hs'
    have hheads : a ∈ heads r.2 := hr₂ ▸ mem_heads (subset_vanishing hα) ha
    exact ⟨a, r.1, heads_closed r hr hheads, rfl, hlhs.symm⟩

theorem heads_of_heads (h : grammar.Heads t (l.map name)) : ∃ a ∈ heads l, a.name = t := by
  obtain ⟨α, x, β, hsplit, hα, hx⟩ := h
  obtain ⟨a, s, ha, rfl, rfl⟩ := front_of_starts hx
  obtain ⟨α', l, rfl, rfl, hl⟩ := List.map_eq_append_iff.mp hsplit
  obtain ⟨s', β', rfl, hs', rfl⟩ := List.map_eq_cons_iff.mp hl
  rw [name_inj] at hs'
  subst hs'
  exact ⟨a, mem_heads (subset_vanishing hα) ha, rfl⟩

/-- The name of a terminal, or the end marker. -/
def lookaheadName (a : Option Symbol) : String := a.elim endMarker name

theorem lookaheadName_injective : Function.Injective lookaheadName := by
  intro a b h
  match a, b, h with
  | none, none, _ => rfl
  | none, some b, h => exact absurd h.symm (name_ne_endMarker b)
  | some a, none, h => exact absurd h (name_ne_endMarker a)
  | some a, some b, h => exact congrArg some (name_injective h)

/-- What comes after a place in a right-hand side can follow the symbol at that place. -/
theorem mem_after_of_rule {r : Symbol × List Symbol} {a : Option Symbol} (hr : r ∈ rules) (hsplit : r.2 = α ++ s :: β)
    (hs : s ∈ nonterminals) (ha : a ∈ lookaheads (r.1, β)) : a ∈ s.after :=
  after_closed r hr (s :: β) ((List.mem_tails _ _).mpr ⟨α, hsplit.symm⟩) s rfl hs ha

theorem exists_split {α β : List String} (hp : p ∈ grammar.productions) (hrhs : p.rhs = α ++ x :: β)
    (hx : x ∈ grammar.nonterminals) : ∃ r ∈ rules, ∃ α' s β', r.2 = α' ++ s :: β' ∧ s ∈ nonterminals ∧
      p.lhs = r.1.name ∧ s.name = x ∧ β'.map name = β := by
  obtain ⟨r, hr, htext⟩ := exists_ruleText hp
  obtain ⟨s, hs, rfl⟩ := mem_nonterminals_iff.mp hx
  have hbody : p.body = p.rhs := by
    refine grammar_wellFormed.body_eq_rhs hp (decide_eq_false fun hε => ?_)
    have hmem : s.name ∈ p.rhs := hrhs ▸ List.mem_append_right α List.mem_cons_self
    rw [hε, List.mem_singleton] at hmem
    exact name_ne_epsilon s hmem
  rw [← hbody, body_of_ruleText htext] at hrhs
  obtain ⟨α', l, hr₂, -, hl⟩ := List.map_eq_append_iff.mp hrhs
  obtain ⟨s', β', rfl, hs', hβ⟩ := List.map_eq_cons_iff.mp hl
  rw [name_inj] at hs'
  subst hs'
  exact ⟨r, hr, α', s', β', hr₂, hs, (congrArg Prod.fst htext).symm, rfl, hβ⟩

theorem after_of_follows (h : grammar.Follows t x) :
    ∃ (a : Option Symbol) (s : Symbol), a ∈ s.after ∧ lookaheadName a = t ∧ s.name = x := by
  induction h with
  | finish ht => exact ⟨none, program, List.mem_singleton_self _, ht.symm, rfl⟩
  | next hp hrhs hx hβ =>
    obtain ⟨r, hr, α, s, β, hsplit, hs, -, rfl, rfl⟩ := exists_split hp hrhs hx
    obtain ⟨a, ha, rfl⟩ := heads_of_heads hβ
    have hmem : some a ∈ lookaheads (r.1, β) := List.mem_append_left _ (List.mem_map_of_mem ha)
    exact ⟨some a, s, mem_after_of_rule hr hsplit hs hmem, rfl, rfl⟩
  | inherit hp hrhs hx hβ _ ih =>
    obtain ⟨r, hr, α, s, β, hsplit, hs, hlhs, rfl, rfl⟩ := exists_split hp hrhs hx
    obtain ⟨a, r', ha, rfl, hr'⟩ := ih
    rw [hlhs, name_inj] at hr'
    subst hr'
    have hmem : a ∈ lookaheads (r.1, β) := by
      rw [lookaheads, if_pos (subset_vanishing hβ)]
      exact List.mem_append_right _ ha
    exact ⟨a, s, mem_after_of_rule hr hsplit hs hmem, rfl, rfl⟩

theorem mem_lookaheads_of_predicts {r : Symbol × List Symbol} (hlhs : p.lhs = r.1.name) (hbody : p.body = r.2.map name)
    (h : grammar.Predicts p t) : ∃ a ∈ lookaheads r, lookaheadName a = t := by
  rw [Grammar.Predicts, hlhs, hbody] at h
  rcases h with h | ⟨hvanish, h⟩
  · obtain ⟨a, ha, rfl⟩ := heads_of_heads h
    exact ⟨some a, List.mem_append_left _ (List.mem_map_of_mem ha), rfl⟩
  · obtain ⟨a, s, ha, rfl, hs⟩ := after_of_follows h
    rw [name_inj] at hs
    subst hs
    refine ⟨a, ?_, rfl⟩
    rw [lookaheads, if_pos (subset_vanishing hvanish)]
    exact List.mem_append_right _ ha

/-! ## The parser -/

theorem rule_unique {r q : Symbol × List Symbol} {a : Option Symbol} (hr : r ∈ rules) (hq : q ∈ rules) (hlhs : r.1 = q.1)
    (har : a ∈ lookaheads r) (haq : a ∈ lookaheads q) : r = q := by
  by_contra hne
  have hsymm : Std.Symm fun r q : Symbol × List Symbol => r.1 = q.1 → ∀ t ∈ lookaheads r, t ∉ lookaheads q :=
    ⟨fun r q h e t htq htr => h e.symm t htr htq⟩
  exact lookaheads_separate.forall hr hq hne hlhs a har haq

theorem grammar_unambiguous : ∀ p ∈ grammar.productions, ∀ q ∈ grammar.productions, p.lhs = q.lhs →
    ∀ t, grammar.Predicts p t → grammar.Predicts q t → p = q := by
  intro p hp q hq hlhs t hpt hqt
  obtain ⟨r, hr, hpr, hpb⟩ := exists_rule hp
  obtain ⟨r', hr', hqr, hqb⟩ := exists_rule hq
  obtain ⟨a, ha, rfl⟩ := mem_lookaheads_of_predicts hpr hpb hpt
  obtain ⟨b, hb, hab⟩ := mem_lookaheads_of_predicts hqr hqb hqt
  have hb : a ∈ lookaheads r' := lookaheadName_injective hab ▸ hb
  have heq : r = r' := rule_unique hr hr' (name_injective (hpr ▸ hqr ▸ hlhs)) ha hb
  exact production_unique hp hq hlhs (by rw [hpb, hqb, heq])

/-- The language has a parser, and it is one to which the theorems on valid parsers apply. -/
theorem parser_eq_ok : ∃ P, parser = .ok P ∧ P.Valid ∧ P.grammar = grammar ∧ P.terminalOf = terminalOf := by
  obtain ⟨a, ha, hc⟩ := Grammar.analyze_of_unambiguous grammar_wellFormed grammar_marksReserved.epsilonReserved
    grammar_unambiguous
  obtain ⟨b, hb, hparser⟩ := Parser.exists_valid (Grammar.defects_eq_nil.mpr grammar_wellFormed)
  obtain rfl : a = b := Except.ok.inj (ha.symm.trans hb)
  obtain ⟨-, hgrammar, hvalid⟩ := hparser hc terminalOf defaultOperator
  refine ⟨⟨a.table, terminalOf, defaultOperator⟩, ?_, hvalid, hgrammar, rfl⟩
  have hanalysis : analysis = .ok a := ha
  have hstrict : a.table.requireLL1 = .ok a.table := if_pos (List.isEmpty_iff.mpr hc)
  have htable : table = .ok a.table := by
    rw [table, hanalysis]
    exact congrArg (Except.mapError Failure.conflicts) hstrict
  rw [parser, htable]
  rfl

end Script
end Lookahead
