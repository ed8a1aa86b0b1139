import Lookahead.Proofs.Program.RawStmt
import Lookahead.Proofs.Program.SettleStmt

/-! The verdict on a tree. It converts, with enough conversions allowed, if and only if it is rooted in a program and
all that is in reach fits; otherwise it is refused for a node in reach that does not. -/
namespace Lookahead

open Script

namespace Tree
variable {t u : Tree}

/-- The children are those of a rule for the symbol. -/
def FollowsRule (t : Tree) : Prop := ∃ r ∈ rules, t.symbol = r.1.name ∧ t.shape = r.2.map Symbol.name

/-- The two shapes that convert beside those of the rules: a statement over anything that has a conversion, and an
operator of any symbol. -/
def Loose (t : Tree) : Prop :=
  (t.symbol = Symbol.stmt.name ∧ ∃ r ∈ converted, t.shape = [r.name]) ∨
    ∃ (s r : Symbol) (o : String), s.operand? = some r ∧ t.symbol = s.name ∧ t.shape = [o, r.name]

theorem Fits.followsRule_or_loose (h : t.Fits) : t.FollowsRule ∨ t.Loose := by
  cases h with
  | rule hs hl hshape => exact Or.inl ⟨_, mem_rules_of_plain hl, hs, hshape⟩
  | group hs hshape => exact Or.inl ⟨(.primaryExpr, groupShape), by decide, hs, hshape⟩
  | @operation s r o a hs hr hchildren ha =>
    refine Or.inr (.inr ⟨s, r, o.symbol, hr, hs, ?_⟩)
    rw [shape, hchildren, List.map_cons, List.map_singleton, ha]
  | @statement r a hs hr hchildren ha =>
    refine Or.inr (.inl ⟨hs, r, hr, ?_⟩)
    rw [shape, hchildren, List.map_singleton, ha]

/-- A number leaf has no token, or one with a value, or one whose lexeme can be read. -/
def Numeric (t : Tree) : Prop :=
  t.symbol = Symbol.number.name → ∀ k ∈ t.token, k.value ≠ none ∨ Numeral.read? k.lexeme ≠ none

theorem Numeric.exists_numberValue {k : Token} (h : t.Numeric) (hs : t.symbol = Symbol.number.name)
    (hk : t.token = some k) : ∃ v, Expr.numberValue k = .ok v := by
  unfold Expr.numberValue
  cases hvalue : k.value with
  | some v => exact ⟨v, rfl⟩
  | none =>
    cases hread : Numeral.read? k.lexeme with
    | some x => exact ⟨.number x, rfl⟩
    | none => exact ((h hs k hk).elim (fun hne => hne hvalue) fun hne => hne hread).elim

theorem Charges.exists_fault {f : ConversionFailure} (h : u.Charges f) (hn : ∀ c ∈ u.children, c.Numeric) :
    ∃ g, f = .fault g ∧ g ≠ .tooDeep := by
  cases h with
  | malformed => exact ⟨_, rfl, TreeFault.noConfusion⟩
  | unexpected => exact ⟨_, rfl, TreeFault.noConfusion⟩
  | tokenMissing => exact ⟨_, rfl, TreeFault.noConfusion⟩
  | noConversion => exact ⟨_, rfl, TreeFault.noConfusion⟩
  | @unreadable c k x hc hs hk hvalue =>
    obtain ⟨v, hv⟩ := (hn c hc).exists_numberValue hs hk
    rw [hvalue] at hv
    cases hv

theorem Blames.exists_fault {f : ConversionFailure} (h : t.Blames f) (hn : ∀ u ∈ t.subtrees, u.Numeric) :
    ∃ g, f = .fault g ∧ g ≠ .tooDeep := by
  obtain ⟨u, hu, -, hcharge⟩ := h
  exact hcharge.exists_fault fun c hc => hn c (hu.mem_subtrees (child_mem_subtrees hc))

end Tree

namespace Program
variable {T : Tree} {limit : ℕ} {p : Program}

open Lookahead.Tree

/-- What is wrong with a tree that is refused. -/
def Refuses (T : Tree) (f : ConversionFailure) : Prop :=
  (T.symbol ≠ Symbol.program.name ∧ f = .fault (.notProgram T.symbol)) ∨ T.Blames f

theorem settles_ofTreeWithin (T : Tree) :
    Settles (T.symbol = Symbol.program.name ∧ T.Sound) (Refuses T) fun n => ofTreeWithin n T := by
  by_cases hs : T.symbol = Symbol.program.name
  · simp only [ofTreeWithin, if_pos hs]
    refine (settles_of_rule [.stmtList] hs (by decide) (fun h _ => ?_) fun cs hsplit v => ?_).mono
      (fun hsound => ⟨hs, hsound⟩) fun f hf => Or.inr hf
    · rw [h]
    · obtain _ | ⟨-, _ | _⟩ := v.symbols
      simp only [hsplit]
      have hlist := v.settles_node 0 rfl rfl rfl (Stmt.settles_ofList (v.symbol_at 0 rfl rfl))
      exact hlist.bind fun hlist body => .ok (v.sound (.cons hlist .nil)) _
  · simp only [ofTreeWithin, if_neg hs]
    exact .error (Or.inl ⟨hs, rfl⟩)

theorem Refuses.not_sound {f : ConversionFailure} (h : Refuses T f) : ¬ (T.symbol = Symbol.program.name ∧ T.Sound) := by
  intro hT
  cases h with
  | inl h => exact h.1 hT.1
  | inr h => exact h.not_sound hT.2

theorem exists_ofTreeWithin_iff (T : Tree) :
    (∃ limit p, ofTreeWithin limit T = .ok p) ↔ T.symbol = Symbol.program.name ∧ T.Sound := by
  constructor
  · intro h
    obtain ⟨limit, p, hp⟩ := h
    exact (settles_ofTreeWithin T).of_eq_ok hp
  · intro h
    obtain ⟨d, r, hr, hsays⟩ := settles_ofTreeWithin T
    cases r with
    | ok p => exact ⟨d, p, (hr d).trans (if_pos le_rfl)⟩
    | error f => exact absurd h (Refuses.not_sound hsays)

/-- An expression where a statement is due. -/
def bareStatement : Tree :=
  .node "Stmt" none none [.node "PrimaryExpr" none none [.leaf "identifier" ⟨.identifier, "x", none, ⟨"", 1, 1, 0⟩⟩]]

def breakStatement : Tree := .node "Stmt" none none [.node "BreakStmt" none none [.bare "break", .bare ";"]]

/-- A number that is only known from its lexeme, where a statement is due. -/
def numberStatement : Tree :=
  .node "Stmt" none none [.node "PrimaryExpr" none none [.leaf "number" ⟨.number, "1", none, ⟨"", 1, 1, 0⟩⟩]]

/-- A program of one statement. -/
def single (t : Tree) : Tree := .node "Program" none none [.node "StmtList" none none [t, .bare "StmtList"]]

theorem single_reaches (hs : T.symbol = Symbol.stmt.name) : (single T).Reaches T := by
  have hlist : .node "StmtList" none none [T, .bare "StmtList"] ∈ (single T).parts :=
    Node.mem_parts (s := .program) (l := [.stmtList]) ⟨rfl, rfl, rfl, by decide⟩ 0 rfl rfl rfl
  have hsymbols : [T, .bare "StmtList"].map symbol = [Symbol.stmt, .stmtList].map Symbol.name := by
    rw [List.map_cons, hs]
    rfl
  refine .head hlist (.single ?_)
  exact Node.mem_parts (s := .stmtList) (l := [.stmt, .stmtList]) ⟨rfl, rfl, hsymbols, by decide⟩ 0 rfl rfl rfl

/-- All nodes that the conversion reaches have the children of a rule for their symbol, but for statements over
something else and for operators, whose symbol is not looked at. -/
theorem reached_follows_rule (h : ofTreeWithin limit T = .ok p) {u : Tree} (hu : T.Reaches u) :
    u.FollowsRule ∨ u.Loose :=
  (((settles_ofTreeWithin T).of_eq_ok h).2 u hu).followsRule_or_loose

theorem reached_follows_rule_break : ofTree (single breakStatement) = .ok ⟨[.breaking]⟩ ∧
    (single breakStatement).Reaches breakStatement ∧ (breakStatement.FollowsRule ∨ breakStatement.Loose) := by
  have htree : ofTree (single breakStatement) = .ok ⟨[.breaking]⟩ := by cbv
  have hreach : (single breakStatement).Reaches breakStatement := single_reaches rfl
  exact ⟨htree, hreach, reached_follows_rule htree hreach⟩

/-- The program of a statement that no rule has. -/
theorem bareStatement_converts : ofTree (single bareStatement) = .ok ⟨[.bare (.identifier "x")]⟩ ∧
    (single bareStatement).Reaches bareStatement ∧ ¬ bareStatement.FollowsRule := by
  refine ⟨by cbv, single_reaches rfl, fun h => ?_⟩
  obtain ⟨r, hr, hsymbol, hshape⟩ := h
  exact (by decide : ∀ r ∈ rules, "Stmt" = r.1.name → ["PrimaryExpr"] ≠ r.2.map Symbol.name) r hr hsymbol hshape

/-- Every tree has one result, which any limit from some depth on gives: a program or, if its numbers can be read, a
fault of a node that does not fit. Below that depth it is too deep. Nothing that the conversion takes apart, looks up
or reads off is missing. -/
theorem programWithin_settles (T : Tree) (hT : ∀ u ∈ T.subtrees, u.Numeric) :
    (∀ n, Raw.programWithin n T = Raw.of (ofTreeWithin n T)) ∧
      ∃ d, (∃ p, ∀ n, Raw.programWithin n T = if d ≤ n then .ok p else .error (.fault .tooDeep)) ∨
        ∃ f, f ≠ .tooDeep ∧ Refuses T (.fault f) ∧
          ∀ n, Raw.programWithin n T = if d ≤ n then .error (.fault f) else .error (.fault .tooDeep) := by
  have hraw : ∀ n, Raw.programWithin n T = Raw.of (ofTreeWithin n T) := fun n => Raw.programWithin_eq n T
  have hwithin : ∀ (d n : ℕ) (r : Conversion Program),
      Raw.of (within d n r) = if d ≤ n then Raw.of r else .error (.fault .tooDeep) := by
    intro d n r
    unfold within
    split <;> rfl
  obtain ⟨d, r, hr, hsays⟩ := settles_ofTreeWithin T
  refine ⟨hraw, d, ?_⟩
  simp only [hraw, hr, hwithin]
  cases r with
  | ok p => exact Or.inl ⟨p, fun _ => rfl⟩
  | error f =>
    have hrefuses : Refuses T f := hsays
    cases hsays with
    | inl h =>
      obtain ⟨-, rfl⟩ := h
      exact Or.inr ⟨_, TreeFault.noConfusion, hrefuses, fun _ => rfl⟩
    | inr h =>
      obtain ⟨g, rfl, hg⟩ := h.exists_fault hT
      exact Or.inr ⟨g, hg, hrefuses, fun _ => rfl⟩

theorem programWithin_settles_number : (∀ u ∈ (single numberStatement).subtrees, u.Numeric) ∧
    (∀ n, Raw.programWithin n (single numberStatement) = Raw.of (ofTreeWithin n (single numberStatement))) ∧
      ∃ d, (∃ p, ∀ n, Raw.programWithin n (single numberStatement) =
          if d ≤ n then .ok p else .error (.fault .tooDeep)) ∨
        ∃ f, f ≠ .tooDeep ∧ Refuses (single numberStatement) (.fault f) ∧
          ∀ n, Raw.programWithin n (single numberStatement) =
            if d ≤ n then .error (.fault f) else .error (.fault .tooDeep) := by
  have hnumeric : ∀ u ∈ (single numberStatement).subtrees, u.Numeric := by
    simp +decide [single, numberStatement, Numeric, leaf, bare, symbol, token, Symbol.name]
  exact ⟨hnumeric, programWithin_settles _ hnumeric⟩

/-- Without a word on the numbers, only they can crash. -/
theorem eq_numeral_of_crash {c : Crash} (h : Raw.programWithin limit T = .error (.crash c)) :
    ∃ lexeme, c = .numeral lexeme := by
  rw [Raw.programWithin_eq] at h
  cases hx : ofTreeWithin limit T with
  | ok p =>
    rw [hx] at h
    cases h
  | error f =>
    rw [hx] at h
    cases f with
    | fault f => cases h
    | unreadable lexeme =>
      cases h
      exact ⟨lexeme, rfl⟩

end Program
end Lookahead
