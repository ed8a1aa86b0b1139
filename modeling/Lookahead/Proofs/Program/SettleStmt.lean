import Lookahead.Proofs.Program.ReadStmt
import Lookahead.Proofs.Program.SettleExpr

/-! Conversions into statements settle on every tree too. A statement is the one place where the child may be anything
that has a conversion, an expression among them. -/
namespace Lookahead

open Script

namespace Tree
variable {α : Type} {s : Symbol} {l : List Symbol} {t : Tree}

theorem settles_statements {convert : ℕ → Tree → Conversion α} (hs : t.symbol = Symbol.stmtList.name)
    (h : JudgesBelow [.stmt] convert t) : Settles t.Sound t.Blames fun n => t.statements.mapM (convert n) := by
  induction hn : sizeOf t using Nat.strong_induction_on generalizing t with
  | _ n ih =>
    rw [statements_eq]
    obtain ⟨hleaf, hsound⟩ | ⟨hleaf, hsplit, hblames⟩ | ⟨hleaf, cs, hsplit, v⟩ :=
      cases_of_rule_or_nil (l := [.stmt, .stmtList]) hs (by decide)
    · simp only [hleaf]
      exact .ok hsound []
    · simp only [hleaf, hsplit]
      exact .error hblames
    · obtain _ | ⟨-, _ | ⟨-, _ | _⟩⟩ := v.symbols
      simp only [hleaf, hsplit]
      have hlt := v.sizeOf_lt 1 rfl
      have hrest := ih _ (hn ▸ hlt) (v.symbol_at 1 rfl rfl) (h.mono hlt.le) rfl
      refine Spine.settles_push (v.settles h 0 rfl rfl (by decide)) fun ha => ?_
      refine (v.settles_node 1 rfl rfl rfl hrest).mono (fun hr => ?_) fun _ => id
      exact v.sound (.cons ha (.cons hr .nil))

end Tree

namespace Stmt
variable {t : Tree}

open Lookahead.Tree

/-! ## Single nodes -/

theorem settles_expr {s r : Symbol} {l : List Symbol} {cs : List Tree} {c : Tree} (v : t.Node s l cs) (i : ℕ)
    (hc : cs[i]? = some c) (hr : l[i]? = some r) (hmem : r ∈ expressions ∧ r.role = .node) :
    Settles (Good r c) t.Blames fun n => Expr.ofTree n c :=
  v.settles (Expr.judgesBelow_ofTree t) i hc hr hmem

theorem settles_optional {s : Symbol} {l : List Symbol} {cs : List Tree} {c : Tree} (v : t.Node s l cs) (i : ℕ)
    (hc : cs[i]? = some c) (hr : l[i]? = some .optExpr) :
    Settles (Good .optExpr c) t.Blames fun n => Expr.ofOptExpr n c :=
  v.settles_node i hc hr rfl (Expr.judges_ofOptExpr (v.symbol_at i hc hr))

theorem settles_ofInit (hs : t.symbol = Symbol.varInit.name) :
    Settles t.Sound t.Blames fun n => ofInit (partsAt n) t := by
  unfold ofInit
  obtain ⟨hsplit, hne⟩ | ⟨cs, hsplit, v⟩ := exists_node (l := [.equals, .expr, .semicolon]) hs (by decide)
  · simp only [hsplit]
    by_cases hshape : t.shape = [Symbol.semicolon].map Symbol.name
    · simp only [hasShape, decide_eq_true hshape]
      have v : t.Node .varInit [.semicolon] t.children := ⟨hs, rfl, hshape, by decide⟩
      obtain ⟨a, hchildren⟩ := List.length_eq_one_iff.mp v.length_eq
      rw [hchildren] at v
      exact .ok (v.sound (.cons trivial .nil)) none
    · simp only [hasShape, decide_eq_false hshape]
      have hnone : ∀ m ∈ shapes .varInit, t.shape ≠ m.map Symbol.name :=
        List.forall_mem_cons.mpr ⟨hne, List.forall_mem_singleton.mpr hshape⟩
      exact .error (blames_of_no_shape hs ⟨rfl, rfl⟩ hnone (.malformed hshape))
  · obtain _ | ⟨-, _ | ⟨-, _ | ⟨-, _ | _⟩⟩⟩ := v.symbols
    simp only [hsplit, partsAt]
    exact (settles_expr v 1 rfl rfl (by decide)).bind fun he value =>
      .ok (v.sound (.cons trivial (.cons he (.cons trivial .nil)))) (some value)

theorem settles_ofVarDecl (hs : t.symbol = Symbol.varDecl.name) :
    Settles t.Sound t.Blames fun n => ofVarDecl (partsAt n) t := by
  unfold ofVarDecl
  obtain ⟨hsplit, hne⟩ | ⟨cs, hsplit, v⟩ := exists_node (l := [.letWord, .identifier, .varInit]) hs (by decide)
  · obtain ⟨hsplit', hne'⟩ | ⟨cs, hsplit', v⟩ :=
      exists_node (l := [.constWord, .identifier, .equals, .expr, .semicolon]) hs (by decide)
    · simp only [hsplit, hsplit']
      have hnone : ∀ m ∈ shapes .varDecl, t.shape ≠ m.map Symbol.name :=
        List.forall_mem_cons.mpr ⟨hne, List.forall_mem_singleton.mpr hne'⟩
      exact .error (blames_of_no_shape hs ⟨rfl, rfl⟩ hnone .unexpected)
    · obtain _ | ⟨-, _ | ⟨-, _ | ⟨-, _ | ⟨-, _ | ⟨-, _ | _⟩⟩⟩⟩⟩ := v.symbols
      simp only [hsplit, hsplit', partsAt]
      refine (v.settles_lexeme (by decide) 1 rfl rfl).bind fun hname x => ?_
      refine (settles_expr v 3 rfl rfl (by decide)).bind fun he value => ?_
      exact .ok (v.sound (.cons trivial (.cons hname (.cons trivial (.cons he (.cons trivial .nil)))))) _
  · obtain _ | ⟨-, _ | ⟨-, _ | ⟨-, _ | _⟩⟩⟩ := v.symbols
    simp only [hsplit]
    have hinit := v.settles_node 2 rfl rfl rfl (settles_ofInit (v.symbol_at 2 rfl rfl))
    refine hinit.bind fun hinit value => (v.settles_lexeme (by decide) 1 rfl rfl).bind fun hname x => ?_
    exact .ok (v.sound (.cons trivial (.cons hname (.cons hinit .nil)))) _

theorem settles_ofParams (hs : t.symbol = Symbol.params.name) :
    Settles t.Sound t.Blames fun _ => ofParams t := by
  unfold ofParams
  obtain ⟨hleaf, hsound⟩ | ⟨hleaf, hsplit, hblames⟩ | ⟨hleaf, cs, hsplit, v⟩ :=
    cases_of_rule_or_nil (l := [.identifier, .paramTail]) hs (by decide)
  · simp only [hleaf]
    exact .ok hsound []
  · simp only [hleaf, hsplit]
    exact .error hblames
  · obtain _ | ⟨-, _ | ⟨-, _ | _⟩⟩ := v.symbols
    simp only [hleaf, hsplit]
    refine (v.settles_lexeme (by decide) 0 rfl rfl).bind fun ha first => ?_
    have htail := settles_afterComma .identifier .paramTail (v.symbol_at 1 rfl rfl) (by decide) rfl
      fun u _ _ _ _ v' => v'.settles_lexeme (by decide) 1 rfl rfl
    exact (v.settles_node 1 rfl rfl rfl htail).bind fun hrest rest => .ok (v.sound (.cons ha (.cons hrest .nil))) _

theorem settles_ofFnDecl (hs : t.symbol = Symbol.fnDecl.name) (h : JudgesBelow [.block] ofBlock t) :
    Settles t.Sound t.Blames fun n => ofFnDecl (partsAt n) t := by
  refine settles_of_rule fnShape hs (by decide) (fun h _ => by rw [ofFnDecl, h]) fun cs hsplit v => ?_
  obtain _ | ⟨-, _ | ⟨-, _ | ⟨-, _ | ⟨-, _ | ⟨-, _ | ⟨-, _ | ⟨-, _ | ⟨-, _ | _⟩⟩⟩⟩⟩⟩⟩⟩ := v.symbols
  simp only [ofFnDecl, hsplit, partsAt]
  have hparams := v.settles_node 3 rfl rfl rfl (settles_ofParams (v.symbol_at 3 rfl rfl))
  refine hparams.bind fun hparams parameters => (v.settles_lexeme (by decide) 1 rfl rfl).bind fun hname x => ?_
  refine (v.settles h 6 rfl rfl (by decide)).bind fun hblock body => .ok (v.sound ?_) _
  exact .cons trivial (.cons hname (.cons trivial (.cons hparams (.cons trivial (.cons trivial (.cons hblock
    (.cons trivial .nil)))))))

theorem settles_ofElse (hs : t.symbol = Symbol.elseClause.name) (h : JudgesBelow [.block] ofBlock t) :
    Settles t.Sound t.Blames fun n => ofElse (partsAt n) t := by
  unfold ofElse
  obtain ⟨hleaf, hsound⟩ | ⟨hleaf, hsplit, hblames⟩ | ⟨hleaf, cs, hsplit, v⟩ :=
    cases_of_rule_or_nil (l := [.elseWord, .leftBrace, .block, .rightBrace]) hs (by decide)
  · simp only [hleaf]
    exact .ok hsound none
  · simp only [hleaf, hsplit]
    exact .error hblames
  · obtain _ | ⟨-, _ | ⟨-, _ | ⟨-, _ | ⟨-, _ | _⟩⟩⟩⟩ := v.symbols
    simp only [hleaf, hsplit, partsAt]
    exact (v.settles h 2 rfl rfl (by decide)).bind fun hblock body =>
      .ok (v.sound (.cons trivial (.cons trivial (.cons hblock (.cons trivial .nil))))) (some body)

theorem settles_ofIf (hs : t.symbol = Symbol.ifStmt.name) (h : JudgesBelow [.block] ofBlock t) :
    Settles t.Sound t.Blames fun n => ofIf (partsAt n) t := by
  refine settles_of_rule ifShape hs (by decide) (fun h _ => by rw [ofIf, h]) fun cs hsplit v => ?_
  obtain _ | ⟨-, _ | ⟨-, _ | ⟨-, _ | ⟨-, _ | ⟨-, _ | ⟨-, _ | ⟨-, _ | ⟨-, _ | _⟩⟩⟩⟩⟩⟩⟩⟩ := v.symbols
  simp only [ofIf, hsplit]
  have hclause := settles_ofElse (v.symbol_at 7 rfl rfl) (h.mono (v.sizeOf_lt 7 rfl).le)
  refine (v.settles_node 7 rfl rfl rfl hclause).bind fun hclause elseBody => ?_
  simp only [partsAt]
  refine (settles_expr v 2 rfl rfl (by decide)).bind fun hcondition e => ?_
  refine (v.settles h 5 rfl rfl (by decide)).bind fun hblock body => .ok (v.sound ?_) _
  exact .cons trivial (.cons trivial (.cons hcondition (.cons trivial (.cons trivial (.cons hblock (.cons trivial
    (.cons hclause .nil)))))))

theorem settles_ofWhile (hs : t.symbol = Symbol.whileStmt.name) (h : JudgesBelow [.block] ofBlock t) :
    Settles t.Sound t.Blames fun n => ofWhile (partsAt n) t := by
  refine settles_of_rule whileShape hs (by decide) (fun h _ => by rw [ofWhile, h]) fun cs hsplit v => ?_
  obtain _ | ⟨-, _ | ⟨-, _ | ⟨-, _ | ⟨-, _ | ⟨-, _ | ⟨-, _ | ⟨-, _ | _⟩⟩⟩⟩⟩⟩⟩ := v.symbols
  simp only [ofWhile, hsplit, partsAt]
  refine (settles_expr v 2 rfl rfl (by decide)).bind fun hcondition e => ?_
  refine (v.settles h 5 rfl rfl (by decide)).bind fun hblock body => .ok (v.sound ?_) _
  exact .cons trivial (.cons trivial (.cons hcondition (.cons trivial (.cons trivial (.cons hblock (.cons trivial
    .nil))))))

theorem settles_ofForInit (hs : t.symbol = Symbol.forInit.name) (h : JudgesBelow converted ofTree t) :
    Settles t.Sound t.Blames fun n => ofForInit (partsAt n) t := by
  have hblames : (∀ a, t.children = [a] → ∀ r ∈ [Symbol.varDecl, .exprStmt, .semicolon], a.symbol ≠ r.name) →
      t.Blames t.unexpected :=
    fun hne => blames_of_no_shape hs ⟨rfl, rfl⟩ (shape_ne_single hne) .unexpected
  by_cases hsingle : ∀ a, t.children ≠ [a]
  · simp only [ofForInit_of_not_single _ hsingle]
    exact .error (hblames fun a hchildren => absurd hchildren (hsingle a))
  · push Not at hsingle
    obtain ⟨a, hchildren⟩ := hsingle
    have hnode : ∀ r : Symbol, a.symbol = r.name → (.forInit, [r]) ∈ plainRules → t.Node .forInit [r] [a] :=
      fun r hr hrule => ⟨hs, hchildren, by simp [hr], hrule⟩
    simp only [ofForInit, hchildren, partsAt]
    split_ifs with hsemicolon hstatement
    · exact .ok ((hnode .semicolon hsemicolon (by decide)).sound (.cons trivial .nil)) none
    · obtain hdecl | hexpr := hstatement
      · have v := hnode .varDecl hdecl (by decide)
        exact (v.settles h 0 rfl rfl (by decide)).bind fun ha s => .ok (v.sound (.cons ha .nil)) (some s)
      · have v := hnode .exprStmt hexpr (by decide)
        exact (v.settles h 0 rfl rfl (by decide)).bind fun ha s => .ok (v.sound (.cons ha .nil)) (some s)
    · refine .error (hblames fun b hb => ?_)
      obtain rfl : a = b := by simpa using hchildren.symm.trans hb
      simpa [hsemicolon] using hstatement

theorem settles_ofFor (hs : t.symbol = Symbol.forStmt.name) (h : JudgesBelow [.block] ofBlock t)
    (hstmt : JudgesBelow converted ofTree t) : Settles t.Sound t.Blames fun n => ofFor (partsAt n) t := by
  refine settles_of_rule forShape hs (by decide) (fun h _ => by rw [ofFor, h]) fun cs hsplit v => ?_
  obtain _ | ⟨-, _ | ⟨-, _ | ⟨-, _ | ⟨-, _ | ⟨-, _ | ⟨-, _ | ⟨-, _ | ⟨-, _ | ⟨-, _ | ⟨-, _ | _⟩⟩⟩⟩⟩⟩⟩⟩⟩⟩ := v.symbols
  simp only [ofFor, hsplit]
  have hinit := settles_ofForInit (v.symbol_at 2 rfl rfl) (hstmt.mono (v.sizeOf_lt 2 rfl).le)
  refine (v.settles_node 2 rfl rfl rfl hinit).bind fun hinit first => ?_
  simp only [partsAt]
  refine (settles_optional v 3 rfl rfl).bind fun hcondition e => ?_
  refine (settles_optional v 5 rfl rfl).bind fun hupdate u => ?_
  refine (v.settles h 8 rfl rfl (by decide)).bind fun hblock body => .ok (v.sound ?_) _
  exact .cons trivial (.cons trivial (.cons hinit (.cons hcondition (.cons trivial (.cons hupdate (.cons trivial
    (.cons trivial (.cons hblock (.cons trivial .nil)))))))))

theorem settles_ofReturn (hs : t.symbol = Symbol.returnStmt.name) :
    Settles t.Sound t.Blames fun n => ofReturn (partsAt n) t := by
  refine settles_of_rule [.returnWord, .optExpr, .semicolon] hs (by decide) (fun h _ => by rw [ofReturn, h])
    fun cs hsplit v => ?_
  obtain _ | ⟨-, _ | ⟨-, _ | ⟨-, _ | _⟩⟩⟩ := v.symbols
  simp only [ofReturn, hsplit, partsAt]
  exact (settles_optional v 1 rfl rfl).bind fun hvalue e =>
    .ok (v.sound (.cons trivial (.cons hvalue (.cons trivial .nil)))) _

theorem settles_ofExprStmt (hs : t.symbol = Symbol.exprStmt.name) :
    Settles t.Sound t.Blames fun n => ofExprStmt (partsAt n) t := by
  refine settles_of_rule [.expr, .semicolon] hs (by decide) (fun h _ => by rw [ofExprStmt, h]) fun cs hsplit v => ?_
  obtain _ | ⟨-, _ | ⟨-, _ | _⟩⟩ := v.symbols
  simp only [ofExprStmt, hsplit, partsAt]
  exact (settles_expr v 0 rfl rfl (by decide)).bind fun he value =>
    .ok (v.sound (.cons he (.cons trivial .nil))) _

/-- A statement that is a word and a semicolon. -/
theorem settles_word (word : Symbol) {s : Symbol} {x : ℕ → Conversion Stmt} {a : Stmt} (hs : t.symbol = s.name)
    (hl : s.isPlain = true ∧ shapes s = [[word, .semicolon]]) (hword : word.role = .mark)
    (hx : ∀ n, x n = if t.hasShape [word, .semicolon] then .ok a else .error (t.malformed [word, .semicolon])) :
    Settles t.Sound t.Blames x := by
  rw [funext hx]
  refine settles_of_rule [word, .semicolon] hs hl (fun hsplit _ => if_neg ?_) fun cs hsplit v => ?_
  · intro hshape
    rw [split?, if_pos hshape] at hsplit
    cases hsplit
  · have hshape : t.hasShape [word, .semicolon] = true := by
      by_contra hne
      rw [split?, if_neg hne] at hsplit
      cases hsplit
    obtain _ | ⟨-, _ | ⟨-, _ | _⟩⟩ := v.symbols
    simp only [if_pos hshape]
    exact .ok (v.sound (.cons (by rw [Good, hword]; trivial) (.cons trivial .nil))) a

/-! ## Statements and blocks -/

theorem wrapperShape?_of_isStatement {s : Symbol} (h : isStatement s = true) : wrapperShape? s = none := by
  cases s <;> first | exact absurd h (by decide) | rfl

theorem isStatement_or_expression {s : Symbol} (h : s ∈ converted) :
    s ∈ Symbol.nonterminals ∧ (isStatement s = true ∨ s ∈ expressions) := by
  obtain ⟨hnode, hor⟩ := List.mem_filter.mp h
  refine ⟨hnode, ?_⟩
  simpa using hor

theorem settles_ofList_of_below (hs : t.symbol = Symbol.stmtList.name) (h : JudgesBelow converted ofTree t) :
    Settles t.Sound t.Blames fun n => ofList n t := by
  refine (settles_statements hs fun c hc r hr => ?_).deeper rfl fun n => by rw [ofList]
  obtain rfl := List.mem_singleton.mp hr
  exact h c hc .stmt (by decide)

theorem settles_ofBlock (hs : t.symbol = Symbol.block.name) (h : JudgesBelow converted ofTree t) :
    Settles t.Sound t.Blames fun n => ofBlock n t := by
  refine Settles.deeper (x := fun n => ofBlock (n + 1) t) ?_ rfl fun _ => rfl
  refine settles_of_rule [.stmtList] hs (by decide) (fun h _ => by rw [ofBlock, h]) fun cs hsplit v => ?_
  obtain _ | ⟨-, _ | _⟩ := v.symbols
  simp only [ofBlock, hsplit]
  have hlist := settles_ofList_of_below (v.symbol_at 0 rfl rfl) (h.mono (v.sizeOf_lt 0 rfl).le)
  exact (v.settles_node 0 rfl rfl rfl hlist).mono (fun hlist => v.sound (.cons hlist .nil)) fun _ => id

/-- A wrapper is an expression, so that the statement of it is the expression under it. -/
theorem ofTree_of_wrapped {c : Tree} (h : t.wrapped? = some c) (n : ℕ) : ofTree n t = ofTree n c := by
  cases n with
  | zero => rfl
  | succ n => rw [ofTree, ofTree, core_of_some h]

/-- What has no conversion is refused whatever the limit. -/
theorem settles_of_not_converted (h : ∀ r ∈ converted, t.symbol ≠ r.name) :
    Settles False (· = .fault (.noConversion t.symbol)) fun n => ofTree n t := by
  have hexpr : ∀ r ∈ expressions, t.symbol ≠ r.name :=
    fun r hr => h r ((by decide : ∀ r ∈ expressions, r ∈ converted) r hr)
  refine Settles.deeper (x := fun n => ofTree (n + 1) t) ?_ rfl fun _ => rfl
  simp only [ofTree, core_of_none (wrapped?_of_not_expression hexpr)]
  cases hs : Symbol.ofNonterminal? t.symbol with
  | none => exact .error rfl
  | some s =>
    obtain ⟨hnode, hname⟩ := Symbol.ofNonterminal?_eq_some.mp hs
    have hstatement : isStatement s = false := by
      by_contra hne
      have hmem : s ∈ converted := List.mem_filter.mpr ⟨hnode, by simp [hne]⟩
      exact h s hmem hname
    simp only [hstatement]
    exact (Expr.settles_ofNode_of_not_expression hexpr).map bare

theorem settles_ofStmt (hs : t.symbol = Symbol.stmt.name) (h : JudgesBelow converted ofTree t) :
    Settles t.Sound t.Blames fun n => ofStmt (partsAt n) t := by
  by_cases hsingle : ∀ a, t.children ≠ [a]
  · simp only [ofStmt_of_not_single _ hsingle]
    refine .error (.self (fun hfits => ?_) .unexpected)
    obtain ⟨r, c, -, hchildren, -⟩ := hfits.exists_converted hs
    exact hsingle c hchildren
  · push Not at hsingle
    obtain ⟨a, hchildren⟩ := hsingle
    simp only [ofStmt, hchildren, partsAt]
    have hplain : t.isOperation = false := by rw [isOperation_eq hs (by decide)]; rfl
    by_cases ha : ∃ r ∈ converted, a.symbol = r.name
    · obtain ⟨r, hr, hsymbol⟩ := ha
      have hpart : a ∈ t.parts := mem_parts hplain (by simp [hchildren]) hsymbol (isStatement_or_expression hr).1
      refine (h a (sizeOf_child (mem_children_of_parts hpart)) r hr hsymbol).mono (fun hsound => ?_)
        fun _ => Blames.of_part hpart
      refine sound_iff.mpr ⟨.statement hs hr hchildren hsymbol, fun c hc => ?_⟩
      have hmem := mem_children_of_parts hc
      rw [hchildren, List.mem_singleton] at hmem
      exact hmem ▸ hsound
    · have hnot : ∀ r ∈ converted, a.symbol ≠ r.name := fun r hr hsymbol => ha ⟨r, hr, hsymbol⟩
      refine (settles_of_not_converted hnot).mono False.elim fun f hf => .self (fun hfits => ?_) ?_
      · obtain ⟨r, c, hr, hchildren', hsymbol⟩ := hfits.exists_converted hs
        rw [hchildren, List.cons.injEq] at hchildren'
        exact hnot r hr (hchildren'.1 ▸ hsymbol)
      · rw [hf]
        exact .noConversion (by simp [hchildren])

theorem settles_ofNode {s : Symbol} (hs : t.symbol = s.name) (hstatement : isStatement s = true)
    (h : JudgesBelow converted ofTree t) : Settles t.Sound t.Blames fun n => ofNode n s t := by
  have hblock : JudgesBelow [.block] ofBlock t := by
    intro c hc r hr hsymbol
    obtain rfl := List.mem_singleton.mp hr
    exact settles_ofBlock hsymbol (h.mono hc.le)
  refine Settles.deeper (x := fun n => ofNode (n + 1) s t) ?_ rfl fun _ => rfl
  simp only [ofNode]
  cases s
  case stmt => exact settles_ofStmt hs h
  case varDecl => exact settles_ofVarDecl hs
  case fnDecl => exact settles_ofFnDecl hs hblock
  case ifStmt => exact settles_ofIf hs hblock
  case whileStmt => exact settles_ofWhile hs hblock
  case forStmt => exact settles_ofFor hs hblock h
  case returnStmt => exact settles_ofReturn hs
  case breakStmt => exact settles_word .breakWord hs (by decide) rfl fun n => by rw [ofBreak]
  case continueStmt => exact settles_word .continueWord hs (by decide) rfl fun n => by rw [ofContinue]
  case exprStmt => exact settles_ofExprStmt hs
  all_goals exact absurd hstatement (by decide)

theorem judges_ofTree {s : Symbol} (hs : t.symbol = s.name) (hmem : s ∈ converted) : Judges ofTree t := by
  induction hn : sizeOf t using Nat.strong_induction_on generalizing t s with
  | _ n ih =>
    have h : JudgesBelow converted ofTree t := fun c hc r hr hsymbol => ih _ (hn ▸ hc) hsymbol hr rfl
    obtain ⟨hnode, hstatement | hexpr⟩ := isStatement_or_expression hmem
    · have hwrapped : t.wrapped? = none := wrapped?_of_wrapperShape hs hnode (wrapperShape?_of_isStatement hstatement)
      refine (settles_ofNode hs hstatement h).deeper rfl fun n => ?_
      simp only [ofTree, core_of_none hwrapped, hs, Symbol.ofNonterminal?_name hnode, hstatement, if_true]
    · cases hwrapped : t.wrapped? with
      | some c =>
        have w := wraps_of_wrapped hwrapped
        obtain ⟨r, hr, hsymbol⟩ := w.expression
        have hr' : r ∈ converted := (by decide : ∀ r ∈ expressions, r ∈ converted) r hr
        have hfun : (fun n => ofTree n t) = fun n => ofTree n c := funext fun n => ofTree_of_wrapped hwrapped n
        rw [Judges, hfun]
        exact (h c (sizeOf_child (wrapped?_mem hwrapped)) r hr' hsymbol).mono w.sound
          fun _ => Blames.of_part w.mem_parts
      | none =>
        have hnot : isStatement s = false := (by decide : ∀ r ∈ expressions, isStatement r = false) s hexpr
        have hx := Expr.settles_ofNode hs hexpr hwrapped (Expr.judgesBelow_ofTree t)
        refine (hx.map bare).deeper rfl fun n => ?_
        simp only [ofTree, core_of_none hwrapped, hs, Symbol.ofNonterminal?_name hnode, hnot]
        rfl

theorem settles_ofList (hs : t.symbol = Symbol.stmtList.name) : Settles t.Sound t.Blames fun n => ofList n t :=
  settles_ofList_of_below hs fun _ _ _ hmem hsymbol => judges_ofTree hsymbol hmem

end Stmt
end Lookahead
