import Lookahead.Proofs.Program.Alike
import Lookahead.Proofs.Program.ReadStmt

/-! Alike trees convert alike, whether they convert or not and whatever the limit. -/
namespace Lookahead

open Script

/-- The function does not tell alike trees with these symbols apart. -/
def Tree.Respects {α : Type} (symbols : List Symbol) (f : Tree → α) : Prop :=
  ∀ ⦃s⦄, s ∈ symbols → ∀ ⦃t t' : Tree⦄, t.symbol = s.name → t.Alike t' → f t = f t'

namespace Tree
variable {α : Type} {t t' c : Tree} {cs : List Tree} {f : Tree → Conversion α} {item tail : Symbol}

theorem sizeOf_lt_of_getElem? (i : ℕ) (hcs : t.children = cs) (hc : cs[i]? = some c) : sizeOf c < sizeOf t :=
  sizeOf_child (hcs ▸ List.mem_of_getElem? hc)

/-! ## Sequences -/

theorem mapM_statements_eq (h : t.Alike t') (hs : t.symbol = Symbol.stmtList.name) (hf : Respects [.stmt] f) :
    t.statements.mapM f = t'.statements.mapM f := by
  induction hn : sizeOf t using Nat.strong_induction_on generalizing t t' with
  | _ n ih =>
    have hpar := h.parallel hs (by decide)
    rw [statements_eq t, statements_eq t', hpar.isLeaf_eq]
    split
    · rfl
    · obtain ⟨hnone, hnone'⟩ | ⟨_, _, hcs, hcs', hchildren, hpairs⟩ := hpar.split?_cases [.stmt, .stmtList]
      · simp only [hnone, hnone', hpar.malformed_eq]
      · obtain _ | ⟨ha, haa, _ | ⟨hr, hrr, _ | _⟩⟩ := hpairs
        have hrest := ih _ (hn ▸ sizeOf_lt_of_getElem? 1 hchildren rfl) hrr hr rfl
        simp only [hcs, hcs', Spine.mapM_push, hf (by decide) ha haa, hrest]

theorem mapM_afterComma_eq (item tail : Symbol) (h : t.Alike t') (hs : t.symbol = tail.name) (htail : tail ∉ flexible)
    (hf : Respects [item] f) : (t.afterComma item tail).mapM f = (t'.afterComma item tail).mapM f := by
  induction hn : sizeOf t using Nat.strong_induction_on generalizing t t' with
  | _ n ih =>
    have hpar := h.parallel hs htail
    rw [afterComma_eq _ _ t, afterComma_eq _ _ t', hpar.isLeaf_eq]
    split
    · rfl
    · obtain ⟨hnone, hnone'⟩ | ⟨_, _, hcs, hcs', hchildren, hpairs⟩ := hpar.split?_cases [.comma, item, tail]
      · simp only [hnone, hnone', hpar.malformed_eq]
      · obtain _ | ⟨-, -, _ | ⟨ha, haa, _ | ⟨hr, hrr, _ | _⟩⟩⟩ := hpairs
        have hrest := ih _ (hn ▸ sizeOf_lt_of_getElem? 2 hchildren rfl) hrr hr rfl
        simp only [hcs, hcs', Spine.mapM_push, hf List.mem_cons_self ha haa, hrest]

theorem mapM_entries_eq (list item tail : Symbol) (hl : (list, item, tail) ∈ lists) (h : t.Alike t')
    (hs : t.symbol = list.name) (hf : Respects [item] f) :
    (t.entries list item tail).mapM f = (t'.entries list item tail).mapM f := by
  have htail : tail ∉ flexible := (by decide : ∀ l ∈ lists, l.2.2 ∉ flexible) _ hl
  induction hn : sizeOf t using Nat.strong_induction_on generalizing t t' with
  | _ n ih =>
    cases h.list_cases hl hs with
    | inl heq => exact congrArg (Spine.mapM f) heq
    | inr hpar =>
      rw [entries_eq _ _ _ t, entries_eq _ _ _ t', hpar.isLeaf_eq]
      split
      · rfl
      · obtain ⟨hnone, hnone'⟩ | ⟨_, _, hcs, hcs', hchildren, hpairs⟩ := hpar.split?_cases [item, tail]
        · simp only [hnone, hnone', hpar.malformed_eq]
        · obtain _ | @⟨_, _, a, a', _, _, ha, haa, _ | @⟨_, _, u, u', _, _, hu, huu, _ | _⟩⟩ := hpairs
          have hfollowing : (u.following list item tail).mapM f = (u'.following list item tail).mapM f := by
            have hpar' := huu.parallel hu htail
            rw [following, following, hpar'.isLeaf_eq]
            split
            · rfl
            · obtain ⟨hnone, hnone'⟩ | ⟨_, _, hcs, hcs', hchildren', hpairs⟩ := hpar'.split?_cases [.comma, list]
              · simp only [hnone, hnone', hpar'.malformed_eq]
              · obtain _ | ⟨-, -, _ | ⟨hr, hrr, _ | _⟩⟩ := hpairs
                have hlt := (sizeOf_lt_of_getElem? 1 hchildren' rfl).trans (sizeOf_lt_of_getElem? 1 hchildren rfl)
                simp only [hcs, hcs']
                exact ih _ (hn ▸ hlt) hrr hr rfl
          simp only [hcs, hcs', Spine.mapM_push, hf List.mem_cons_self ha haa, hfollowing]

/-! ## Operators, calls and members -/

theorem mapM_operations_eq (l : Level) {f : Tree → Conversion Expr} (h : t.Alike t') (hs : t.symbol = l.tail.name)
    (hf : Respects expressions f) :
    (t.operations l).mapM (fun p => do return (← p.1.lexeme, ← f p.2)) =
      (t'.operations l).mapM fun p => do return (← p.1.lexeme, ← f p.2) := by
  have htail : l.tail ∉ flexible := by cases l <;> decide
  have hchain : l.chain ∉ flexible := by cases l <;> decide
  have hoperand : l.operand ∈ expressions := by cases l <;> decide
  induction hn : sizeOf t using Nat.strong_induction_on generalizing t t' with
  | _ n ih =>
    have hpar := h.parallel hs htail
    cases hleaf : t.isLeaf with
    | true => rw [operations_of_isLeaf hleaf, operations_of_isLeaf (hpar.isLeaf_eq ▸ hleaf)]
    | false =>
      have hleaf' : t'.isLeaf = false := hpar.isLeaf_eq ▸ hleaf
      obtain ⟨o, c, o', c', hcs, hcs', hc, ho, hcc⟩ | ⟨hpair, hpair'⟩ := hpar.pair_cases l.chain.name
      · have hpar' := hcc.parallel hc hchain
        rw [operations_of_pair hcs hc, operations_of_pair hcs' (hpar'.symbol_eq ▸ hc)]
        obtain ⟨hnone, hnone'⟩ | ⟨_, _, hcs₂, hcs₂', hchildren, hpairs⟩ := hpar'.split?_cases [l.operand, l.tail]
        · simp only [hnone, hnone', hpar'.malformed_eq]
        · obtain _ | ⟨ha, haa, _ | ⟨hr, hrr, _ | _⟩⟩ := hpairs
          have hlt := (sizeOf_lt_of_getElem? 1 hchildren rfl).trans (sizeOf_lt_of_getElem? 1 hcs rfl)
          have hrest := ih _ (hn ▸ hlt) hrr hr rfl
          simp only [hcs₂, hcs₂', Spine.mapM_push, ho.lexeme_eq, hf hoperand ha haa, hrest]
      · rw [operations_of_not_pair hleaf hpair, operations_of_not_pair hleaf' hpair', hpar.unexpected_eq]

theorem mapM_calls_eq {f : Tree → Conversion (List Expr)} (h : t.Alike t') (hs : t.symbol = Symbol.callTail.name)
    (hf : Respects [.args] f) : t.calls.mapM f = t'.calls.mapM f := by
  induction hn : sizeOf t using Nat.strong_induction_on generalizing t t' with
  | _ n ih =>
    have hpar := h.parallel hs (by decide)
    rw [calls_eq t, calls_eq t', hpar.isLeaf_eq]
    split
    · rfl
    · obtain ⟨hnone, hnone'⟩ | ⟨_, _, hcs, hcs', hchildren, hpairs⟩ :=
        hpar.split?_cases [.leftParen, .args, .rightParen, .callTail]
      · simp only [hnone, hnone', hpar.malformed_eq]
      · obtain _ | ⟨-, -, _ | ⟨ha, haa, _ | ⟨-, -, _ | ⟨hr, hrr, _ | _⟩⟩⟩⟩ := hpairs
        have hrest := ih _ (hn ▸ sizeOf_lt_of_getElem? 3 hchildren rfl) hrr hr rfl
        simp only [hcs, hcs', Spine.mapM_push, hf (by decide) ha haa, hrest]

theorem mapM_accesses_eq {f : Tree → Conversion Expr} (h : t.Alike t') (hs : t.symbol = Symbol.memberTail.name)
    (hf : Respects expressions f) : t.accesses.mapM (Expr.ofAccess f) = t'.accesses.mapM (Expr.ofAccess f) := by
  induction hn : sizeOf t using Nat.strong_induction_on generalizing t t' with
  | _ n ih =>
    have hpar := h.parallel hs (by decide)
    rw [accesses_eq t, accesses_eq t', hpar.isLeaf_eq]
    split
    · rfl
    · obtain ⟨hnone, hnone'⟩ | ⟨_, _, hcs, hcs', hchildren, hpairs⟩ :=
        hpar.split?_cases [.dot, .identifier, .memberTail]
      · obtain ⟨hnone₂, hnone₂'⟩ | ⟨_, _, hcs, hcs', hchildren, hpairs⟩ :=
          hpar.split?_cases [.leftBracket, .expr, .rightBracket, .memberTail]
        · simp only [hnone, hnone', hnone₂, hnone₂', hpar.unexpected_eq]
        · obtain _ | ⟨-, -, _ | ⟨ha, haa, _ | ⟨-, -, _ | ⟨hr, hrr, _ | _⟩⟩⟩⟩ := hpairs
          have hrest := ih _ (hn ▸ sizeOf_lt_of_getElem? 3 hchildren rfl) hrr hr rfl
          simp only [hnone, hnone', hcs, hcs', Spine.mapM_push, Expr.ofAccess, hf (by decide) ha haa, hrest]
      · obtain _ | ⟨-, -, _ | ⟨-, haa, _ | ⟨hr, hrr, _ | _⟩⟩⟩ := hpairs
        have hrest := ih _ (hn ▸ sizeOf_lt_of_getElem? 2 hchildren rfl) hrr hr rfl
        simp only [hcs, hcs', Spine.mapM_push, Expr.ofAccess, haa.lexeme_eq, hrest]

end Tree

/-! ## Expressions -/

namespace Expr
variable {t t' : Tree} {f : Tree → Conversion Expr}

open Lookahead.Tree

theorem ofWrapped_eq (h : t.Parallel t') (hf : Respects expressions f) : ofWrapped f t = ofWrapped f t' := by
  unfold ofWrapped
  obtain ⟨hnone, hnone'⟩ | ⟨_, _, hcs, hcs', -, hpairs⟩ := h.split?_cases [.assignExpr]
  · simp only [hnone, hnone', h.malformed_eq]
  · obtain _ | ⟨ha, haa, _ | _⟩ := hpairs
    simp only [hcs, hcs', hf (by decide) ha haa]

theorem ofAssign_eq (h : t.Parallel t') (hf : Respects expressions f) : ofAssign f t = ofAssign f t' := by
  unfold ofAssign
  obtain ⟨hnone, hnone'⟩ | ⟨_, _, hcs, hcs', -, hpairs⟩ := h.split?_cases [.compExpr, .assignTail]
  · simp only [hnone, hnone', h.malformed_eq]
  · obtain _ | ⟨hcomp, hcomp', _ | ⟨htail, htail', _ | _⟩⟩ := hpairs
    have hpar := htail'.parallel htail (by decide)
    simp only [hcs, hcs', hf (by decide) hcomp hcomp', hpar.isLeaf_eq]
    obtain ⟨hnone, hnone'⟩ | ⟨_, _, hcs, hcs', -, hpairs⟩ := hpar.split?_cases [.equals, .assignExpr]
    · simp only [hnone, hnone', hpar.malformed_eq]
    · obtain _ | ⟨-, -, _ | ⟨ha, haa, _ | _⟩⟩ := hpairs
      simp only [hcs, hcs', hf (by decide) ha haa]

theorem ofChain_eq (l : Level) (h : t.Parallel t') (hf : Respects expressions f) : ofChain f l t = ofChain f l t' := by
  have hoperand : l.operand ∈ expressions := by cases l <;> decide
  unfold ofChain
  obtain ⟨hnone, hnone'⟩ | ⟨_, _, hcs, hcs', -, hpairs⟩ := h.split?_cases [l.operand, l.tail]
  · simp only [hnone, hnone', h.malformed_eq]
  · obtain _ | ⟨ha, haa, _ | ⟨htail, htail', _ | _⟩⟩ := hpairs
    have hoperations := mapM_operations_eq l htail' htail hf
    simp only [hcs, hcs', hf hoperand ha haa, hoperations]

theorem ofUnary_eq (h : t.Parallel t') (hf : Respects expressions f) : ofUnary f t = ofUnary f t' := by
  obtain ⟨o, a, o', a', hcs, hcs', ha, ho, haa⟩ | ⟨hpair, hpair'⟩ := h.pair_cases Symbol.unaryExpr.name
  · have ha' : a'.symbol = Symbol.unaryExpr.name := haa.similar.symbol_eq ▸ ha
    simp only [ofUnary, hcs, hcs', if_pos ha, if_pos ha', ho.lexeme_eq, hf (by decide) ha haa]
  · rw [ofUnary_of_not_pair f hpair, ofUnary_of_not_pair f hpair', h.unexpected_eq]

theorem ofArgs_eq (h : t.Parallel t') (hf : Respects expressions f) : ofArgs f t = ofArgs f t' := by
  unfold ofArgs
  rw [h.isLeaf_eq]
  obtain ⟨hnone, hnone'⟩ | ⟨_, _, hcs, hcs', -, hpairs⟩ := h.split?_cases [.expr, .argsTail]
  · simp only [hnone, hnone', h.malformed_eq]
  · obtain _ | ⟨ha, haa, _ | ⟨htail, htail', _ | _⟩⟩ := hpairs
    have hrest := mapM_afterComma_eq .expr .argsTail htail' htail (by decide) fun s hs =>
      hf ((by decide : ∀ s ∈ [Symbol.expr], s ∈ expressions) s hs)
    simp only [hcs, hcs', hf (by decide) ha haa, hrest]

theorem ofCall_eq {g : Tree → Conversion (List Expr)} (h : t.Parallel t') (hf : Respects expressions f)
    (hg : Respects [.args] g) : ofCall f g t = ofCall f g t' := by
  unfold ofCall
  obtain ⟨hnone, hnone'⟩ | ⟨_, _, hcs, hcs', -, hpairs⟩ := h.split?_cases [.memberExpr, .callTail]
  · simp only [hnone, hnone', h.malformed_eq]
  · obtain _ | ⟨ha, haa, _ | ⟨htail, htail', _ | _⟩⟩ := hpairs
    simp only [hcs, hcs', hf (by decide) ha haa, mapM_calls_eq htail' htail hg]

theorem ofMember_eq (h : t.Parallel t') (hf : Respects expressions f) : ofMember f t = ofMember f t' := by
  unfold ofMember
  obtain ⟨hnone, hnone'⟩ | ⟨_, _, hcs, hcs', -, hpairs⟩ := h.split?_cases [.primaryExpr, .memberTail]
  · simp only [hnone, hnone', h.malformed_eq]
  · obtain _ | ⟨ha, haa, _ | ⟨htail, htail', _ | _⟩⟩ := hpairs
    simp only [hcs, hcs', hf (by decide) ha haa, mapM_accesses_eq htail' htail hf]

theorem ofPrimary_eq (h : t.Parallel t') (hf : Respects expressions f) : ofPrimary f t = ofPrimary f t' := by
  obtain ⟨a, a', hcs, hcs', ha⟩ | ⟨hsingle, hsingle'⟩ := h.single_cases
  · have hliteral : a.symbol = Symbol.objLiteral.name ∨ a.symbol = Symbol.arrayLiteral.name → f a = f a' := by
      intro hor
      cases hor with
      | inl hs => exact hf (by decide) hs ha
      | inr hs => exact hf (by decide) hs ha
    unfold ofPrimary
    simp only [hcs, hcs', ← ha.similar.symbol_eq, ← ha.lexeme_eq, ← ha.similar.token_eq, h.unexpected_eq]
    split_ifs <;> first | rfl | exact hliteral ‹_›
  · rw [ofPrimary_of_not_single f hsingle, ofPrimary_of_not_single f hsingle', h.unexpected_eq]

theorem ofProperty_eq (h : t.Parallel t') (hf : Respects expressions f) : ofProperty f t = ofProperty f t' := by
  unfold ofProperty
  obtain ⟨hnone, hnone'⟩ | ⟨_, _, hcs, hcs', -, hpairs⟩ := h.split?_cases [.identifier, .propValue]
  · simp only [hnone, hnone', h.malformed_eq]
  · obtain _ | ⟨-, hkey, _ | ⟨hvalue, hvalue', _ | _⟩⟩ := hpairs
    have hpar := hvalue'.parallel hvalue (by decide)
    simp only [hcs, hcs', hkey.lexeme_eq, hpar.isLeaf_eq]
    obtain ⟨hnone, hnone'⟩ | ⟨_, _, hcs, hcs', -, hpairs⟩ := hpar.split?_cases [.colon, .expr]
    · simp only [hnone, hnone', hpar.malformed_eq]
    · obtain _ | ⟨-, -, _ | ⟨ha, haa, _ | _⟩⟩ := hpairs
      simp only [hcs, hcs', hf (by decide) ha haa]

theorem ofObject_eq (h : t.Parallel t') (hf : Respects expressions f) : ofObject f t = ofObject f t' := by
  unfold ofObject
  obtain ⟨hnone, hnone'⟩ | ⟨_, _, hcs, hcs', -, hpairs⟩ := h.split?_cases [.leftBrace, .propList, .rightBrace]
  · simp only [hnone, hnone', h.malformed_eq]
  · obtain _ | ⟨-, -, _ | ⟨hlist, hlist', _ | ⟨-, -, _ | _⟩⟩⟩ := hpairs
    have hproperty : Respects [.prop] (ofProperty f) := by
      intro s hs p p' hp hpp
      obtain rfl := List.mem_singleton.mp hs
      exact ofProperty_eq (hpp.parallel hp (by decide)) hf
    simp only [hcs, hcs', mapM_entries_eq .propList .prop .propTail (by decide) hlist' hlist hproperty]

theorem ofArray_eq (h : t.Parallel t') (hf : Respects expressions f) : ofArray f t = ofArray f t' := by
  unfold ofArray
  obtain ⟨hnone, hnone'⟩ | ⟨_, _, hcs, hcs', -, hpairs⟩ := h.split?_cases [.leftBracket, .elements, .rightBracket]
  · simp only [hnone, hnone', h.malformed_eq]
  · obtain _ | ⟨-, -, _ | ⟨hlist, hlist', _ | ⟨-, -, _ | _⟩⟩⟩ := hpairs
    have hitem : Respects [.expr] f := fun s hs => hf ((by decide : ∀ s ∈ [Symbol.expr], s ∈ expressions) s hs)
    simp only [hcs, hcs', mapM_entries_eq .elements .expr .elementsTail (by decide) hlist' hlist hitem]

theorem ofOptional_eq (h : t.Parallel t') (hf : Respects expressions f) : ofOptional f t = ofOptional f t' := by
  unfold ofOptional
  rw [h.isLeaf_eq]
  obtain ⟨hnone, hnone'⟩ | ⟨_, _, hcs, hcs', -, hpairs⟩ := h.split?_cases [.expr]
  · simp only [hnone, hnone', h.malformed_eq]
  · obtain _ | ⟨ha, haa, _ | _⟩ := hpairs
    simp only [hcs, hcs', hf (by decide) ha haa]

theorem ofNode_eq {n : ℕ} (hn : ∀ m < n, Respects expressions (ofTree m)) (h : t.Parallel t') :
    ofNode n t = ofNode n t' := by
  cases n with
  | zero => rfl
  | succ n =>
    have hf := hn n n.lt_succ_self
    have hargs : Respects [.args] (ofArgList n) := by
      intro s hs a a' ha haa
      obtain rfl := List.mem_singleton.mp hs
      cases n with
      | zero => rfl
      | succ n =>
        rw [ofArgList, ofArgList]
        exact ofArgs_eq (haa.parallel ha (by decide)) (hn n (by omega))
    rw [ofNode, ofNode, h.symbol_eq]
    split
    · exact ofWrapped_eq h hf
    · exact ofAssign_eq h hf
    · exact ofChain_eq .comparison h hf
    · exact ofChain_eq .additive h hf
    · exact ofChain_eq .multiplicative h hf
    · exact ofUnary_eq h hf
    · exact ofCall_eq h hf hargs
    · exact ofMember_eq h hf
    · exact ofPrimary_eq h hf
    · exact ofObject_eq h hf
    · exact ofArray_eq h hf
    · rfl

theorem respects_ofTree (n : ℕ) : Respects expressions (ofTree n) := by
  induction n using Nat.strong_induction_on with
  | _ n ih =>
    intro s hs t t' ht h
    cases n with
    | zero => rfl
    | succ n =>
      rw [ofTree, ofTree]
      cases h.core_cases (Tree.ne_list_of_expression ht hs) with
      | inl heq => rw [heq]
      | inr hpar => exact ofNode_eq (fun m hm => ih m (by omega)) hpar

theorem respects_ofOptExpr (n : ℕ) : Respects [.optExpr] (ofOptExpr n) := by
  intro s hs t t' ht h
  obtain rfl := List.mem_singleton.mp hs
  cases n with
  | zero => rfl
  | succ n =>
    rw [ofOptExpr, ofOptExpr]
    exact ofOptional_eq (h.parallel ht (by decide)) (respects_ofTree n)

end Expr

/-! ## Statements -/

namespace Stmt
variable {t t' : Tree} {n : ℕ}

open Lookahead.Tree

theorem ofInit_eq (h : t.Parallel t') : ofInit (partsAt n) t = ofInit (partsAt n) t' := by
  unfold ofInit
  obtain ⟨hnone, hnone'⟩ | ⟨_, _, hcs, hcs', -, hpairs⟩ := h.split?_cases [.equals, .expr, .semicolon]
  · simp only [hnone, hnone', h.malformed_eq, h.hasShape_eq]
  · obtain _ | ⟨-, -, _ | ⟨ha, haa, _ | ⟨-, -, _ | _⟩⟩⟩ := hpairs
    simp only [hcs, hcs', partsAt, Expr.respects_ofTree n (by decide) ha haa]

theorem ofVarDecl_eq (h : t.Parallel t') : ofVarDecl (partsAt n) t = ofVarDecl (partsAt n) t' := by
  unfold ofVarDecl
  obtain ⟨hnone, hnone'⟩ | ⟨_, _, hcs, hcs', -, hpairs⟩ := h.split?_cases [.letWord, .identifier, .varInit]
  · obtain ⟨hnone₂, hnone₂'⟩ | ⟨_, _, hcs, hcs', -, hpairs⟩ :=
      h.split?_cases [.constWord, .identifier, .equals, .expr, .semicolon]
    · simp only [hnone, hnone', hnone₂, hnone₂', h.unexpected_eq]
    · obtain _ | ⟨-, -, _ | ⟨-, hname, _ | ⟨-, -, _ | ⟨ha, haa, _ | ⟨-, -, _ | _⟩⟩⟩⟩⟩ := hpairs
      simp only [hnone, hnone', hcs, hcs', partsAt, hname.lexeme_eq, Expr.respects_ofTree n (by decide) ha haa]
  · obtain _ | ⟨-, -, _ | ⟨-, hname, _ | ⟨hinit, hinit', _ | _⟩⟩⟩ := hpairs
    simp only [hcs, hcs', hname.lexeme_eq, ofInit_eq (hinit'.parallel hinit (by decide))]

theorem ofParams_eq (h : t.Parallel t') : ofParams t = ofParams t' := by
  unfold ofParams
  rw [h.isLeaf_eq]
  obtain ⟨hnone, hnone'⟩ | ⟨_, _, hcs, hcs', -, hpairs⟩ := h.split?_cases [.identifier, .paramTail]
  · simp only [hnone, hnone', h.malformed_eq]
  · obtain _ | ⟨-, ha, _ | ⟨htail, htail', _ | _⟩⟩ := hpairs
    have hrest := mapM_afterComma_eq .identifier .paramTail htail' htail (by decide) fun _ _ _ _ _ hk => hk.lexeme_eq
    simp only [hcs, hcs', ha.lexeme_eq, hrest]

theorem ofFnDecl_eq (h : t.Parallel t') (hblock : Respects [.block] (ofBlock n)) :
    ofFnDecl (partsAt n) t = ofFnDecl (partsAt n) t' := by
  unfold ofFnDecl
  obtain ⟨hnone, hnone'⟩ | ⟨_, _, hcs, hcs', -, hpairs⟩ := h.split?_cases fnShape
  · simp only [hnone, hnone', h.malformed_eq]
  · obtain _ | ⟨-, -, _ | ⟨-, hname, _ | ⟨-, -, _ | ⟨hp, hpp, _ | ⟨-, -, _ | ⟨-, -, _ | ⟨hb, hbb, _ | ⟨-, -, _ |
      _⟩⟩⟩⟩⟩⟩⟩⟩ := hpairs
    simp only [hcs, hcs', partsAt, hname.lexeme_eq, ofParams_eq (hpp.parallel hp (by decide)),
      hblock List.mem_cons_self hb hbb]

theorem ofElse_eq (h : t.Parallel t') (hblock : Respects [.block] (ofBlock n)) :
    ofElse (partsAt n) t = ofElse (partsAt n) t' := by
  unfold ofElse
  rw [h.isLeaf_eq]
  obtain ⟨hnone, hnone'⟩ | ⟨_, _, hcs, hcs', -, hpairs⟩ := h.split?_cases [.elseWord, .leftBrace, .block, .rightBrace]
  · simp only [hnone, hnone', h.malformed_eq]
  · obtain _ | ⟨-, -, _ | ⟨-, -, _ | ⟨hb, hbb, _ | ⟨-, -, _ | _⟩⟩⟩⟩ := hpairs
    simp only [hcs, hcs', partsAt, hblock List.mem_cons_self hb hbb]

theorem ofIf_eq (h : t.Parallel t') (hblock : Respects [.block] (ofBlock n)) :
    ofIf (partsAt n) t = ofIf (partsAt n) t' := by
  unfold ofIf
  obtain ⟨hnone, hnone'⟩ | ⟨_, _, hcs, hcs', -, hpairs⟩ := h.split?_cases ifShape
  · simp only [hnone, hnone', h.malformed_eq]
  · obtain _ | ⟨-, -, _ | ⟨-, -, _ | ⟨he, hee, _ | ⟨-, -, _ | ⟨-, -, _ | ⟨hb, hbb, _ | ⟨-, -, _ | ⟨hc, hcc, _ |
      _⟩⟩⟩⟩⟩⟩⟩⟩ := hpairs
    have hclause := ofElse_eq (n := n) (hcc.parallel hc (by decide)) hblock
    simp only [hcs, hcs', hclause]
    simp only [partsAt, Expr.respects_ofTree n (by decide) he hee, hblock List.mem_cons_self hb hbb]

theorem ofWhile_eq (h : t.Parallel t') (hblock : Respects [.block] (ofBlock n)) :
    ofWhile (partsAt n) t = ofWhile (partsAt n) t' := by
  unfold ofWhile
  obtain ⟨hnone, hnone'⟩ | ⟨_, _, hcs, hcs', -, hpairs⟩ := h.split?_cases whileShape
  · simp only [hnone, hnone', h.malformed_eq]
  · obtain _ | ⟨-, -, _ | ⟨-, -, _ | ⟨he, hee, _ | ⟨-, -, _ | ⟨-, -, _ | ⟨hb, hbb, _ | ⟨-, -, _ | _⟩⟩⟩⟩⟩⟩⟩ := hpairs
    simp only [hcs, hcs', partsAt, Expr.respects_ofTree n (by decide) he hee, hblock List.mem_cons_self hb hbb]

theorem ofForInit_eq (h : t.Parallel t') (hstmt : ∀ a a', Alike a a' → ofTree n a = ofTree n a') :
    ofForInit (partsAt n) t = ofForInit (partsAt n) t' := by
  obtain ⟨a, a', hcs, hcs', ha⟩ | ⟨hsingle, hsingle'⟩ := h.single_cases
  · simp only [ofForInit, hcs, hcs', partsAt, ← ha.similar.symbol_eq, hstmt a a' ha, h.unexpected_eq]
  · rw [ofForInit_of_not_single _ hsingle, ofForInit_of_not_single _ hsingle', h.unexpected_eq]

theorem ofFor_eq (h : t.Parallel t') (hblock : Respects [.block] (ofBlock n))
    (hstmt : ∀ a a', Alike a a' → ofTree n a = ofTree n a') : ofFor (partsAt n) t = ofFor (partsAt n) t' := by
  unfold ofFor
  obtain ⟨hnone, hnone'⟩ | ⟨_, _, hcs, hcs', -, hpairs⟩ := h.split?_cases forShape
  · simp only [hnone, hnone', h.malformed_eq]
  · obtain _ | ⟨-, -, _ | ⟨-, -, _ | ⟨hi, hii, _ | ⟨he, hee, _ | ⟨-, -, _ | ⟨hu, huu, _ | ⟨-, -, _ | ⟨-, -, _ |
      ⟨hb, hbb, _ | ⟨-, -, _ | _⟩⟩⟩⟩⟩⟩⟩⟩⟩⟩ := hpairs
    have hinit := ofForInit_eq (hii.parallel hi (by decide)) hstmt
    simp only [hcs, hcs', hinit]
    simp only [partsAt, Expr.respects_ofOptExpr n (by decide) he hee, Expr.respects_ofOptExpr n (by decide) hu huu,
      hblock List.mem_cons_self hb hbb]

theorem ofReturn_eq (h : t.Parallel t') : ofReturn (partsAt n) t = ofReturn (partsAt n) t' := by
  unfold ofReturn
  obtain ⟨hnone, hnone'⟩ | ⟨_, _, hcs, hcs', -, hpairs⟩ := h.split?_cases [.returnWord, .optExpr, .semicolon]
  · simp only [hnone, hnone', h.malformed_eq]
  · obtain _ | ⟨-, -, _ | ⟨ha, haa, _ | ⟨-, -, _ | _⟩⟩⟩ := hpairs
    simp only [hcs, hcs', partsAt, Expr.respects_ofOptExpr n (by decide) ha haa]

theorem ofExprStmt_eq (h : t.Parallel t') : ofExprStmt (partsAt n) t = ofExprStmt (partsAt n) t' := by
  unfold ofExprStmt
  obtain ⟨hnone, hnone'⟩ | ⟨_, _, hcs, hcs', -, hpairs⟩ := h.split?_cases [.expr, .semicolon]
  · simp only [hnone, hnone', h.malformed_eq]
  · obtain _ | ⟨ha, haa, _ | ⟨-, -, _ | _⟩⟩ := hpairs
    simp only [hcs, hcs', partsAt, Expr.respects_ofTree n (by decide) ha haa]

theorem ofStmt_eq (h : t.Parallel t') (hstmt : ∀ a a', Alike a a' → ofTree n a = ofTree n a') :
    ofStmt (partsAt n) t = ofStmt (partsAt n) t' := by
  obtain ⟨a, a', hcs, hcs', ha⟩ | ⟨hsingle, hsingle'⟩ := h.single_cases
  · simp only [ofStmt, hcs, hcs', partsAt, hstmt a a' ha]
  · rw [ofStmt_of_not_single _ hsingle, ofStmt_of_not_single _ hsingle', h.unexpected_eq]

theorem ofNode_eq {s : Symbol} (h : t.Parallel t') (hblock : Respects [.block] (ofBlock n))
    (hstmt : ∀ a a', Alike a a' → ofTree n a = ofTree n a') : ofNode (n + 1) s t = ofNode (n + 1) s t' := by
  cases s
  case stmt => exact ofStmt_eq h hstmt
  case varDecl => exact ofVarDecl_eq h
  case fnDecl => exact ofFnDecl_eq h hblock
  case ifStmt => exact ofIf_eq h hblock
  case whileStmt => exact ofWhile_eq h hblock
  case forStmt => exact ofFor_eq h hblock hstmt
  case returnStmt => exact ofReturn_eq h
  case breakStmt => simp only [ofNode, ofBreak, h.hasShape_eq, h.malformed_eq]
  case continueStmt => simp only [ofNode, ofContinue, h.hasShape_eq, h.malformed_eq]
  case exprStmt => exact ofExprStmt_eq h
  all_goals simp only [ofNode, h.symbol_eq]

theorem respects_ofList (hstmt : ∀ m < n, ∀ a a', Alike a a' → ofTree m a = ofTree m a') :
    Respects [.stmtList] (ofList n) := by
  intro s hs t t' ht h
  obtain rfl := List.mem_singleton.mp hs
  cases n with
  | zero => rfl
  | succ n =>
    rw [ofList, ofList]
    exact mapM_statements_eq h ht fun _ _ a a' _ haa => hstmt n n.lt_succ_self a a' haa

theorem respects_ofBlock (hstmt : ∀ m < n, ∀ a a', Alike a a' → ofTree m a = ofTree m a') :
    Respects [.block] (ofBlock n) := by
  intro s hs t t' ht h
  obtain rfl := List.mem_singleton.mp hs
  cases n with
  | zero => rfl
  | succ n =>
    have hpar := h.parallel ht (by decide)
    rw [ofBlock, ofBlock]
    obtain ⟨hnone, hnone'⟩ | ⟨_, _, hcs, hcs', -, hpairs⟩ := hpar.split?_cases [.stmtList]
    · simp only [hnone, hnone', hpar.malformed_eq]
    · obtain _ | ⟨hl, hll, _ | _⟩ := hpairs
      simp only [hcs, hcs']
      exact respects_ofList (fun m hm => hstmt m (by omega)) List.mem_cons_self hl hll

theorem ofTree_list {l : Symbol × Symbol × Symbol} (hl : l ∈ lists) (hs : t.symbol = l.1.name) :
    ofTree (n + 1) t = .bare <$> Expr.ofNode n t := by
  have hnode := (by decide : ∀ l ∈ lists, l.1 ∈ Symbol.nonterminals ∧ isStatement l.1 = false) l hl
  rw [ofTree, core_of_list hl hs, hs, Symbol.ofNonterminal?_name hnode.1]
  exact if_neg (by simp [hnode.2])

theorem ofNode_list {l : Symbol × Symbol × Symbol} (hl : l ∈ lists) (hs : t.symbol = l.1.name)
    (hs' : t'.symbol = l.1.name) : Expr.ofNode n t = Expr.ofNode n t' := by
  have hnode := (by decide : ∀ l ∈ lists, l.1 ∈ Symbol.nonterminals) l hl
  cases n with
  | zero => rfl
  | succ n =>
    rw [Expr.ofNode, Expr.ofNode, hs, hs', Symbol.ofNonterminal?_name hnode]
    obtain rfl | rfl := List.mem_pair.mp hl <;> rfl

theorem ofTree_eq_of_alike (n : ℕ) : ∀ t t', Alike t t' → ofTree n t = ofTree n t' := by
  induction n using Nat.strong_induction_on with
  | _ n ih =>
    intro t t' h
    cases n with
    | zero => rfl
    | succ n =>
      by_cases hlist : ∃ l ∈ lists, t.symbol = l.1.name
      · obtain ⟨l, hl, hs⟩ := hlist
        have hs' : t'.symbol = l.1.name := h.similar.symbol_eq ▸ hs
        rw [ofTree_list hl hs, ofTree_list hl hs', ofNode_list hl hs hs']
      · rw [ofTree, ofTree]
        cases h.core_cases fun l hl hs => hlist ⟨l, hl, hs⟩ with
        | inl heq => rw [heq]
        | inr hpar =>
          have hstmt : ∀ s, ofNode n s t.core = ofNode n s t'.core := by
            cases n with
            | zero => exact fun s => rfl
            | succ n =>
              exact fun s => ofNode_eq hpar (respects_ofBlock fun m hm => ih m (by omega)) (ih n (by omega))
          have hexpr : Expr.ofNode n t.core = Expr.ofNode n t'.core :=
            Expr.ofNode_eq (fun m _ => Expr.respects_ofTree m) hpar
          simp only [← hpar.symbol_eq, hstmt, hexpr]

end Stmt

/-! ## Programs -/

namespace Program

theorem ofTreeWithin_eq_of_alike {t t' : Tree} (h : t.Alike t') (limit : ℕ) :
    ofTreeWithin limit t = ofTreeWithin limit t' := by
  rw [ofTreeWithin, ofTreeWithin, ← h.similar.symbol_eq]
  split
  · have hs : t.symbol = Symbol.program.name := ‹_›
    have hpar := h.parallel hs (by decide)
    obtain ⟨hnone, hnone'⟩ | ⟨_, _, hcs, hcs', -, hpairs⟩ := hpar.split?_cases [.stmtList]
    · simp only [hnone, hnone', hpar.malformed_eq]
    · obtain _ | ⟨hl, hll, _ | _⟩ := hpairs
      have hlist := Stmt.respects_ofList (n := limit) (fun m _ => Stmt.ofTree_eq_of_alike m) List.mem_cons_self hl hll
      simp only [hcs, hcs', hlist]
  · rfl

end Program
end Lookahead
