import Lookahead.Proofs.Program.Locality
import Lookahead.Proofs.Program.SettleStmt

/-! Conversion level by level. Every node of the ladder goes through the conversion of its own level, also where it is
a wrapper. It gives what the conversion gives that first looks for the node under all wrappers. -/
namespace Lookahead

open Script

/-! ## Faults and limits -/

theorem noConversion_ne_tooDeep {s : String} : ConversionFailure.fault (.noConversion s) ≠ tooDeep :=
  fun h => TreeFault.noConfusion (ConversionFailure.fault.inj h)

/-- The result from some limit on is the one on which it settles, at that limit or below. -/
theorem Settles.eq_within {α : Type} {x : ℕ → Conversion α} {r : Conversion α} (h : Settles True (· ≠ tooDeep) x)
    {m : ℕ} (hm : ∀ n, m ≤ n → x n = r) : r ≠ .error tooDeep ∧ ∃ d ≤ m, ∀ n, x n = within d n r := by
  obtain ⟨d, r', hr, hsays⟩ := h
  have heq : r' = r := by rw [← hm (max d m) (le_max_right d m), hr, within, if_pos (le_max_left d m)]
  subst heq
  have hne : r' ≠ .error tooDeep := by
    rintro rfl
    exact hsays rfl
  refine ⟨hne, d, ?_, hr⟩
  by_contra hlt
  have hdeep := hr m
  rw [within, if_neg hlt, hm m le_rfl] at hdeep
  exact hne hdeep

namespace Tree

theorem Blames.ne_tooDeep {t : Tree} {f : ConversionFailure} (h : t.Blames f) : f ≠ tooDeep := by
  obtain ⟨u, -, -, hcharge⟩ := h
  cases hcharge <;> exact fun heq => by cases heq

theorem sizeOf_pos (t : Tree) : 0 < sizeOf t := by
  cases t with
  | node s p k cs =>
    rw [node.sizeOf_spec]
    omega

end Tree

/-! ## Expressions -/

namespace Expr

open Lookahead.Tree

/-- The level of prefix operators, where a call may stand alone. -/
def ofUnaryLevel (convert : Tree → Conversion Expr) (t : Tree) : Conversion Expr :=
  match t.split? [.callExpr] with
  | some [c] => convert c
  | _ => ofUnary convert t

/-- The last level, where an expression may stand in parentheses; below these there is nothing. -/
def ofPrimaryLevel (convert : Tree → Conversion Expr) (t : Tree) : Conversion Expr :=
  match t.split? groupShape with
  | some [a, e, b] => if a.isLeaf && b.isLeaf then convert e else ofPrimary convert t
  | _ => ofPrimary convert t

/-- The expression of a node by its level. -/
def ofLevel (convert : Tree → Conversion Expr) (t : Tree) : Conversion Expr :=
  match Symbol.ofNonterminal? t.symbol with
  | some .expr => ofWrapped convert t
  | some .assignExpr => ofAssign convert t
  | some .compExpr => ofChain convert .comparison t
  | some .addExpr => ofChain convert .additive t
  | some .mulExpr => ofChain convert .multiplicative t
  | some .unaryExpr => ofUnaryLevel convert t
  | some .callExpr => ofCall convert (ofArgs convert) t
  | some .memberExpr => ofMember convert t
  | some .primaryExpr => ofPrimaryLevel convert t
  | some .objLiteral => ofObject convert t
  | some .arrayLiteral => ofArray convert t
  | _ => .error (.fault (.noConversion t.symbol))

/-- The expression of a tree, one level after the other and without a limit. -/
noncomputable def walk (t : Tree) : Conversion Expr :=
  ofLevel (fun c => if _h : sizeOf c < sizeOf t then walk c else .error tooDeep) t
termination_by sizeOf t

variable {t c : Tree} {f g : Tree → Conversion Expr} {n : ℕ}

theorem ofUnaryLevel_congr (h : t.AgreeBelow f g) : ofUnaryLevel f t = ofUnaryLevel g t := by
  unfold ofUnaryLevel
  split
  · rename_i c hsplit
    exact h c (sizeOf_of_split? hsplit List.mem_cons_self)
  · exact ofUnary_congr h

theorem ofPrimaryLevel_congr (h : t.AgreeBelow f g) : ofPrimaryLevel f t = ofPrimaryLevel g t := by
  unfold ofPrimaryLevel
  split
  · rename_i e _ hsplit
    rw [h e (sizeOf_of_split? hsplit (by simp)), ofPrimary_congr h]
  · exact ofPrimary_congr h

theorem ofLevel_congr (h : t.AgreeBelow f g) : ofLevel f t = ofLevel g t := by
  unfold ofLevel
  split
  · exact ofWrapped_congr h
  · exact ofAssign_congr h
  · exact ofChain_congr .comparison h
  · exact ofChain_congr .additive h
  · exact ofChain_congr .multiplicative h
  · exact ofUnaryLevel_congr h
  · exact ofCall_congr h fun c hc => ofArgs_congr (h.mono hc)
  · exact ofMember_congr h
  · exact ofPrimaryLevel_congr h
  · exact ofObject_congr h
  · exact ofArray_congr h
  · rfl

theorem walk_eq (t : Tree) : walk t = ofLevel walk t := by
  rw [walk]
  exact ofLevel_congr fun c hc => dif_pos hc

/-- Nothing else goes level by level. -/
theorem eq_walk (h : ∀ t, f t = ofLevel f t) (t : Tree) : f t = walk t := by
  induction hn : sizeOf t using Nat.strong_induction_on generalizing t with
  | _ n ih =>
    rw [h, walk_eq]
    exact ofLevel_congr fun c hc => ih _ (hn ▸ hc) c rfl

/-! ### Wrappers -/

section Pair
variable {b : Tree}

theorem ofAssign_of_isLeaf (hsplit : t.split? [.compExpr, .assignTail] = some [c, b]) (hb : b.isLeaf = true) :
    ofAssign f t = f c := by
  simp only [ofAssign, hsplit, hb, if_true]
  exact bind_pure _

theorem ofChain_of_isLeaf (l : Level) (hsplit : t.split? [l.operand, l.tail] = some [c, b]) (hb : b.isLeaf = true) :
    ofChain f l t = f c := by
  simp only [ofChain, hsplit, operations_of_isLeaf hb, Spine.mapM_done, ok_bind]
  exact bind_pure _

theorem ofCall_of_isLeaf {convertArgs : Tree → Conversion (List Expr)}
    (hsplit : t.split? [.memberExpr, .callTail] = some [c, b]) (hb : b.isLeaf = true) :
    ofCall f convertArgs t = f c := by
  have htail : b.calls = .done := by rw [calls_eq, if_pos hb]
  simp only [ofCall, hsplit, htail, Spine.mapM_done, ok_bind]
  exact bind_pure _

theorem ofMember_of_isLeaf (hsplit : t.split? [.primaryExpr, .memberTail] = some [c, b]) (hb : b.isLeaf = true) :
    ofMember f t = f c := by
  have htail : b.accesses = .done := by rw [accesses_eq, if_pos hb]
  simp only [ofMember, hsplit, htail, Spine.mapM_done, ok_bind]
  exact bind_pure _

end Pair

theorem ofUnaryLevel_eq (hs : t.symbol = Symbol.unaryExpr.name) (hw : t.wrapped? = none) :
    ofUnaryLevel f t = ofUnary f t := by
  unfold ofUnaryLevel
  obtain ⟨hsplit, -⟩ | ⟨-, hshape⟩ := t.split?_cases [.callExpr]
  · rw [hsplit]
  · refine absurd ?_ (not_all_isLeaf hs (by decide) ⟨rfl, by decide⟩ hshape hw)
    obtain ⟨c, hchildren, -⟩ := List.map_eq_singleton_iff.mp hshape
    rw [hchildren]
    rfl

theorem ofPrimaryLevel_eq (hs : t.symbol = Symbol.primaryExpr.name) (hw : t.wrapped? = none) :
    ofPrimaryLevel f t = ofPrimary f t := by
  unfold ofPrimaryLevel
  obtain ⟨hsplit, -⟩ | ⟨hsplit, hshape⟩ := t.split?_cases groupShape
  · rw [hsplit]
  · have hlength : t.children.length = 3 := by simpa [shape, groupShape] using congrArg List.length hshape
    obtain ⟨a, e, b, hchildren⟩ := List.length_eq_three.mp hlength
    have hleaves := not_all_isLeaf hs (by decide) ⟨rfl, by decide⟩ hshape hw
    rw [hchildren] at hsplit hleaves
    rw [hsplit]
    exact if_neg (by simpa using hleaves)

/-- A wrapper stands for what it wraps at every level. -/
theorem ofLevel_of_wrapped (f : Tree → Conversion Expr) (h : t.wrapped? = some c) : ofLevel f t = f c := by
  obtain ⟨s, l, i, hs, hw, hshape, hleaves, hc⟩ := exists_of_wrapped h
  have hnode : s ∈ Symbol.nonterminals := by cases s <;> first | decide | cases hw
  have hsplit : t.split? l = some t.children := by rw [split?, hasShape, decide_eq_true hshape, if_pos rfl]
  have hlength : t.children.length = l.length := by simpa [shape] using congrArg List.length hshape
  rw [ofLevel, hs, Symbol.ofNonterminal?_name hnode]
  cases s <;> cases hw
  case expr =>
    rw [eq_single hlength hc] at hsplit
    simp only [ofWrapped, hsplit]
  case unaryExpr =>
    rw [eq_single hlength hc] at hsplit
    simp only [ofUnaryLevel, hsplit]
  case primaryExpr =>
    obtain ⟨a, b, hchildren, ha, hb⟩ := eq_triple hlength hleaves hc
    rw [hchildren] at hsplit
    simp only [ofPrimaryLevel, groupShape, hsplit, ha, hb, Bool.and_self, if_true]
  all_goals
    obtain ⟨b, hchildren, hb⟩ := eq_pair hlength hleaves hc
    rw [hchildren] at hsplit
  case assignExpr => exact ofAssign_of_isLeaf hsplit hb
  case compExpr => exact ofChain_of_isLeaf .comparison hsplit hb
  case addExpr => exact ofChain_of_isLeaf .additive hsplit hb
  case mulExpr => exact ofChain_of_isLeaf .multiplicative hsplit hb
  case callExpr => exact ofCall_of_isLeaf hsplit hb
  case memberExpr => exact ofMember_of_isLeaf hsplit hb

/-- What is no wrapper goes through the conversion of its level in any case. -/
theorem ofNode_eq_ofLevel (hw : t.wrapped? = none) (h : t.AgreeBelow (ofTree n) f)
    (hargs : t.AgreeBelow (ofArgList n) (ofArgs f)) : ofNode (n + 1) t = ofLevel f t := by
  rw [ofNode, ofLevel]
  cases hs : Symbol.ofNonterminal? t.symbol with
  | none => rfl
  | some s =>
    obtain ⟨-, hname⟩ := Symbol.ofNonterminal?_eq_some.mp hs
    cases s
    case expr => exact ofWrapped_congr h
    case assignExpr => exact ofAssign_congr h
    case compExpr => exact ofChain_congr .comparison h
    case addExpr => exact ofChain_congr .additive h
    case mulExpr => exact ofChain_congr .multiplicative h
    case unaryExpr => exact (ofUnary_congr h).trans (ofUnaryLevel_eq hname hw).symm
    case callExpr => exact ofCall_congr h hargs
    case memberExpr => exact ofMember_congr h
    case primaryExpr => exact (ofPrimary_congr h).trans (ofPrimaryLevel_eq hname hw).symm
    case objLiteral => exact ofObject_congr h
    case arrayLiteral => exact ofArray_congr h
    all_goals rfl

/-- A limit of twice the size of the tree is large enough, as every node takes two conversions. -/
theorem ofTree_eq_walk (t : Tree) : ∀ n, 2 * sizeOf t ≤ n → ofTree n t = walk t := by
  induction hm : sizeOf t using Nat.strong_induction_on generalizing t with
  | _ m ih =>
    intro n hn
    rw [walk_eq]
    cases hw : t.wrapped? with
    | some c =>
      have hc : sizeOf c < m := hm ▸ sizeOf_child (wrapped?_mem hw)
      rw [ofTree_of_wrapped hw, ofLevel_of_wrapped walk hw]
      exact ih _ hc c rfl n (by omega)
    | none =>
      have hpos := hm ▸ t.sizeOf_pos
      obtain ⟨k, rfl⟩ : ∃ k, n = k + 2 := ⟨n - 2, by omega⟩
      rw [ofTree, core_of_none hw]
      have hexpr : t.AgreeBelow (ofTree k) walk := fun c hc => ih _ (hm ▸ hc) c rfl k (by omega)
      refine ofNode_eq_ofLevel hw hexpr fun c hc => ?_
      -- A list of arguments is one conversion more, and the arguments are two nodes below.
      have hpos' := c.sizeOf_pos
      obtain ⟨j, rfl⟩ : ∃ j, k = j + 1 := ⟨k - 1, by omega⟩
      rw [ofArgList]
      exact ofArgs_congr fun a ha => ih _ (by omega) a rfl j (by omega)

/-- Too deep is said of the limit alone, never of a tree. -/
theorem ofTree_settles (t : Tree) : Settles True (· ≠ tooDeep) fun n => ofTree n t := by
  by_cases h : ∃ r ∈ expressions, t.symbol = r.name
  · obtain ⟨r, hr, hs⟩ := h
    exact (judges_ofTree hs hr).mono (fun _ => trivial) fun f hf => hf.ne_tooDeep
  · push Not at h
    have hnode : Settles False (· = .fault (.noConversion t.symbol)) fun n => ofTree n t :=
      (settles_ofNode_of_not_expression h).deeper rfl fun n => by rw [ofTree, core_of_none (wrapped?_of_not_expression h)]
    exact hnode.mono False.elim fun f hf => hf ▸ noConversion_ne_tooDeep

end Expr

/-! ## Statements -/

namespace Stmt

open Lookahead.Tree

def ofBody (convert : Tree → Conversion Stmt) (t : Tree) : Conversion (List Stmt) :=
  match t.split? [.stmtList] with
  | some [list] => list.statements.mapM convert
  | _ => .error (t.malformed [.stmtList])

/-- The parts of a statement with the expressions level by level. -/
noncomputable def Parts.walking (convert : Tree → Conversion Stmt) : Parts :=
  ⟨Expr.walk, Expr.ofOptional Expr.walk, convert, ofBody convert⟩

/-- The statement of a node by its level. -/
def ofLevel (c : Parts) (t : Tree) : Conversion Stmt :=
  match Symbol.ofNonterminal? t.symbol with
  | some .stmt => ofStmt c t
  | some .varDecl => ofVarDecl c t
  | some .fnDecl => ofFnDecl c t
  | some .ifStmt => ofIf c t
  | some .whileStmt => ofWhile c t
  | some .forStmt => ofFor c t
  | some .returnStmt => ofReturn c t
  | some .breakStmt => ofBreak t
  | some .continueStmt => ofContinue t
  | some .exprStmt => ofExprStmt c t
  | _ => .bare <$> Expr.ofLevel c.expr t

/-- The statement of a tree, one level after the other and without a limit. -/
noncomputable def walk (t : Tree) : Conversion Stmt :=
  ofLevel (.walking fun c => if _h : sizeOf c < sizeOf t then walk c else .error tooDeep) t
termination_by sizeOf t

variable {t c : Tree} {f g : Tree → Conversion Stmt} {a b : Parts} {n : ℕ}

theorem ofBody_congr (h : t.AgreeBelow f g) : ofBody f t = ofBody g t := by
  unfold ofBody
  split
  · rename_i list hsplit
    exact Spine.mapM_congr fun s hs => h s ((sizeOf_statements hs).trans (sizeOf_of_split? hsplit (by simp)))
  · rfl

theorem Parts.walking_congr (h : t.AgreeBelow f g) : Parts.AgreeBelow t (.walking f) (.walking g) :=
  ⟨fun _ _ => rfl, fun _ _ => rfl, h, fun _ hc => ofBody_congr (h.mono hc)⟩

theorem ofLevel_congr (h : Parts.AgreeBelow t a b) : ofLevel a t = ofLevel b t := by
  unfold ofLevel
  split
  · exact ofStmt_congr h
  · exact ofVarDecl_congr h
  · exact ofFnDecl_congr h
  · exact ofIf_congr h
  · exact ofWhile_congr h
  · exact ofFor_congr h
  · exact ofReturn_congr h
  · rfl
  · rfl
  · exact ofExprStmt_congr h
  · rw [Expr.ofLevel_congr h.expr]

theorem walk_eq (t : Tree) : walk t = ofLevel (.walking walk) t := by
  rw [walk]
  exact ofLevel_congr (Parts.walking_congr fun c hc => dif_pos hc)

/-- Nothing else goes level by level. -/
theorem eq_walk (h : ∀ t, f t = ofLevel (.walking f) t) (t : Tree) : f t = walk t := by
  induction hn : sizeOf t using Nat.strong_induction_on generalizing t with
  | _ n ih =>
    rw [h, walk_eq]
    exact ofLevel_congr (Parts.walking_congr fun c hc => ih _ (hn ▸ hc) c rfl)

/-- An expression where a statement is due is walked as it is elsewhere. -/
theorem walk_of_expression {r : Symbol} (hs : t.symbol = r.name) (hr : r ∈ expressions) :
    walk t = .bare <$> Expr.walk t := by
  have hnode : r ∈ Symbol.nonterminals := by cases r <;> first | decide | exact absurd hr (by decide)
  rw [walk_eq, Expr.walk_eq, ofLevel, hs, Symbol.ofNonterminal?_name hnode]
  cases r <;> first | rfl | exact absurd hr (by decide)

theorem walk_of_wrapped (h : t.wrapped? = some c) : walk t = walk c := by
  obtain ⟨s, l, i, hs, hw, -⟩ := exists_of_wrapped h
  have hs' : s ∈ expressions := by cases s <;> first | decide | cases hw
  obtain ⟨r, hr, hc⟩ := (wraps_of_wrapped h).expression
  rw [walk_of_expression hs hs', walk_of_expression hc hr, Expr.walk_eq, Expr.ofLevel_of_wrapped Expr.walk h]

theorem ofBlock_succ (n : ℕ) (t : Tree) : ofBlock (n + 2) t = ofBody (ofTree n) t := rfl

/-- A limit that is enough for a statement is enough for all its parts. -/
theorem partsAt_agreeBelow (hn : 2 * sizeOf t ≤ n + 2)
    (h : ∀ k c, sizeOf c < sizeOf t → 2 * sizeOf c ≤ k → ofTree k c = f c) :
    Parts.AgreeBelow t (partsAt n) (.walking f) where
  expr c hc := Expr.ofTree_eq_walk c n (by omega)
  optional c hc := by
    have hpos := c.sizeOf_pos
    obtain ⟨k, rfl⟩ : ∃ k, n = k + 1 := ⟨n - 1, by omega⟩
    exact Expr.ofOptional_congr fun e he => Expr.ofTree_eq_walk e k (by omega)
  stmt c hc := h n c hc (by omega)
  block c hc := by
    have hpos := c.sizeOf_pos
    obtain ⟨k, rfl⟩ : ∃ k, n = k + 2 := ⟨n - 2, by omega⟩
    exact (ofBlock_succ k c).trans (ofBody_congr fun s hs => h k s (hs.trans hc) (by omega))

theorem ofTree_eq_walk (t : Tree) : ∀ n, 2 * sizeOf t ≤ n → ofTree n t = walk t := by
  induction hm : sizeOf t using Nat.strong_induction_on generalizing t with
  | _ m ih =>
    intro n hn
    cases hw : t.wrapped? with
    | some c =>
      have hc : sizeOf c < m := hm ▸ sizeOf_child (wrapped?_mem hw)
      rw [ofTree_of_wrapped hw, walk_of_wrapped hw]
      exact ih _ hc c rfl n (by omega)
    | none =>
      have hpos := hm ▸ t.sizeOf_pos
      obtain ⟨k, rfl⟩ : ∃ k, n = k + 2 := ⟨n - 2, by omega⟩
      have hparts : Parts.AgreeBelow t (partsAt k) (.walking walk) :=
        partsAt_agreeBelow (by omega) fun j c hc => ih _ (hm ▸ hc) c rfl j
      have hexpr : Expr.ofNode (k + 1) t = Expr.ofLevel Expr.walk t := by
        rw [← Expr.walk_eq, ← Expr.ofTree_eq_walk t (k + 2) (by omega), Expr.ofTree, core_of_none hw]
      rw [walk_eq, ofTree, core_of_none hw, ofLevel]
      cases hs : Symbol.ofNonterminal? t.symbol with
      | none =>
        dsimp only [Parts.walking]
        rw [Expr.ofLevel, hs]
        rfl
      | some s =>
        cases s
        case stmt => exact ofStmt_congr hparts
        case varDecl => exact ofVarDecl_congr hparts
        case fnDecl => exact ofFnDecl_congr hparts
        case ifStmt => exact ofIf_congr hparts
        case whileStmt => exact ofWhile_congr hparts
        case forStmt => exact ofFor_congr hparts
        case returnStmt => exact ofReturn_congr hparts
        case breakStmt | continueStmt => rfl
        case exprStmt => exact ofExprStmt_congr hparts
        all_goals exact congrArg (bare <$> ·) hexpr

theorem ofTree_settles (t : Tree) : Settles True (· ≠ tooDeep) fun n => ofTree n t := by
  by_cases h : ∃ r ∈ converted, t.symbol = r.name
  · obtain ⟨r, hr, hs⟩ := h
    exact (judges_ofTree hs hr).mono (fun _ => trivial) fun f hf => hf.ne_tooDeep
  · push Not at h
    exact (settles_of_not_converted h).mono False.elim fun f hf => hf ▸ noConversion_ne_tooDeep

end Stmt

/-- At every place, that of an expression or that of a statement, every tree converts to what walking its levels one
after the other gives, an expression or statement or the fault of a node, if enough conversions may be under way at
once, and is too deep otherwise. Two for each unit of the tree's size are enough. -/
theorem ofTree_eq_within_walk (t : Tree) :
    (Expr.walk t ≠ .error tooDeep ∧ ∃ d ≤ 2 * sizeOf t, ∀ n, Expr.ofTree n t = within d n (Expr.walk t)) ∧
      (Stmt.walk t ≠ .error tooDeep ∧ ∃ d ≤ 2 * sizeOf t, ∀ n, Stmt.ofTree n t = within d n (Stmt.walk t)) :=
  ⟨(Expr.ofTree_settles t).eq_within (Expr.ofTree_eq_walk t), (Stmt.ofTree_settles t).eq_within (Stmt.ofTree_eq_walk t)⟩

end Lookahead
