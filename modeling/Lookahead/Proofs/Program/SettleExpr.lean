import Lookahead.Proofs.Program.Node
import Lookahead.Proofs.Program.Tails

/-! Conversions into expressions settle on every tree, whatever its symbols, children and tokens. -/
namespace Lookahead

open Script

namespace Spine
variable {α β : Type} {good good' : Prop} {bad : ConversionFailure → Prop} {s : Spine α} {a : α}
  {f : ℕ → α → Conversion β}

@[simp] theorem mapM_done (f : α → Conversion β) : (done : Spine α).mapM f = .ok [] := rfl

@[simp] theorem mapM_broken (f : α → Conversion β) (e : ConversionFailure) :
    (broken e : Spine α).mapM f = .error e := rfl

theorem settles_push (ha : Settles good bad fun n => f n a) (hs : good → Settles good' bad fun n => s.mapM (f n)) :
    Settles good' bad fun n => (s.push a).mapM (f n) := by
  simp only [mapM_push]
  exact ha.bind fun h b => (hs h).bind fun h' bs => .ok h' (b :: bs)

end Spine

namespace Tree
variable {α : Type} {t : Tree}

/-! ## Sequences -/

/-- The items after commas are read one by one; `hitem` says what is known of one. -/
theorem settles_afterComma (item tail : Symbol) {convert : ℕ → Tree → Conversion α} (hs : t.symbol = tail.name)
    (hl : tail.isPlain = true ∧ shapes tail = [[.comma, item, tail], []]) (hrole : tail.role = .node)
    (hitem : ∀ u c a rest : Tree, sizeOf u ≤ sizeOf t → u.Node tail [.comma, item, tail] [c, a, rest] →
      Settles (Good item a) u.Blames fun n => convert n a) :
    Settles t.Sound t.Blames fun n => (t.afterComma item tail).mapM (convert n) := by
  induction hn : sizeOf t using Nat.strong_induction_on generalizing t with
  | _ n ih =>
    rw [afterComma_eq]
    obtain ⟨hleaf, hsound⟩ | ⟨hleaf, hsplit, hblames⟩ | ⟨hleaf, cs, hsplit, v⟩ := cases_of_rule_or_nil hs hl
    · simp only [hleaf]
      exact .ok hsound []
    · simp only [hleaf, hsplit]
      exact .error hblames
    · obtain _ | ⟨-, _ | ⟨-, _ | ⟨-, _ | _⟩⟩⟩ := v.symbols
      simp only [hleaf, hsplit]
      have hlt := v.sizeOf_lt 2 rfl
      have hrest := ih _ (hn ▸ hlt) (v.symbol_at 2 rfl rfl)
        (fun u c' a' rest' hu => hitem u c' a' rest' (hu.trans hlt.le)) rfl
      refine Spine.settles_push (hitem t _ _ _ le_rfl v) fun ha => ?_
      refine (v.settles_node 2 rfl rfl hrole hrest).mono (fun hr => ?_) fun _ => id
      exact v.sound (.cons trivial (.cons ha (.cons hr .nil)))

theorem settles_entries (list item tail : Symbol) {convert : ℕ → Tree → Conversion α} (hs : t.symbol = list.name)
    (hl : list.isPlain = true ∧ shapes list = [[item, tail], []])
    (hl' : tail.isPlain = true ∧ shapes tail = [[.comma, list], []])
    (hroles : list.role = .node ∧ item.role = .node ∧ tail.role = .node)
    (hitem : JudgesBelow [item] convert t) :
    Settles t.Sound t.Blames fun n => (t.entries list item tail).mapM (convert n) := by
  induction hn : sizeOf t using Nat.strong_induction_on generalizing t with
  | _ n ih =>
    rw [entries_eq]
    obtain ⟨hleaf, hsound⟩ | ⟨hleaf, hsplit, hblames⟩ | ⟨hleaf, cs, hsplit, v⟩ := cases_of_rule_or_nil hs hl
    · simp only [hleaf]
      exact .ok hsound []
    · simp only [hleaf, hsplit]
      exact .error hblames
    · obtain _ | ⟨-, _ | @⟨_, u, _, _, -, _ | _⟩⟩ := v.symbols
      simp only [hleaf, hsplit]
      refine Spine.settles_push (v.settles hitem 0 rfl rfl ⟨List.mem_cons_self, hroles.2.1⟩) fun ha => ?_
      have hfollowing : Settles u.Sound u.Blames fun n => (u.following list item tail).mapM (convert n) := by
        rw [following]
        obtain ⟨hleaf, hsound⟩ | ⟨hleaf, hsplit, hblames⟩ | ⟨hleaf, cs, hsplit, v'⟩ :=
          cases_of_rule_or_nil (v.symbol_at 1 rfl rfl) hl'
        · simp only [hleaf]
          exact .ok hsound []
        · simp only [hleaf, hsplit]
          exact .error hblames
        · obtain _ | ⟨-, _ | ⟨-, _ | _⟩⟩ := v'.symbols
          simp only [hleaf, hsplit]
          have hlt := (v'.sizeOf_lt 1 rfl).trans (v.sizeOf_lt 1 rfl)
          have hrest := ih _ (hn ▸ hlt) (v'.symbol_at 1 rfl rfl) (hitem.mono hlt.le) rfl
          refine (v'.settles_node 1 rfl rfl hroles.1 hrest).mono (fun hr => ?_) fun _ => id
          exact v'.sound (.cons trivial (.cons hr .nil))
      refine (v.settles_node 1 rfl rfl hroles.2.2 hfollowing).mono (fun hu => ?_) fun _ => id
      exact v.sound (.cons ha (.cons hu .nil))

/-! ## Operators -/

theorem settles_operations (l : Level) {convert : ℕ → Tree → Conversion Expr} (hs : t.symbol = l.tail.name)
    (h : JudgesBelow expressions convert t) : Settles t.Sound t.Blames fun n =>
      (t.operations l).mapM fun p => do return (← p.1.lexeme, ← convert n p.2) := by
  have htail : l.tail.operand? = some l.chain ∧ shapes l.tail = [[]] ∧ l.tail.role = .node := by cases l <;> decide
  have hchain : l.chain.isPlain = true ∧ shapes l.chain = [[l.operand, l.tail]] := by cases l <;> decide
  have hoperand : l.operand ∈ expressions ∧ l.operand.role = .node := by cases l <;> decide
  induction hn : sizeOf t using Nat.strong_induction_on generalizing t with
  | _ n ih =>
    cases hleaf : t.isLeaf with
    | true =>
      rw [operations_of_isLeaf hleaf]
      exact .ok (sound_of_isLeaf hs (mem_shapes.mp (htail.2.1 ▸ List.mem_cons_self)) hleaf) []
    | false =>
      have hne : ∀ m ∈ shapes l.tail, t.shape ≠ m.map Symbol.name :=
        htail.2.1 ▸ List.forall_mem_singleton.mpr (shape_ne_nil hleaf)
      by_cases hpair : ∀ o c, t.children = [o, c] → c.symbol ≠ l.chain.name
      · rw [operations_of_not_pair hleaf hpair]
        exact .error (blames_of_not_pair hs htail.1 hne hpair)
      · push Not at hpair
        obtain ⟨o, c, hchildren, hc⟩ := hpair
        have hpart : c ∈ t.parts := parts_of_pair hs htail.1 hchildren hc ▸ List.mem_cons_self
        have hlt : sizeOf c < sizeOf t := sizeOf_child (mem_children_of_parts hpart)
        rw [operations_of_pair hchildren hc]
        obtain ⟨hsplit, hblames⟩ | ⟨cs, hsplit, v⟩ := cases_of_rule hc hchain
        · simp only [hsplit]
          exact .error (hblames.of_part hpart)
        · obtain _ | @⟨_, a, _, _, -, _ | ⟨-, _ | _⟩⟩ := v.symbols
          simp only [hsplit]
          have ha := (v.settles (h.mono hlt.le) 0 rfl rfl hoperand).mono id fun _ => Blames.of_part hpart
          have hlt' := (v.sizeOf_lt 1 rfl).trans hlt
          have hrest := (v.settles_node 1 rfl rfl htail.2.2
            (ih _ (hn ▸ hlt') (v.symbol_at 1 rfl rfl) (h.mono hlt'.le) rfl)).mono id fun _ => Blames.of_part hpart
          have hitem := (settles_operator hs htail.1 hchildren hne).bind fun ho x =>
            ha.bind fun ha e => .ok (show o.token ≠ none ∧ Good l.operand a from ⟨ho, ha⟩) (x, e)
          refine Spine.settles_push hitem fun hgood => hrest.mono (fun hr => ?_) fun _ => id
          exact sound_of_pair hs htail.1 hchildren hc hgood.1 (v.sound (.cons hgood.2 (.cons hr .nil)))

/-! ## Calls and members -/

theorem settles_calls {convert : ℕ → Tree → Conversion (List Expr)} (hs : t.symbol = Symbol.callTail.name)
    (h : JudgesBelow [.args] convert t) : Settles t.Sound t.Blames fun n => t.calls.mapM (convert n) := by
  induction hn : sizeOf t using Nat.strong_induction_on generalizing t with
  | _ n ih =>
    rw [calls_eq]
    obtain ⟨hleaf, hsound⟩ | ⟨hleaf, hsplit, hblames⟩ | ⟨hleaf, cs, hsplit, v⟩ :=
      cases_of_rule_or_nil (l := [.leftParen, .args, .rightParen, .callTail]) hs (by decide)
    · simp only [hleaf]
      exact .ok hsound []
    · simp only [hleaf, hsplit]
      exact .error hblames
    · obtain _ | ⟨-, _ | ⟨-, _ | ⟨-, _ | ⟨-, _ | _⟩⟩⟩⟩ := v.symbols
      simp only [hleaf, hsplit]
      have hlt := v.sizeOf_lt 3 rfl
      have hrest := ih _ (hn ▸ hlt) (v.symbol_at 3 rfl rfl) (h.mono hlt.le) rfl
      refine Spine.settles_push (v.settles h 1 rfl rfl (by decide)) fun ha => ?_
      refine (v.settles_node 3 rfl rfl rfl hrest).mono (fun hr => ?_) fun _ => id
      exact v.sound (.cons trivial (.cons ha (.cons trivial (.cons hr .nil))))

theorem settles_accesses {convert : ℕ → Tree → Conversion Expr} (hs : t.symbol = Symbol.memberTail.name)
    (h : JudgesBelow expressions convert t) :
    Settles t.Sound t.Blames fun n => t.accesses.mapM (Expr.ofAccess (convert n)) := by
  induction hn : sizeOf t using Nat.strong_induction_on generalizing t with
  | _ n ih =>
    rw [accesses_eq]
    cases hleaf : t.isLeaf with
    | true => exact .ok (sound_of_isLeaf hs (by decide) hleaf) []
    | false =>
      obtain ⟨hsplit, hne⟩ | ⟨cs, hsplit, v⟩ := exists_node (l := [.dot, .identifier, .memberTail]) hs (by decide)
      · obtain ⟨hsplit', hne'⟩ | ⟨cs, hsplit', v⟩ :=
          exists_node (l := [.leftBracket, .expr, .rightBracket, .memberTail]) hs (by decide)
        · simp only [hsplit, hsplit']
          have hnone : ∀ m ∈ shapes .memberTail, t.shape ≠ m.map Symbol.name :=
            List.forall_mem_cons.mpr ⟨hne, List.forall_mem_cons.mpr ⟨hne', List.forall_mem_singleton.mpr
              (shape_ne_nil hleaf)⟩⟩
          exact .error (blames_of_no_shape hs ⟨rfl, rfl⟩ hnone .unexpected)
        · obtain _ | ⟨-, _ | ⟨-, _ | ⟨-, _ | ⟨-, _ | _⟩⟩⟩⟩ := v.symbols
          simp only [hsplit, hsplit']
          have hlt := v.sizeOf_lt 3 rfl
          have hrest := ih _ (hn ▸ hlt) (v.symbol_at 3 rfl rfl) (h.mono hlt.le) rfl
          refine Spine.settles_push ((v.settles h 1 rfl rfl (by decide)).bind fun ha e => .ok ha _) fun ha => ?_
          refine (v.settles_node 3 rfl rfl rfl hrest).mono (fun hr => ?_) fun _ => id
          exact v.sound (.cons trivial (.cons ha (.cons trivial (.cons hr .nil))))
      · obtain _ | ⟨-, _ | ⟨-, _ | ⟨-, _ | _⟩⟩⟩ := v.symbols
        simp only [hsplit]
        have hlt := v.sizeOf_lt 2 rfl
        have hrest := ih _ (hn ▸ hlt) (v.symbol_at 2 rfl rfl) (h.mono hlt.le) rfl
        refine Spine.settles_push ((v.settles_lexeme (by decide) 1 rfl rfl).bind fun ha x => .ok ha _) fun ha => ?_
        refine (v.settles_node 2 rfl rfl rfl hrest).mono (fun hr => ?_) fun _ => id
        exact v.sound (.cons trivial (.cons ha (.cons hr .nil)))

end Tree

/-! ## Single nodes -/

namespace Expr
variable {convert : ℕ → Tree → Conversion Expr} {t : Tree}

open Lookahead.Tree

theorem settles_ofWrapped (hs : t.symbol = Symbol.expr.name) (h : JudgesBelow expressions convert t) :
    Settles t.Sound t.Blames fun n => ofWrapped (convert n) t := by
  refine settles_of_rule [.assignExpr] hs (by decide) (fun h _ => by rw [ofWrapped, h]) fun cs hsplit v => ?_
  obtain _ | ⟨-, _ | _⟩ := v.symbols
  simp only [ofWrapped, hsplit]
  exact (v.settles h 0 rfl rfl (by decide)).mono (fun ha => v.sound (.cons ha .nil)) fun _ => id

theorem settles_ofAssign (hs : t.symbol = Symbol.assignExpr.name) (h : JudgesBelow expressions convert t) :
    Settles t.Sound t.Blames fun n => ofAssign (convert n) t := by
  refine settles_of_rule [.compExpr, .assignTail] hs (by decide) (fun h _ => by rw [ofAssign, h]) fun cs hsplit v => ?_
  obtain _ | ⟨-, _ | @⟨_, tail, _, _, -, _ | _⟩⟩ := v.symbols
  simp only [ofAssign, hsplit]
  refine (v.settles h 0 rfl rfl (by decide)).bind fun hcomp left => ?_
  have hsound : tail.Sound → t.Sound := fun htail => v.sound (.cons hcomp (.cons htail .nil))
  have hbelow := v.mem_parts 1 rfl rfl rfl
  obtain ⟨hleaf, htail⟩ | ⟨hleaf, hsplit, hblames⟩ | ⟨hleaf, cs, hsplit, v'⟩ :=
    cases_of_rule_or_nil (l := [.equals, .assignExpr]) (v.symbol_at 1 rfl rfl) (by decide)
  · simp only [hleaf]
    exact .ok (hsound htail) left
  · simp only [hleaf, hsplit]
    exact .error (hblames.of_part hbelow)
  · obtain _ | ⟨-, _ | ⟨-, _ | _⟩⟩ := v'.symbols
    simp only [hleaf, hsplit]
    have hrest := v'.settles (h.mono (v.sizeOf_lt 1 rfl).le) 1 rfl rfl (by decide)
    refine (hrest.mono id fun _ => Blames.of_part hbelow).bind fun hrest value => ?_
    exact .ok (hsound (v'.sound (.cons trivial (.cons hrest .nil)))) _

theorem settles_ofChain (l : Level) (hs : t.symbol = l.chain.name) (h : JudgesBelow expressions convert t) :
    Settles t.Sound t.Blames fun n => ofChain (convert n) l t := by
  have hchain : l.chain.isPlain = true ∧ shapes l.chain = [[l.operand, l.tail]] := by cases l <;> decide
  have hoperand : l.operand ∈ expressions ∧ l.operand.role = .node := by cases l <;> decide
  have htail : l.tail.role = .node := by cases l <;> decide
  refine settles_of_rule _ hs hchain (fun h _ => by rw [ofChain, h]) fun cs hsplit v => ?_
  obtain _ | ⟨-, _ | ⟨-, _ | _⟩⟩ := v.symbols
  simp only [ofChain, hsplit]
  refine (v.settles h 0 rfl rfl hoperand).bind fun hfirst first => ?_
  have hoperations := settles_operations l (v.symbol_at 1 rfl rfl) (h.mono (v.sizeOf_lt 1 rfl).le)
  refine (v.settles_node 1 rfl rfl htail hoperations).bind fun hrest operations => ?_
  exact .ok (v.sound (.cons hfirst (.cons hrest .nil))) _

theorem settles_ofUnary (hs : t.symbol = Symbol.unaryExpr.name) (hwrapped : t.wrapped? = none)
    (h : JudgesBelow expressions convert t) : Settles t.Sound t.Blames fun n => ofUnary (convert n) t := by
  have hne : ∀ l ∈ shapes .unaryExpr, t.shape ≠ l.map Symbol.name := by
    refine List.forall_mem_singleton.mpr fun hshape => ?_
    refine not_all_isLeaf hs (by decide) ⟨rfl, by decide⟩ hshape hwrapped ?_
    obtain ⟨c, hchildren, -⟩ := List.map_eq_singleton_iff.mp hshape
    rw [hchildren]
    rfl
  by_cases hpair : ∀ o a, t.children = [o, a] → a.symbol ≠ Symbol.unaryExpr.name
  · simp only [ofUnary_of_not_pair _ hpair]
    exact .error (blames_of_not_pair hs rfl hne hpair)
  · push Not at hpair
    obtain ⟨o, a, hchildren, ha⟩ := hpair
    have hpart : a ∈ t.parts := parts_of_pair hs rfl hchildren ha ▸ List.mem_cons_self
    have hargument := h a (sizeOf_child (mem_children_of_parts hpart)) .unaryExpr (by decide) ha
    simp only [ofUnary, hchildren, if_pos ha]
    refine (settles_operator hs rfl hchildren hne).bind fun ho operator => ?_
    refine (hargument.mono id fun _ => Blames.of_part hpart).bind fun hsound argument => ?_
    exact .ok (sound_of_pair hs rfl hchildren ha ho hsound) _

theorem settles_ofArgs (hs : t.symbol = Symbol.args.name) (h : JudgesBelow expressions convert t) :
    Settles t.Sound t.Blames fun n => ofArgs (convert n) t := by
  unfold ofArgs
  obtain ⟨hleaf, hsound⟩ | ⟨hleaf, hsplit, hblames⟩ | ⟨hleaf, cs, hsplit, v⟩ :=
    cases_of_rule_or_nil (l := [.expr, .argsTail]) hs (by decide)
  · simp only [hleaf]
    exact .ok hsound []
  · simp only [hleaf, hsplit]
    exact .error hblames
  · obtain _ | ⟨-, _ | ⟨-, _ | _⟩⟩ := v.symbols
    simp only [hleaf, hsplit]
    refine (v.settles h 0 rfl rfl (by decide)).bind fun ha first => ?_
    have htail := settles_afterComma .expr .argsTail (v.symbol_at 1 rfl rfl) (by decide) rfl
      fun u _ _ _ hu v' => v'.settles (h.mono (hu.trans (v.sizeOf_lt 1 rfl).le)) 1 rfl rfl (by decide)
    exact (v.settles_node 1 rfl rfl rfl htail).bind fun hrest rest => .ok (v.sound (.cons ha (.cons hrest .nil))) _

theorem settles_ofCall {convertArgs : ℕ → Tree → Conversion (List Expr)} (hs : t.symbol = Symbol.callExpr.name)
    (h : JudgesBelow expressions convert t) (hargs : JudgesBelow [.args] convertArgs t) :
    Settles t.Sound t.Blames fun n => ofCall (convert n) (convertArgs n) t := by
  refine settles_of_rule [.memberExpr, .callTail] hs (by decide) (fun h _ => by rw [ofCall, h]) fun cs hsplit v => ?_
  obtain _ | ⟨-, _ | ⟨-, _ | _⟩⟩ := v.symbols
  simp only [ofCall, hsplit]
  refine (v.settles h 0 rfl rfl (by decide)).bind fun hcallee caller => ?_
  have hcalls := settles_calls (v.symbol_at 1 rfl rfl) (hargs.mono (v.sizeOf_lt 1 rfl).le)
  refine (v.settles_node 1 rfl rfl rfl hcalls).bind fun hrest calls => ?_
  exact .ok (v.sound (.cons hcallee (.cons hrest .nil))) _

theorem settles_ofMember (hs : t.symbol = Symbol.memberExpr.name) (h : JudgesBelow expressions convert t) :
    Settles t.Sound t.Blames fun n => ofMember (convert n) t := by
  refine settles_of_rule [.primaryExpr, .memberTail] hs (by decide) (fun h _ => by rw [ofMember, h])
    fun cs hsplit v => ?_
  obtain _ | ⟨-, _ | ⟨-, _ | _⟩⟩ := v.symbols
  simp only [ofMember, hsplit]
  refine (v.settles h 0 rfl rfl (by decide)).bind fun hprimary base => ?_
  have haccesses := settles_accesses (v.symbol_at 1 rfl rfl) (h.mono (v.sizeOf_lt 1 rfl).le)
  refine (v.settles_node 1 rfl rfl rfl haccesses).bind fun hrest accesses => ?_
  exact .ok (v.sound (.cons hprimary (.cons hrest .nil))) _

theorem settles_ofProperty (hs : t.symbol = Symbol.prop.name) (h : JudgesBelow expressions convert t) :
    Settles t.Sound t.Blames fun n => ofProperty (convert n) t := by
  refine settles_of_rule [.identifier, .propValue] hs (by decide) (fun h _ => by rw [ofProperty, h])
    fun cs hsplit v => ?_
  obtain _ | ⟨-, _ | ⟨-, _ | _⟩⟩ := v.symbols
  simp only [ofProperty, hsplit]
  have hkey := v.settles_lexeme (by decide) 0 rfl rfl
  have hbelow := v.mem_parts 1 rfl rfl rfl
  obtain ⟨hleaf, hvalue⟩ | ⟨hleaf, hsplit, hblames⟩ | ⟨hleaf, cs, hsplit, v'⟩ :=
    cases_of_rule_or_nil (l := [.colon, .expr]) (v.symbol_at 1 rfl rfl) (by decide)
  · simp only [hleaf]
    exact hkey.bind fun hk x => .ok (v.sound (.cons hk (.cons hvalue .nil))) _
  · simp only [hleaf, hsplit]
    exact .error (hblames.of_part hbelow)
  · obtain _ | ⟨-, _ | ⟨-, _ | _⟩⟩ := v'.symbols
    simp only [hleaf, hsplit]
    refine hkey.bind fun hk x => ?_
    have he := v'.settles (h.mono (v.sizeOf_lt 1 rfl).le) 1 rfl rfl (by decide)
    refine (he.mono id fun _ => Blames.of_part hbelow).bind fun he value => ?_
    exact .ok (v.sound (.cons hk (.cons (v'.sound (.cons trivial (.cons he .nil))) .nil))) _

theorem settles_ofObject (hs : t.symbol = Symbol.objLiteral.name) (h : JudgesBelow expressions convert t) :
    Settles t.Sound t.Blames fun n => ofObject (convert n) t := by
  refine settles_of_rule [.leftBrace, .propList, .rightBrace] hs (by decide) (fun h _ => by rw [ofObject, h])
    fun cs hsplit v => ?_
  obtain _ | ⟨-, _ | @⟨_, list, _, _, -, _ | ⟨-, _ | _⟩⟩⟩ := v.symbols
  simp only [ofObject, hsplit]
  have hitem : JudgesBelow [.prop] (fun n => ofProperty (convert n)) list := by
    intro c hc r hr hsymbol
    obtain rfl := List.mem_singleton.mp hr
    exact settles_ofProperty hsymbol (h.mono (hc.trans (v.sizeOf_lt 1 rfl)).le)
  have hentries := settles_entries .propList .prop .propTail (v.symbol_at 1 rfl rfl) (by decide) (by decide)
    (by decide) hitem
  refine (v.settles_node 1 rfl rfl rfl hentries).bind fun hlist properties => ?_
  exact .ok (v.sound (.cons trivial (.cons hlist (.cons trivial .nil)))) _

theorem settles_ofArray (hs : t.symbol = Symbol.arrayLiteral.name) (h : JudgesBelow expressions convert t) :
    Settles t.Sound t.Blames fun n => ofArray (convert n) t := by
  refine settles_of_rule [.leftBracket, .elements, .rightBracket] hs (by decide) (fun h _ => by rw [ofArray, h])
    fun cs hsplit v => ?_
  obtain _ | ⟨-, _ | @⟨_, list, _, _, -, _ | ⟨-, _ | _⟩⟩⟩ := v.symbols
  simp only [ofArray, hsplit]
  have hitem : JudgesBelow [.expr] convert list := by
    intro c hc r hr
    obtain rfl := List.mem_singleton.mp hr
    exact h c (hc.trans (v.sizeOf_lt 1 rfl)) _ (by decide)
  have hentries := settles_entries .elements .expr .elementsTail (v.symbol_at 1 rfl rfl) (by decide) (by decide)
    (by decide) hitem
  refine (v.settles_node 1 rfl rfl rfl hentries).bind fun hlist elements => ?_
  exact .ok (v.sound (.cons trivial (.cons hlist (.cons trivial .nil)))) _

theorem settles_ofOptional (hs : t.symbol = Symbol.optExpr.name) (h : JudgesBelow expressions convert t) :
    Settles t.Sound t.Blames fun n => ofOptional (convert n) t := by
  unfold ofOptional
  obtain ⟨hleaf, hsound⟩ | ⟨hleaf, hsplit, hblames⟩ | ⟨hleaf, cs, hsplit, v⟩ :=
    cases_of_rule_or_nil (l := [.expr]) hs (by decide)
  · simp only [hleaf]
    exact .ok hsound none
  · simp only [hleaf, hsplit]
    exact .error hblames
  · obtain _ | ⟨-, _ | _⟩ := v.symbols
    simp only [hleaf, hsplit]
    exact (v.settles h 0 rfl rfl (by decide)).bind fun he value => .ok (v.sound (.cons he .nil)) (some value)

theorem exists_unreadable {k : Token} {f : ConversionFailure} (h : numberValue k = .error f) :
    ∃ x, f = .unreadable x := by
  unfold numberValue at h
  split at h
  · cases h
  · split at h <;> cases h
    exact ⟨k.lexeme, rfl⟩

theorem settles_number {a : Tree} (v : t.Node .primaryExpr [.number] [a]) : Settles t.Sound t.Blames fun _ =>
    match a.token with
    | some k => (do return .number (← numberValue k) : Conversion Expr)
    | none => .error t.unexpected := by
  cases hk : a.token with
  | none =>
    refine .error (v.blames_of_not_readable (by decide) 0 rfl rfl (fun ha => ?_) .unexpected)
    obtain ⟨k, x, hsome, -⟩ := ha
    simp [hk] at hsome
  | some k =>
    dsimp only
    cases hvalue : numberValue k with
    | ok x => exact .ok (v.sound (.cons ⟨k, x, hk, hvalue⟩ .nil)) _
    | error f =>
      obtain ⟨x, rfl⟩ := exists_unreadable hvalue
      have hcharge : t.Charges (.unreadable x) :=
        .unreadable (v.mem_children 0 rfl) (v.symbol_at 0 rfl rfl) hk hvalue
      refine .error (v.blames_of_not_readable (by decide) 0 rfl rfl (fun ha => ?_) hcharge)
      obtain ⟨k', y, hsome, hy⟩ := ha
      obtain rfl := Option.some.inj (hk.symm.trans hsome)
      rw [hvalue] at hy
      cases hy

theorem settles_string {a : Tree} (v : t.Node .primaryExpr [.string] [a]) : Settles t.Sound t.Blames fun _ =>
    match a.token with
    | some k => (return .string (stringValue k) : Conversion Expr)
    | none => .error t.unexpected := by
  cases hk : a.token with
  | none => exact .error (v.blames_of_not_readable (by decide) 0 rfl rfl (fun ha => ha hk) .unexpected)
  | some k => exact .ok (v.sound (.cons (show a.token ≠ none by simp [hk]) .nil)) _

theorem blames_of_primary (hs : t.symbol = Symbol.primaryExpr.name) (hwrapped : t.wrapped? = none)
    (hne : ∀ l ∈ shapes .primaryExpr, t.shape ≠ l.map Symbol.name) : t.Blames t.unexpected := by
  refine .self (fun hfits => ?_) .unexpected
  cases hfits with
  | rule hs' hl hshape =>
    obtain rfl := Symbol.name_injective (hs.symm.trans hs')
    exact hne _ (mem_shapes.mpr hl) hshape
  | group _ hshape hleaves => exact not_all_isLeaf hs (by decide) ⟨rfl, by decide⟩ hshape hwrapped hleaves
  | operation hs' hr =>
    obtain rfl := Symbol.name_injective (hs.symm.trans hs')
    cases hr
  | statement hs' => exact absurd (Symbol.name_injective (hs.symm.trans hs')) (by decide)

theorem settles_ofPrimary (hs : t.symbol = Symbol.primaryExpr.name) (hwrapped : t.wrapped? = none)
    (h : JudgesBelow expressions convert t) : Settles t.Sound t.Blames fun n => ofPrimary (convert n) t := by
  have hblames : (∀ a, t.children = [a] → ∀ r ∈ [Symbol.identifier, .number, .string, .objLiteral, .arrayLiteral],
      a.symbol ≠ r.name) → t.Blames t.unexpected :=
    fun hne => blames_of_primary hs hwrapped (shape_ne_single hne)
  by_cases hsingle : ∀ a, t.children ≠ [a]
  · simp only [ofPrimary_of_not_single _ hsingle]
    exact .error (hblames fun a hchildren => absurd hchildren (hsingle a))
  · push Not at hsingle
    obtain ⟨a, hchildren⟩ := hsingle
    have hnode : ∀ r : Symbol, a.symbol = r.name → (.primaryExpr, [r]) ∈ plainRules → t.Node .primaryExpr [r] [a] :=
      fun r hr hrule => ⟨hs, hchildren, by simp [hr], hrule⟩
    simp only [ofPrimary, hchildren]
    split_ifs with hident hnumber hstring hliteral
    · have v := hnode .identifier hident (by decide)
      exact (v.settles_lexeme (by decide) 0 rfl rfl).bind fun ha x => .ok (v.sound (.cons ha .nil)) _
    · exact settles_number (hnode .number hnumber (by decide))
    · exact settles_string (hnode .string hstring (by decide))
    · obtain hobject | harray := hliteral
      · have v := hnode .objLiteral hobject (by decide)
        exact (v.settles h 0 rfl rfl (by decide)).mono (fun ha => v.sound (.cons ha .nil)) fun _ => id
      · have v := hnode .arrayLiteral harray (by decide)
        exact (v.settles h 0 rfl rfl (by decide)).mono (fun ha => v.sound (.cons ha .nil)) fun _ => id
    · refine .error (hblames fun b hb => ?_)
      obtain rfl : a = b := by simpa using hchildren.symm.trans hb
      simpa [hident, hnumber, hstring] using hliteral

/-! ## Trees -/

/-- A node that is no wrapper. -/
theorem settles_ofNode {s : Symbol} (hs : t.symbol = s.name) (hmem : s ∈ expressions) (hwrapped : t.wrapped? = none)
    (h : JudgesBelow expressions ofTree t) : Settles t.Sound t.Blames fun n => ofNode n t := by
  have hargs : JudgesBelow [.args] ofArgList t := by
    intro c hc r hr hsymbol
    obtain rfl := List.mem_singleton.mp hr
    exact (settles_ofArgs hsymbol (h.mono hc.le)).deeper rfl fun n => by rw [ofArgList]
  have hnode : s ∈ Symbol.nonterminals := (by decide : ∀ r ∈ expressions, r ∈ Symbol.nonterminals) s hmem
  refine Settles.deeper (x := fun n => ofNode (n + 1) t) ?_ rfl fun _ => rfl
  simp only [ofNode, hs, Symbol.ofNonterminal?_name hnode]
  cases s
  case expr => exact settles_ofWrapped hs h
  case assignExpr => exact settles_ofAssign hs h
  case compExpr => exact settles_ofChain .comparison hs h
  case addExpr => exact settles_ofChain .additive hs h
  case mulExpr => exact settles_ofChain .multiplicative hs h
  case unaryExpr => exact settles_ofUnary hs hwrapped h
  case callExpr => exact settles_ofCall hs h hargs
  case memberExpr => exact settles_ofMember hs h
  case primaryExpr => exact settles_ofPrimary hs hwrapped h
  case objLiteral => exact settles_ofObject hs h
  case arrayLiteral => exact settles_ofArray hs h
  all_goals exact absurd hmem (by decide)

theorem settles_ofNode_of_not_expression (h : ∀ r ∈ expressions, t.symbol ≠ r.name) :
    Settles False (· = .fault (.noConversion t.symbol)) fun n => ofNode n t := by
  refine Settles.deeper (x := fun n => ofNode (n + 1) t) ?_ rfl fun _ => rfl
  simp only [ofNode]
  cases hs : Symbol.ofNonterminal? t.symbol with
  | none => exact .error rfl
  | some s =>
    have hexpr : s ∉ expressions := fun hmem => h s hmem (Symbol.ofNonterminal?_eq_some.mp hs).2
    cases s <;> first | exact absurd (by decide) hexpr | exact .error rfl

theorem judges_ofTree {s : Symbol} (hs : t.symbol = s.name) (hmem : s ∈ expressions) : Judges ofTree t := by
  induction hn : sizeOf t using Nat.strong_induction_on generalizing t s with
  | _ n ih =>
    have h : JudgesBelow expressions ofTree t := fun c hc r hr hsymbol => ih _ (hn ▸ hc) hsymbol hr rfl
    cases hwrapped : t.wrapped? with
    | some c =>
      have w := wraps_of_wrapped hwrapped
      obtain ⟨r, hr, hsymbol⟩ := w.expression
      have hc := h c (sizeOf_child (wrapped?_mem hwrapped)) r hr hsymbol
      have hfun : (fun n => ofTree n t) = fun n => ofTree n c := funext fun n => ofTree_of_wrapped hwrapped n
      rw [Judges, hfun]
      exact hc.mono w.sound fun _ => Blames.of_part w.mem_parts
    | none =>
      refine (settles_ofNode hs hmem hwrapped h).deeper rfl fun n => ?_
      rw [ofTree, core_of_none hwrapped]

theorem judgesBelow_ofTree (t : Tree) : JudgesBelow expressions ofTree t :=
  fun _ _ _ hmem hs => judges_ofTree hs hmem

theorem judges_ofOptExpr (hs : t.symbol = Symbol.optExpr.name) : Judges ofOptExpr t :=
  (settles_ofOptional hs (judgesBelow_ofTree t)).deeper rfl fun n => by rw [ofOptExpr]

end Expr
end Lookahead
