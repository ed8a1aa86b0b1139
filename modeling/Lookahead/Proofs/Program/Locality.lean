import Lookahead.Proofs.Program.Tails

/-! What the conversion of a single node depends on. It asks for trees below the node only, so that two conversions
that agree there are as good as each other. -/
namespace Lookahead

open Script

/-! ## Spines -/

namespace Tree
variable {α : Type} {t u a c o : Tree} {l : List Symbol} {cs : List Tree}

theorem sizeOf_afterComma {item tail : Symbol} (h : a ∈ (t.afterComma item tail).items) : sizeOf a < sizeOf t := by
  fun_induction afterComma item tail t with
  | case2 s p k c b rest hshape ih =>
    simp only [node.sizeOf_spec, List.cons.sizeOf_spec]
    rcases List.mem_cons.mp h with rfl | h
    · omega
    · have := ih h
      omega
  | _ => cases h

theorem sizeOf_statements (h : a ∈ t.statements.items) : sizeOf a < sizeOf t := by
  fun_induction statements t with
  | case2 s p k b rest hshape ih =>
    simp only [node.sizeOf_spec, List.cons.sizeOf_spec]
    rcases List.mem_cons.mp h with rfl | h
    · omega
    · have := ih h
      omega
  | _ => cases h

theorem sizeOf_entries {list item tail : Symbol} (h : a ∈ (t.entries list item tail).items) : sizeOf a < sizeOf t := by
  fun_induction entries list item tail t with
  | case2 s p k b s' p' k' hshape =>
    simp only [node.sizeOf_spec, List.cons.sizeOf_spec]
    obtain rfl := List.mem_singleton.mp h
    omega
  | case3 s p k b s' p' k' c rest hshape hshape' ih =>
    simp only [node.sizeOf_spec, List.cons.sizeOf_spec]
    rcases List.mem_cons.mp h with rfl | h
    · omega
    · have := ih h
      omega
  | case4 | case5 =>
    simp only [node.sizeOf_spec, List.cons.sizeOf_spec]
    obtain rfl := List.mem_singleton.mp h
    omega
  | _ => cases h

theorem sizeOf_operations {l : Level} (h : (o, a) ∈ (t.operations l).items) : sizeOf a < sizeOf t := by
  fun_induction operations l t with
  | case2 s p k b p' k' c rest hshape ih =>
    simp only [node.sizeOf_spec, List.cons.sizeOf_spec]
    rcases List.mem_cons.mp h with h | h
    · obtain ⟨rfl, rfl⟩ := Prod.mk.inj h
      omega
    · have := ih h
      omega
  | _ => cases h

theorem sizeOf_calls (h : a ∈ t.calls.items) : sizeOf a < sizeOf t := by
  fun_induction calls t with
  | case2 s p k l b r rest hshape ih =>
    simp only [node.sizeOf_spec, List.cons.sizeOf_spec]
    rcases List.mem_cons.mp h with rfl | h
    · omega
    · have := ih h
      omega
  | _ => cases h

theorem sizeOf_accesses (h : .computed a ∈ t.accesses.items) : sizeOf a < sizeOf t := by
  fun_induction accesses t with
  | case2 s p k d b rest hshape ih =>
    simp only [node.sizeOf_spec, List.cons.sizeOf_spec]
    rcases List.mem_cons.mp h with h | h
    · cases h
    · have := ih h
      omega
  | case4 s p k l b r rest hshape ih =>
    simp only [node.sizeOf_spec, List.cons.sizeOf_spec]
    rcases List.mem_cons.mp h with h | h
    · obtain rfl := Access.computed.inj h
      omega
    · have := ih h
      omega
  | _ => cases h

theorem sizeOf_of_split? (h : t.split? l = some cs) (hc : c ∈ cs) : sizeOf c < sizeOf t := by
  rw [split?] at h
  split at h
  · exact sizeOf_child (Option.some.inj h ▸ hc)
  · cases h

/-- The two do the same on every smaller tree. -/
def AgreeBelow (t : Tree) (f g : Tree → α) : Prop := ∀ c, sizeOf c < sizeOf t → f c = g c

theorem AgreeBelow.mono {f g : Tree → α} (h : t.AgreeBelow f g) (hu : sizeOf u < sizeOf t) : u.AgreeBelow f g :=
  fun c hc => h c (hc.trans hu)

end Tree

theorem Spine.mapM_congr {α β : Type} {f g : α → Conversion β} {s : Spine α} (h : ∀ a ∈ s.items, f a = g a) :
    s.mapM f = s.mapM g := by
  have hitems : ∀ l : List α, (∀ a ∈ l, f a = g a) → l.mapM f = l.mapM g := by
    intro l
    induction l with
    | nil => exact fun _ => rfl
    | cons a l ih =>
      intro hl
      rw [List.forall_mem_cons] at hl
      rw [List.mapM_cons, List.mapM_cons, hl.1, ih hl.2]
  rw [mapM, mapM, hitems s.items h]

namespace Expr
open Lookahead.Tree
variable {t : Tree} {f g : Tree → Conversion Expr}

theorem ofWrapped_congr (h : t.AgreeBelow f g) : ofWrapped f t = ofWrapped g t := by
  unfold ofWrapped
  split
  · rename_i a hsplit
    exact h a (sizeOf_of_split? hsplit List.mem_cons_self)
  · rfl

theorem ofAssign_congr (h : t.AgreeBelow f g) : ofAssign f t = ofAssign g t := by
  unfold ofAssign
  split
  · rename_i comp tail hsplit
    rw [h comp (sizeOf_of_split? hsplit (by simp))]
    refine bind_congr fun left => ?_
    split
    · rfl
    · split
      · rename_i rest htail
        rw [h rest ((sizeOf_of_split? htail (by simp)).trans (sizeOf_of_split? hsplit (by simp)))]
      · rfl
  · rfl

theorem ofChain_congr (l : Level) (h : t.AgreeBelow f g) : ofChain f l t = ofChain g l t := by
  unfold ofChain
  split
  · rename_i operand tail hsplit
    have htail : sizeOf tail < sizeOf t := sizeOf_of_split? hsplit (by simp)
    have hitem : ∀ p ∈ (tail.operations l).items,
        (do return (← p.1.lexeme, ← f p.2) : Conversion (String × Expr)) = do return (← p.1.lexeme, ← g p.2) := by
      rintro ⟨o, a⟩ hp
      rw [h a ((sizeOf_operations hp).trans htail)]
    rw [h operand (sizeOf_of_split? hsplit (by simp)), Spine.mapM_congr hitem]
  · rfl

theorem ofUnary_congr (h : t.AgreeBelow f g) : ofUnary f t = ofUnary g t := by
  unfold ofUnary
  split
  · rename_i operator argument hchildren
    rw [h argument (sizeOf_child (by simp [hchildren]))]
  · rfl

theorem ofArgs_congr (h : t.AgreeBelow f g) : ofArgs f t = ofArgs g t := by
  unfold ofArgs
  split
  · rfl
  · split
    · rename_i a tail hsplit
      have htail : sizeOf tail < sizeOf t := sizeOf_of_split? hsplit (by simp)
      rw [h a (sizeOf_of_split? hsplit (by simp)),
        Spine.mapM_congr fun b hb => h b ((sizeOf_afterComma hb).trans htail)]
    · rfl

theorem ofCall_congr {fargs gargs : Tree → Conversion (List Expr)} (h : t.AgreeBelow f g)
    (hargs : t.AgreeBelow fargs gargs) : ofCall f fargs t = ofCall g gargs t := by
  unfold ofCall
  split
  · rename_i callee tail hsplit
    have htail : sizeOf tail < sizeOf t := sizeOf_of_split? hsplit (by simp)
    rw [h callee (sizeOf_of_split? hsplit (by simp)),
      Spine.mapM_congr fun a ha => hargs a ((sizeOf_calls ha).trans htail)]
  · rfl

theorem ofMember_congr (h : t.AgreeBelow f g) : ofMember f t = ofMember g t := by
  unfold ofMember
  split
  · rename_i primary tail hsplit
    have htail : sizeOf tail < sizeOf t := sizeOf_of_split? hsplit (by simp)
    have haccess : ∀ a ∈ tail.accesses.items, ofAccess f a = ofAccess g a := by
      intro a ha
      cases a with
      | named leaf => rfl
      | computed index => rw [ofAccess, ofAccess, h index ((sizeOf_accesses ha).trans htail)]
    rw [h primary (sizeOf_of_split? hsplit (by simp)), Spine.mapM_congr haccess]
  · rfl

theorem ofPrimary_congr (h : t.AgreeBelow f g) : ofPrimary f t = ofPrimary g t := by
  unfold ofPrimary
  split
  · rename_i a hchildren
    rw [h a (sizeOf_child (by simp [hchildren]))]
  · rfl

theorem ofProperty_congr (h : t.AgreeBelow f g) : ofProperty f t = ofProperty g t := by
  unfold ofProperty
  split
  · rename_i key value hsplit
    split
    · rfl
    · split
      · rename_i e hvalue
        rw [h e ((sizeOf_of_split? hvalue (by simp)).trans (sizeOf_of_split? hsplit (by simp)))]
      · rfl
  · rfl

theorem ofObject_congr (h : t.AgreeBelow f g) : ofObject f t = ofObject g t := by
  unfold ofObject
  split
  · rename_i list _ hsplit
    have hlist : sizeOf list < sizeOf t := sizeOf_of_split? hsplit (by simp)
    rw [Spine.mapM_congr fun a ha => ofProperty_congr (h.mono ((sizeOf_entries ha).trans hlist))]
  · rfl

theorem ofArray_congr (h : t.AgreeBelow f g) : ofArray f t = ofArray g t := by
  unfold ofArray
  split
  · rename_i list _ hsplit
    have hlist : sizeOf list < sizeOf t := sizeOf_of_split? hsplit (by simp)
    rw [Spine.mapM_congr fun a ha => h a ((sizeOf_entries ha).trans hlist)]
  · rfl

theorem ofOptional_congr (h : t.AgreeBelow f g) : ofOptional f t = ofOptional g t := by
  unfold ofOptional
  split
  · rfl
  · split
    · rename_i e hsplit
      rw [h e (sizeOf_of_split? hsplit (by simp))]
    · rfl

end Expr

namespace Stmt
variable {t : Tree} {c d : Parts}

open Lookahead.Tree

/-- Both convert the parts of statements below the tree to the same. -/
structure Parts.AgreeBelow (t : Tree) (c d : Parts) : Prop where
  expr : t.AgreeBelow c.expr d.expr
  optional : t.AgreeBelow c.optional d.optional
  stmt : t.AgreeBelow c.stmt d.stmt
  block : t.AgreeBelow c.block d.block

theorem Parts.AgreeBelow.mono {u : Tree} (h : Parts.AgreeBelow t c d) (hu : sizeOf u < sizeOf t) :
    Parts.AgreeBelow u c d :=
  ⟨h.expr.mono hu, h.optional.mono hu, h.stmt.mono hu, h.block.mono hu⟩

theorem ofStmt_congr (h : Parts.AgreeBelow t c d) : ofStmt c t = ofStmt d t := by
  unfold ofStmt
  split
  · rename_i a hchildren
    exact h.stmt a (sizeOf_child (by simp [hchildren]))
  · rfl

theorem ofInit_congr (h : Parts.AgreeBelow t c d) : ofInit c t = ofInit d t := by
  unfold ofInit
  split
  · rename_i e _ hsplit
    rw [h.expr e (sizeOf_of_split? hsplit (by simp))]
  · rfl

theorem ofVarDecl_congr (h : Parts.AgreeBelow t c d) : ofVarDecl c t = ofVarDecl d t := by
  unfold ofVarDecl
  split
  · rename_i init hsplit
    rw [ofInit_congr (h.mono (sizeOf_of_split? hsplit (by simp)))]
  · split
    · rename_i e _ hsplit
      rw [h.expr e (sizeOf_of_split? hsplit (by simp))]
    · rfl

theorem ofFnDecl_congr (h : Parts.AgreeBelow t c d) : ofFnDecl c t = ofFnDecl d t := by
  unfold ofFnDecl
  split
  · rename_i block _ hsplit
    rw [h.block block (sizeOf_of_split? hsplit (by simp))]
  · rfl

theorem ofElse_congr (h : Parts.AgreeBelow t c d) : ofElse c t = ofElse d t := by
  unfold ofElse
  split
  · rfl
  · split
    · rename_i block _ hsplit
      rw [h.block block (sizeOf_of_split? hsplit (by simp))]
    · rfl

theorem ofIf_congr (h : Parts.AgreeBelow t c d) : ofIf c t = ofIf d t := by
  unfold ofIf
  split
  · rename_i condition _ _ block _ clause hsplit
    rw [ofElse_congr (h.mono (sizeOf_of_split? hsplit (by simp))),
      h.expr condition (sizeOf_of_split? hsplit (by simp)), h.block block (sizeOf_of_split? hsplit (by simp))]
  · rfl

theorem ofWhile_congr (h : Parts.AgreeBelow t c d) : ofWhile c t = ofWhile d t := by
  unfold ofWhile
  split
  · rename_i condition _ _ block _ hsplit
    rw [h.expr condition (sizeOf_of_split? hsplit (by simp)), h.block block (sizeOf_of_split? hsplit (by simp))]
  · rfl

theorem ofForInit_congr (h : Parts.AgreeBelow t c d) : ofForInit c t = ofForInit d t := by
  unfold ofForInit
  split
  · rename_i a hchildren
    rw [h.stmt a (sizeOf_child (by simp [hchildren]))]
  · rfl

theorem ofFor_congr (h : Parts.AgreeBelow t c d) : ofFor c t = ofFor d t := by
  unfold ofFor
  split
  · rename_i init condition _ update _ _ block _ hsplit
    rw [ofForInit_congr (h.mono (sizeOf_of_split? hsplit (by simp))),
      h.optional condition (sizeOf_of_split? hsplit (by simp)), h.optional update (sizeOf_of_split? hsplit (by simp)),
      h.block block (sizeOf_of_split? hsplit (by simp))]
  · rfl

theorem ofReturn_congr (h : Parts.AgreeBelow t c d) : ofReturn c t = ofReturn d t := by
  unfold ofReturn
  split
  · rename_i value _ hsplit
    rw [h.optional value (sizeOf_of_split? hsplit (by simp))]
  · rfl

theorem ofExprStmt_congr (h : Parts.AgreeBelow t c d) : ofExprStmt c t = ofExprStmt d t := by
  unfold ofExprStmt
  split
  · rename_i e _ hsplit
    rw [h.expr e (sizeOf_of_split? hsplit (by simp))]
  · rfl

end Stmt
end Lookahead
