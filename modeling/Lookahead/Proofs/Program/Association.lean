import Lookahead.Proofs.Program.Verdict

/-! Which way operators associate. The grammar has every chain of operands to the right; binary operators are folded to
the left all the same, and assignments stay as they are. -/
namespace Lookahead

open Script

/-! ## Chains of operands -/

/-- A chain of binary operators at one level: the first operand, and the operators with the operands after them. -/
inductive OperatorChain (l : Level) : Tree → Tree → List (String × Tree) → Prop
  | last {a p k q j} : a.symbol = l.operand.name →
      OperatorChain l (.node l.chain.name p k [a, .node l.tail.name q j []]) a []
  | more {a p k q j o x T b ops} : a.symbol = l.operand.name → o.lexeme = .ok x → OperatorChain l T b ops →
      OperatorChain l (.node l.chain.name p k [a, .node l.tail.name q j [o, T]]) a ((x, b) :: ops)

/-- A chain of assignments: the first operand, and the operands after it. -/
inductive AssignChain : Tree → Tree → List Tree → Prop
  | last {a p k q j} : a.symbol = Symbol.compExpr.name →
      AssignChain (.node Symbol.assignExpr.name p k [a, .node Symbol.assignTail.name q j []]) a []
  | more {a p k q j o T b rest} : a.symbol = Symbol.compExpr.name → o.symbol = Symbol.equals.name →
      AssignChain T b rest →
      AssignChain (.node Symbol.assignExpr.name p k [a, .node Symbol.assignTail.name q j [o, T]]) a (b :: rest)

/-- The right fold of a chain of assignments. -/
def Expr.nest : Expr → List Expr → Expr
  | e, [] => e
  | e, e' :: es => .assign e (nest e' es)

/-- The operands convert to the expressions, one by one, with so many conversions under way at once. -/
def Convert (n : ℕ) : List Tree → List Expr → Prop := List.Forall₂ fun a e => Expr.ofTree n a = .ok e

/-- The tree converts to what `build` makes of its operands, and if some of these do not convert, it fails like the
leftmost one. It takes `k` more conversions under way at once than they do. -/
structure Assembles (T a : Tree) (rest : List Tree) (build : Expr → List Expr → Expr) (k : ℕ) : Prop where
  value {n m e es} : Convert n (a :: rest) (e :: es) → n + k ≤ m → Expr.ofTree m T = .ok (build e es)
  failure {n m before b after es f} : a :: rest = before ++ b :: after → Convert n before es →
    Expr.ofTree n b = .error f → f ≠ tooDeep → n + k ≤ m → Expr.ofTree m T = .error f

/-! ## Limits -/

namespace Expr
variable {s : Symbol} {t : Tree} {n m : ℕ} {r : Conversion Expr}

/-- A result that is not for want of conversions stays when more of them may be under way. -/
theorem ofTree_stable (hs : t.symbol = s.name) (hmem : s ∈ expressions) (h : ofTree n t = r) (hr : r ≠ .error tooDeep)
    (hle : n ≤ m) : ofTree m t = r := by
  obtain ⟨d, r', hwithin, -⟩ := judges_ofTree hs hmem
  have hwithin : ∀ n, ofTree n t = within d n r' := hwithin
  rw [hwithin, within] at h
  split_ifs at h with hd
  · rw [hwithin, within, if_pos (hd.trans hle), h]
  · exact absurd h.symm hr

theorem ofTree_of_converts (hs : t.symbol = s.name) (hmem : s ∈ expressions) {e : Expr} (h : ofTree n t = .ok e)
    (m : ℕ) : ofTree m t = .ok e ∨ ofTree m t = .error tooDeep := by
  obtain ⟨d, r', hwithin, -⟩ := judges_ofTree hs hmem
  have hwithin : ∀ n, ofTree n t = within d n r' := hwithin
  rw [hwithin, within] at h
  split_ifs at h with hd
  rw [hwithin, within, h]
  split_ifs
  · exact Or.inl rfl
  · exact Or.inr rfl

end Expr

theorem Convert.mono {s : Symbol} {bs : List Tree} {es : List Expr} {n m : ℕ} (h : Convert n bs es)
    (hs : ∀ b ∈ bs, b.symbol = s.name) (hmem : s ∈ expressions) (hle : n ≤ m) : Convert m bs es := by
  induction h with
  | nil => exact .nil
  | cons hb _ ih =>
    obtain ⟨hsymbol, hs⟩ := List.forall_mem_cons.mp hs
    exact .cons (Expr.ofTree_stable hsymbol hmem hb (by simp) hle) (ih hs)

/-! ## Binary operators -/

section Operators
variable {l : Level} {T a : Tree} {ops : List (String × Tree)}

/-- One round of the fold. -/
def Expr.join (n : ℕ) (left : Expr) (o : String × Tree) : Conversion Expr := do
  return .binary left o.1 (← Expr.ofTree n o.2)

theorem OperatorChain.operand (h : OperatorChain l T a ops) : ∀ b ∈ a :: ops.map Prod.snd, b.symbol = l.operand.name := by
  induction h with
  | last ha => simpa using ha
  | more ha _ _ ih => exact List.forall_mem_cons.mpr ⟨ha, ih⟩

/-- The tail of a chain folds the operands into what stands on the left. The induction is on the chain. -/
theorem OperatorChain.onto_eq (h : OperatorChain l T a ops) : ∃ p k R, T = .node l.chain.name p k [a, R] ∧
    R.symbol = l.tail.name ∧ R.isLeaf = ops.isEmpty ∧
      ∀ n e, (Chain.operations l).onto n R e = ops.foldlM (Expr.join n) e := by
  induction h with
  | @last a p k q j ha =>
    refine ⟨p, k, _, rfl, rfl, rfl, fun n e => ?_⟩
    exact (Chain.turns_of_isLeaf rfl n e).trans within_zero
  | @more a p k q j o x T b ops ha ho hT ih =>
    obtain ⟨p', k', R, rfl, hR, -, honto⟩ := ih
    have hb := hT.operand b List.mem_cons_self
    refine ⟨p, k, _, rfl, rfl, rfl, fun n e => ?_⟩
    rw [Chain.onto, Tree.operations_node (by simp [hb, hR])]
    unfold Expr.fold
    rw [Spine.foldl_push]
    dsimp only
    rw [ho, ok_bind, List.foldlM_cons, Expr.join]
    simp only [bind_assoc, pure_bind]
    congr 1
    funext e'
    exact honto n (.binary e x e')

theorem OperatorChain.ofTree_last (h : OperatorChain l T a []) (n : ℕ) : Expr.ofTree n T = Expr.ofTree n a := by
  obtain ⟨p, k, R, rfl, hR, hleaf, -⟩ := h.onto_eq
  have ha := h.operand a List.mem_cons_self
  refine Expr.ofTree_of_wrapped ?_ n
  rw [Tree.wrapped?_node (l := [l.operand, l.tail]) (by cases l <;> decide) (by simp [ha, hR])]
  have hleaf : R.isLeaf = true := hleaf
  cases l <;> simp [wrapperShape?, Level.chain, Level.operand, Level.tail, hleaf]

theorem OperatorChain.ofTree_more (h : OperatorChain l T a ops) (hne : ops ≠ []) (n : ℕ) :
    Expr.ofTree (n + 2) T = Expr.ofTree n a >>= fun e => ops.foldlM (Expr.join n) e := by
  obtain ⟨p, k, R, rfl, hR, hleaf, honto⟩ := h.onto_eq
  have ha := h.operand a List.mem_cons_self
  have hleaf : R.isLeaf = false := by simpa [hleaf] using hne
  have hF : [a, R].map Tree.symbol =
      [(Chain.operations l).rank.next.symbol, (Chain.operations l).tail].map Symbol.name := by
    cases l <;> simp [ha, hR] <;> exact ⟨rfl, rfl⟩
  have hwrapped := Chain.wrapped?_eq_none (i := p) (k := k) hF hleaf
  have hnode := Chain.ofNode_eq (i := p) (k := k) hF n
  have hsymbol : (Chain.operations l).rank.symbol = l.chain := by cases l <;> rfl
  rw [hsymbol] at hwrapped hnode
  rw [Expr.ofTree, Tree.core_of_none hwrapped, hnode]
  congr 1
  funext e
  exact honto n e

variable {n : ℕ} {e : Expr} {es : List Expr} {f : ConversionFailure}

theorem Expr.foldlM_join_ok (h : Convert n (ops.map Prod.snd) es) :
    ops.foldlM (join n) e = .ok (fold e ((ops.map Prod.fst).zip es)) := by
  induction ops generalizing e es with
  | nil => rfl
  | cons o ops ih =>
    cases h with
    | cons ho hops =>
      rw [List.foldlM_cons, join, ho]
      exact ih hops

theorem Expr.foldlM_join_error {before after : List Tree} {b : Tree} (hsplit : ops.map Prod.snd = before ++ b :: after)
    (hbefore : Convert n before es) (hb : ofTree n b = .error f) : ops.foldlM (join n) e = .error f := by
  induction ops generalizing e es before with
  | nil => simp at hsplit
  | cons o ops ih =>
    cases hbefore with
    | nil =>
      obtain ⟨rfl, -⟩ := List.cons.inj hsplit
      rw [List.foldlM_cons, join, hb]
      rfl
    | cons ho hbefore =>
      obtain ⟨rfl, hrest⟩ := List.cons.inj hsplit
      rw [List.foldlM_cons, join, ho]
      exact ih hrest hbefore

theorem OperatorChain.assembles (h : OperatorChain l T a ops) :
    Assembles T a (ops.map Prod.snd) (fun e es => Expr.fold e ((ops.map Prod.fst).zip es))
      (if ops.isEmpty then 0 else 2) := by
  have hmem : l.operand ∈ expressions := by cases l <;> decide
  have hs := h.operand
  constructor
  · rintro n m e es hconvert hle
    cases ops with
    | nil =>
      obtain _ | ⟨hfirst, _ | _⟩ := hconvert.mono hs hmem (Nat.le_of_add_right_le hle)
      exact (h.ofTree_last m).trans hfirst
    | cons o ops =>
      obtain ⟨m, rfl⟩ := Nat.exists_eq_add_of_le' (Nat.le_trans (Nat.le_add_left 2 n) hle)
      obtain _ | ⟨hfirst, hrest⟩ := hconvert.mono hs hmem (Nat.le_of_add_le_add_right hle)
      rw [h.ofTree_more (List.cons_ne_nil o ops), hfirst]
      exact Expr.foldlM_join_ok hrest
  · rintro n m before b after es f hsplit hbefore hb hf hle
    rw [hsplit, List.forall_mem_append, List.forall_mem_cons] at hs
    have hfails {m : ℕ} (hle : n ≤ m) : Expr.ofTree m b = .error f :=
      Expr.ofTree_stable hs.2.1 hmem hb (by simpa using hf) hle
    cases ops with
    | nil =>
      obtain ⟨rfl, rfl⟩ : before = [] ∧ a = b := by
        cases before <;> simp_all
      exact (h.ofTree_last m).trans (hfails (Nat.le_of_add_right_le hle))
    | cons o ops =>
      obtain ⟨m, rfl⟩ := Nat.exists_eq_add_of_le' (Nat.le_trans (Nat.le_add_left 2 n) hle)
      have hle : n ≤ m := Nat.le_of_add_le_add_right hle
      rw [h.ofTree_more (List.cons_ne_nil o ops)]
      cases hbefore.mono hs.1 hmem hle with
      | nil =>
        obtain ⟨rfl, -⟩ := List.cons.inj hsplit
        rw [hfails hle]
        rfl
      | cons ho hbefore' =>
        obtain ⟨rfl, hrest⟩ := List.cons.inj hsplit
        rw [ho]
        exact Expr.foldlM_join_error hrest hbefore' (hfails hle)

end Operators

/-! ## Assignments -/

section Assignments
variable {T a : Tree} {rest : List Tree}

theorem AssignChain.symbol_eq (h : AssignChain T a rest) : T.symbol = Symbol.assignExpr.name := by
  cases h <;> rfl

theorem AssignChain.operand (h : AssignChain T a rest) : ∀ b ∈ a :: rest, b.symbol = Symbol.compExpr.name := by
  induction h with
  | last ha => simpa using ha
  | more ha _ _ ih => exact List.forall_mem_cons.mpr ⟨ha, ih⟩

theorem AssignChain.ofTree_last (h : AssignChain T a []) (n : ℕ) : Expr.ofTree n T = Expr.ofTree n a := by
  cases h with
  | last ha =>
    refine Expr.ofTree_of_wrapped ?_ n
    rw [Tree.wrapped?_node (l := [.compExpr, .assignTail]) (by decide) (by rw [List.map_cons, ha]; rfl)]
    simp [wrapperShape?, Tree.isLeaf, Tree.children]

theorem Expr.ofTree_assign {p q : Option ℤ} {k j : Option Token} {o : Tree} (ha : a.symbol = Symbol.compExpr.name)
    (ho : o.symbol = Symbol.equals.name) (hT : T.symbol = Symbol.assignExpr.name) (n : ℕ) :
    ofTree (n + 2) (.node Symbol.assignExpr.name p k [a, .node Symbol.assignTail.name q j [o, T]]) =
      (do let left ← ofTree n a; return .assign left (← ofTree n T)) := by
  have hF : [a, .node Symbol.assignTail.name q j [o, T]].map Tree.symbol =
      [Symbol.compExpr, .assignTail].map Symbol.name := by rw [List.map_cons, ha]; rfl
  have hF' : [o, T].map Tree.symbol = [Symbol.equals, .assignExpr].map Symbol.name := by simp [ho, hT]
  have hwrapped : (Tree.node Symbol.assignExpr.name p k
      [a, .node Symbol.assignTail.name q j [o, T]]).wrapped? = none := by
    rw [Tree.wrapped?_node (by decide) hF]
    simp [wrapperShape?]
  rw [ofTree, Tree.core_of_none hwrapped, ofNode, Tree.symbol, Symbol.ofNonterminal?_name (by decide)]
  dsimp only
  rw [ofAssign, Tree.split?_node hF]
  dsimp only
  rw [Tree.isLeaf_cons, Tree.split?_node hF']
  rfl

/-- The induction is on the chain: every assignment converts its left side and, two conversions further down, the
rest. -/
theorem AssignChain.assembles (h : AssignChain T a rest) : Assembles T a rest Expr.nest (2 * rest.length) := by
  have hmem : Symbol.compExpr ∈ expressions := by decide
  induction h with
  | @last a p k q j ha =>
    have hchain : AssignChain (.node Symbol.assignExpr.name p k [a, .node Symbol.assignTail.name q j []]) a [] := .last ha
    constructor
    · rintro n m e es hconvert hle
      obtain _ | ⟨hfirst, _ | _⟩ := hconvert.mono hchain.operand hmem hle
      exact (hchain.ofTree_last m).trans hfirst
    · rintro n m before b after es f hsplit hbefore hb hf hle
      obtain ⟨rfl, rfl⟩ : before = [] ∧ a = b := by
        cases before <;> simp_all
      exact (hchain.ofTree_last m).trans (Expr.ofTree_stable ha hmem hb (by simpa using hf) hle)
  | @more a p k q j o T b rest ha ho hT ih =>
    have hstep {n m : ℕ} (hle : n + 2 * (b :: rest).length ≤ m) : ∃ m', m = m' + 2 ∧ n + 2 * rest.length ≤ m' := by
      rw [List.length_cons] at hle
      exact ⟨m - 2, by omega, by omega⟩
    constructor
    · rintro n m e es hconvert hle
      obtain ⟨m, rfl, hle'⟩ := hstep hle
      obtain _ | ⟨hfirst, hrest⟩ := hconvert
      have hleft := Expr.ofTree_stable ha hmem hfirst (by simp) (Nat.le_of_add_right_le hle')
      rw [Expr.ofTree_assign ha ho hT.symbol_eq, hleft]
      cases es with
      | nil => cases hrest
      | cons e' es =>
        rw [ok_bind, ih.value hrest hle']
        rfl
    · rintro n m before c after es f hsplit hbefore hc hf hle
      obtain ⟨m, rfl, hle'⟩ := hstep hle
      rw [Expr.ofTree_assign ha ho hT.symbol_eq]
      cases hbefore with
      | nil =>
        obtain ⟨rfl, -⟩ := List.cons.inj hsplit
        rw [Expr.ofTree_stable ha hmem hc (by simpa using hf) (Nat.le_of_add_right_le hle')]
        rfl
      | cons hfirst hbefore =>
        obtain ⟨rfl, hrest⟩ := List.cons.inj hsplit
        rw [Expr.ofTree_stable ha hmem hfirst (by simp) (Nat.le_of_add_right_le hle'), ok_bind,
          ih.failure hrest hbefore hc hf hle']
        rfl

/-- Fewer than two conversions for every assignment are too few. -/
theorem AssignChain.tooDeep (h : AssignChain T a rest) (hvalues : ∀ b ∈ a :: rest, ∃ n e, Expr.ofTree n b = .ok e)
    {m : ℕ} (hm : m < 2 * rest.length) : Expr.ofTree m T = .error tooDeep := by
  induction h generalizing m with
  | last => exact absurd hm (Nat.not_lt_zero m)
  | @more a p k q j o T b rest ha ho hT ih =>
    rw [List.length_cons] at hm
    obtain ⟨⟨n, e, hfirst⟩, hvalues⟩ := List.forall_mem_cons.mp hvalues
    match m with
    | 0 => rfl
    | 1 => rfl
    | m + 2 =>
      rw [Expr.ofTree_assign ha ho hT.symbol_eq]
      obtain hleft | hleft := Expr.ofTree_of_converts ha (by decide) hfirst m
      · rw [hleft, ok_bind, ih hvalues (by omega)]
        rfl
      · rw [hleft]
        rfl

end Assignments

/-! ## Chains of any length -/

/-- Binary operators are folded to the left, whatever their operands are and however many there are, and assignments to
the right, which takes two more conversions for each. With fewer conversions than those an assignment is too deep. -/
theorem chains_assemble :
    (∀ l T a ops, OperatorChain l T a ops → Assembles T a (ops.map Prod.snd)
      (fun e es => Expr.fold e ((ops.map Prod.fst).zip es)) (if ops.isEmpty then 0 else 2)) ∧
    ∀ T a rest, AssignChain T a rest → Assembles T a rest Expr.nest (2 * rest.length) ∧
      ((∀ b ∈ a :: rest, ∃ n e, Expr.ofTree n b = .ok e) →
        ∀ m < 2 * rest.length, Expr.ofTree m T = .error tooDeep) :=
  ⟨fun _ _ _ _ h => h.assembles, fun _ _ _ h => ⟨h.assembles, fun hvalues _ hm => h.tooDeep hvalues hm⟩⟩

/-- An identifier as an operand of a multiplication. -/
def unaryName (x : String) : Tree :=
  .node "UnaryExpr" none none [.node "CallExpr" none none [.node "MemberExpr" none none [.node "PrimaryExpr" none none
    [.leaf "identifier" ⟨.identifier, x, none, ⟨"", 1, 1, 0⟩⟩], .bare "MemberTail"], .bare "CallTail"]]

def factorName (x : String) : Tree := .node "MulExpr" none none [unaryName x, .bare "MulTail"]

def comparedName (x : String) : Tree :=
  .node "CompExpr" none none [.node "AddExpr" none none [factorName x, .bare "AddTail"], .bare "CompTail"]

theorem ofTree_factorName (x : String) (n : ℕ) : Expr.ofTree (n + 2) (factorName x) = .ok (.identifier x) := by
  iterate 4 refine (Expr.ofTree_of_wrapped rfl _).trans ?_
  rw [Expr.ofTree, Tree.core_of_none rfl]
  rfl

theorem ofTree_comparedName (x : String) (n : ℕ) : Expr.ofTree (n + 2) (comparedName x) = .ok (.identifier x) := by
  iterate 2 refine (Expr.ofTree_of_wrapped rfl _).trans ?_
  exact ofTree_factorName x n

/-- A difference of three operands as the grammar has it. -/
def difference (a b c : Tree) : Tree :=
  .node "AddExpr" none none [a, .node "AddTail" none none [minus, .node "AddExpr" none none [b,
    .node "AddTail" none none [minus, .node "AddExpr" none none [c, .bare "AddTail"]]]]]
where minus := .leaf "add_op" ⟨.operator, "-", none, ⟨"", 1, 1, 0⟩⟩

theorem operatorChain_difference {a b c : Tree} (ha : a.symbol = "MulExpr") (hb : b.symbol = "MulExpr")
    (hc : c.symbol = "MulExpr") : OperatorChain .additive (difference a b c) a [("-", b), ("-", c)] :=
  .more ha rfl (.more hb rfl (.last hc))

/-- So many assignments of an identifier to itself in a row. -/
def assignments : ℕ → Tree
  | 0 => .node "AssignExpr" none none [comparedName "x", .bare "AssignTail"]
  | n + 1 => .node "AssignExpr" none none [comparedName "x", .node "AssignTail" none none
      [.leaf "=" ⟨.equals, "=", none, ⟨"", 1, 1, 0⟩⟩, assignments n]]

theorem assignChain_assignments (n : ℕ) :
    AssignChain (assignments n) (comparedName "x") (List.replicate n (comparedName "x")) := by
  induction n with
  | zero => exact .last rfl
  | succ n ih => exact .more rfl rfl ih

/-- Two operands of the second difference do not convert, and the left one is to blame. -/
theorem chains_assemble_difference :
    OperatorChain .additive (difference (factorName "x") (factorName "y") (factorName "z")) (factorName "x")
      [("-", factorName "y"), ("-", factorName "z")] ∧
    Expr.ofTree 4 (difference (factorName "x") (factorName "y") (factorName "z")) =
      .ok (.binary (.binary (.identifier "x") "-" (.identifier "y")) "-" (.identifier "z")) ∧
    Expr.ofTree 4 (difference (factorName "x") (.bare "MulExpr") (.node "MulExpr" none none [.bare "UnaryExpr"])) =
      .error ((Tree.bare "MulExpr").malformed [.unaryExpr, .mulTail]) ∧
    Expr.ofTree 6 (assignments 2) = .ok (.assign (.identifier "x") (.assign (.identifier "x") (.identifier "x"))) ∧
    Expr.ofTree 3 (assignments 2) = .error tooDeep := by
  have hchain := operatorChain_difference (a := factorName "x") (b := factorName "y") (c := factorName "z") rfl rfl rfl
  have hvalues : Convert 2 [factorName "x", factorName "y", factorName "z"]
      [.identifier "x", .identifier "y", .identifier "z"] :=
    .cons (ofTree_factorName "x" 0) (.cons (ofTree_factorName "y" 0) (.cons (ofTree_factorName "z" 0) .nil))
  have hfold := (chains_assemble.1 _ _ _ _ hchain).value (m := 4) hvalues (by simp)
  have hbroken := operatorChain_difference (a := factorName "x") (b := .bare "MulExpr")
    (c := .node "MulExpr" none none [.bare "UnaryExpr"]) rfl rfl rfl
  have hfails : Expr.ofTree 2 (Tree.bare "MulExpr") = .error ((Tree.bare "MulExpr").malformed [.unaryExpr, .mulTail]) := by
    rw [Expr.ofTree, Tree.core_of_none rfl]
    rfl
  have hsplit : factorName "x" :: [.bare "MulExpr", .node "MulExpr" none none [.bare "UnaryExpr"]] =
      [factorName "x"] ++ .bare "MulExpr" :: [.node "MulExpr" none none [.bare "UnaryExpr"]] := rfl
  have hfailure := (chains_assemble.1 _ _ _ _ hbroken).failure (m := 4) hsplit
    (.cons (ofTree_factorName "x" 0) .nil) hfails (by simp [Tree.malformed, tooDeep]) (by simp)
  have hassign := chains_assemble.2 _ _ _ (assignChain_assignments 2)
  have hx := ofTree_comparedName "x" 0
  have hnest := hassign.1.value (m := 6) (.cons hx (.cons hx (.cons hx .nil))) (by simp)
  have hdeep := hassign.2 (by simpa using ⟨2, _, hx⟩) 3 (by simp)
  exact ⟨hchain, hfold, hfailure, hnest, hdeep⟩

/-- A statement of one expression. -/
def evaluation (T : Tree) : Tree :=
  .node "Stmt" none none [.node "ExprStmt" none none [.node "Expr" none none [T], .bare ";"]]

theorem ofTree_evaluation {T : Tree} (hT : T.symbol = Symbol.assignExpr.name) (n : ℕ) :
    Stmt.ofTree (n + 4) (evaluation T) = (do let e ← Expr.ofTree n T; return .expression e) := by
  have hwrapped : (Tree.node Symbol.expr.name none none [T]).wrapped? = some T := by
    rw [Tree.wrapped?_node (l := [.assignExpr]) (by decide) (by rw [List.map_singleton, hT]; rfl)]
    rfl
  have hinner : Stmt.ofTree (n + 2) (.node "ExprStmt" none none [.node "Expr" none none [T], .bare ";"]) =
      (do let e ← Expr.ofTree n T; return .expression e) := by
    rw [Stmt.ofTree, Tree.core_of_none rfl, ← Expr.ofTree_of_wrapped hwrapped n]
    rfl
  rw [evaluation, Stmt.ofTree, Tree.core_of_none rfl, ← hinner]
  rfl

theorem ofTreeWithin_evaluation {T : Tree} (hT : T.symbol = Symbol.assignExpr.name) (n : ℕ) :
    Program.ofTreeWithin (n + 5) (Program.single (evaluation T)) =
      (do let e ← Expr.ofTree n T; return ⟨[.expression e]⟩) := by
  have hlist : Program.ofTreeWithin (n + 5) (Program.single (evaluation T)) =
      (do let body ← (Spine.done.push (evaluation T)).mapM (Stmt.ofTree (n + 4)); return ⟨body⟩) := rfl
  rw [hlist, Spine.mapM_push, ofTree_evaluation hT]
  simp [Spine.mapM, Spine.done]

theorem assignments_tooDeep :
    AssignChain (assignments 2000) (comparedName "x") (List.replicate 2000 (comparedName "x")) ∧
    Expr.ofTree 2 (comparedName "x") = .ok (.identifier "x") ∧
    (∀ n ≤ Program.depthLimit, Expr.ofTree n (assignments 2000) = .error tooDeep) ∧
    Program.ofTree (Program.single (evaluation (assignments 2000))) = .error tooDeep := by
  have hchain := assignChain_assignments 2000
  have hvalues : ∀ b ∈ comparedName "x" :: List.replicate 2000 (comparedName "x"), ∃ n e, Expr.ofTree n b = .ok e := by
    rw [← List.replicate_succ]
    intro b hb
    rw [List.eq_of_mem_replicate hb]
    exact ⟨2, _, ofTree_comparedName "x" 0⟩
  have hlimit : Program.depthLimit < 2 * 2000 := by decide
  have hdeep : ∀ n ≤ Program.depthLimit, Expr.ofTree n (assignments 2000) = .error tooDeep := fun n hn =>
    hchain.tooDeep hvalues (by rw [List.length_replicate]; exact Nat.lt_of_le_of_lt hn hlimit)
  refine ⟨hchain, ofTree_comparedName "x" 0, hdeep, ?_⟩
  have hprogram := ofTreeWithin_evaluation hchain.symbol_eq 981
  rw [hdeep 981 (by decide)] at hprogram
  exact hprogram

end Lookahead
