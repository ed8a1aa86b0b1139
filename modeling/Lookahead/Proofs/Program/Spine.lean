import Lookahead.Proofs.Program.Wrapper

/-! Sequences. The items of a sequence in writing are the items of the spine that the tails of its tree make, in
order. -/
namespace Lookahead

open Script

namespace Spine
variable {α β : Type}

theorem mapM_push (f : α → Conversion β) (a : α) (s : Spine α) :
    (s.push a).mapM f = do let b ← f a; let bs ← s.mapM f; return b :: bs := by
  obtain ⟨items, fault⟩ := s
  simp only [mapM, push, List.mapM_cons, bind_assoc, pure_bind]
  congr 1
  funext b
  cases items.mapM f with
  | error e => rfl
  | ok bs => cases fault <;> rfl

theorem foldl_push {γ : Type} (f : α → Conversion β) (step : γ → β → γ) (c : γ) (a : α) (s : Spine α) :
    (do let bs ← (s.push a).mapM f; return bs.foldl step c : Conversion γ) =
      do let b ← f a; let bs ← s.mapM f; return bs.foldl step (step c b) := by
  rw [mapM_push]
  simp only [bind_assoc, pure_bind, List.foldl_cons]

end Spine

namespace Tree

section Sequences
variable {s s' list item tail : Symbol} {p p' : Option Int} {k k' : Option Token} {t a b c rest : Tree}

@[simp] theorem isLeaf_cons (ts : List Tree) (p : Option Int) (k : Option Token) (x : String) :
    (node x p k (t :: ts)).isLeaf = false := rfl

theorem children_eq_nil (h : t.isLeaf = true) : t.children = [] := List.isEmpty_iff.mp h

theorem statements_of_isLeaf (h : t.isLeaf = true) : t.statements = .done := by
  cases t with
  | node s p k cs =>
    obtain rfl : cs = [] := children_eq_nil h
    rw [statements]

theorem statements_node (h : [a, rest].map symbol = [Symbol.stmt, .stmtList].map Symbol.name) :
    (node s.name p k [a, rest]).statements = rest.statements.push a := by
  rw [statements, hasShape_node h, decide_eq_true rfl, if_pos rfl]

theorem afterComma_of_isLeaf (item tail : Symbol) (h : t.isLeaf = true) : t.afterComma item tail = .done := by
  cases t with
  | node s p k cs =>
    obtain rfl : cs = [] := children_eq_nil h
    rw [afterComma]

theorem afterComma_node (h : [c, a, rest].map symbol = [Symbol.comma, item, tail].map Symbol.name) :
    (node s.name p k [c, a, rest]).afterComma item tail = (rest.afterComma item tail).push a := by
  rw [afterComma, hasShape_node h, decide_eq_true rfl, if_pos rfl]

theorem entries_of_isLeaf (list item tail : Symbol) (h : t.isLeaf = true) : t.entries list item tail = .done := by
  cases t with
  | node s p k cs =>
    obtain rfl : cs = [] := children_eq_nil h
    rw [entries]

theorem entries_last (h : [a, b].map symbol = [item, tail].map Symbol.name) (hb : b.isLeaf = true) :
    (node s.name p k [a, b]).entries list item tail = Spine.done.push a := by
  cases b with
  | node s' p' k' cs =>
    obtain rfl : cs = [] := children_eq_nil hb
    rw [entries, hasShape_node h, decide_eq_true rfl, if_pos rfl]

theorem entries_node (h : [a, node s'.name p' k' [c, rest]].map symbol = [item, tail].map Symbol.name)
    (h' : [c, rest].map symbol = [Symbol.comma, list].map Symbol.name) :
    (node s.name p k [a, node s'.name p' k' [c, rest]]).entries list item tail =
      (rest.entries list item tail).push a := by
  rw [entries, hasShape_node h, decide_eq_true rfl, if_pos rfl, hasShape_node h', decide_eq_true rfl, if_pos rfl]

end Sequences
end Tree

/-! ## Commas between the items -/

section Trees
variable {α : Type} {list item tail : Symbol} {convert : ℕ → Tree → Conversion α} {m m' : List Mark} {d d' : ℕ} {a : α}
  {as : List α} {T : Tree}

theorem gives_afterComma_nil (item tail : Symbol) (hT : T.isLeaf = true) :
    Gives (fun n T => (T.afterComma item tail).mapM (convert n)) 0 [] T := by
  intro n
  dsimp only
  rw [Tree.afterComma_of_isLeaf item tail hT]
  exact within_zero.symm

theorem makes_afterComma {q : Part} (hq : ∀ T, q.fact T → Gives convert d a T) : Makes (tail, [.comma, item, tail])
    [.fixed .comma, q, .giving tail m (fun n T => (T.afterComma item tail).mapM (convert n)) d' as]
    (Gives (fun n T => (T.afterComma item tail).mapM (convert n)) (max d d') (a :: as)) := by
  rintro j F hF ⟨c, _, rfl, -, A, _, rfl, hA, rest, _, rfl, hrest, rfl⟩ n
  have hitems : (rest.afterComma item tail).mapM (convert n) = _ := hrest n
  dsimp only
  rw [Tree.afterComma_node hF, Spine.mapM_push, hq A hA n, hitems]
  simp [ok_bind]

/-! ## A comma after every item but the last -/

/-- A tail that adds the items `as` to the one in front of it. -/
def Adds (list item tail : Symbol) (convert : ℕ → Tree → Conversion α) (d : ℕ) (as : List α) (T : Tree) : Prop :=
  ∃ spine : Spine Tree, (∀ n, spine.mapM (convert n) = within d n (.ok as)) ∧
    ∀ (A : Tree) (i : Int), A.symbol = item.name → T.symbol = tail.name →
      (Tree.node list.name (some i) none [A, T]).entries list item tail = spine.push A

theorem gives_entries_nil (list item tail : Symbol) (hT : T.isLeaf = true) :
    Gives (fun n T => (T.entries list item tail).mapM (convert n)) 0 [] T := by
  intro n
  dsimp only
  rw [Tree.entries_of_isLeaf list item tail hT]
  exact within_zero.symm

theorem makes_entries : Makes (list, [item, tail])
    [.giving item m convert d a, ⟨tail, m', Adds list item tail convert d' as⟩]
    (Gives (fun n T => (T.entries list item tail).mapM (convert n)) (max d d') (a :: as)) := by
  rintro j F hF ⟨A, _, rfl, hA, T, _, rfl, ⟨spine, hspine, hT⟩, rfl⟩ n
  simp only [List.map_cons, List.map_nil, List.cons.injEq, and_true] at hF
  dsimp only
  rw [hT A j hF.1 hF.2, Spine.mapM_push, hA, hspine]
  simp [ok_bind]

theorem adds_nil (list item tail : Symbol) (hT : T.isLeaf = true) : Adds list item tail convert 0 [] T :=
  ⟨.done, fun _ => within_zero.symm, fun _ _ hA hs => Tree.entries_last (by simp [hA, hs]) hT⟩

theorem makes_adds : Makes (tail, [.comma, list])
    [.fixed .comma, .giving list m (fun n T => (T.entries list item tail).mapM (convert n)) d as]
    (Adds list item tail convert d as) := by
  rintro j F hF ⟨c, _, rfl, -, T, _, rfl, hT, rfl⟩
  exact ⟨_, hT, fun A i hA hs => Tree.entries_node (by simp [hA, hs]) hF⟩

end Trees

section Writing
variable {ι α : Type} {list item tail : Symbol} {convert : ℕ → Tree → Conversion α} {marks : ι → List Mark}
  {depth : ι → ℕ} {value : ι → α} {i : ι} {is : List ι}

theorem holds_afterComma (item tail : Symbol) (value : ι → α) (hrule : (tail, [.comma, item, tail]) ∈ rules)
    (hempty : (tail, []) ∈ rules) (h : ∀ i ∈ is, (Part.giving item (marks i) convert (depth i) (value i)).Holds) :
    (Part.giving tail (is.flatMap fun i => .fixed .comma :: marks i)
      (fun n T => (T.afterComma item tail).mapM (convert n)) (deepest depth is) (is.map value)).Holds := by
  induction is with
  | nil => exact (Part.holds_empty hempty).mono fun T hT => gives_afterComma_nil item tail hT
  | cons i is ih =>
    rw [List.forall_mem_cons] at h
    refine yields_node (tail, [.comma, item, tail]) [.fixed .comma, .giving item (marks i) convert (depth i) (value i),
      .giving tail (is.flatMap fun i => .fixed .comma :: marks i) (fun n T => (T.afterComma item tail).mapM (convert n))
        (deepest depth is) (is.map value)] hrule rfl ?_ ?_ (makes_afterComma fun _ h => h)
    · simp +decide [h.1, ih h.2]
    · simp [Symbol.kind?]

/-- What the tail of a sequence adds to the items. -/
def tailPart (list item tail : Symbol) (convert : ℕ → Tree → Conversion α) (marks : ι → List Mark) (depth : ι → ℕ)
    (value : ι → α) (is : List ι) : Part :=
  ⟨tail, is.flatMap fun i => .fixed .comma :: marks i, Adds list item tail convert (deepest depth is) (is.map value)⟩

theorem holds_entries_of_tail (hrule : (list, [item, tail]) ∈ rules)
    (hi : (Part.giving item (marks i) convert (depth i) (value i)).Holds)
    (his : (tailPart list item tail convert marks depth value is).Holds) :
    (Part.giving list (Mark.separated ((i :: is).map marks)) (fun n T => (T.entries list item tail).mapM (convert n))
      (deepest depth (i :: is)) ((i :: is).map value)).Holds := by
  refine yields_node (list, [item, tail]) [.giving item (marks i) convert (depth i) (value i),
    tailPart list item tail convert marks depth value is] hrule rfl ?_ ?_ makes_entries
  · simp [hi, his]
  · simp [tailPart, Mark.separated, List.flatMap_map]

theorem holds_tailPart (hrule : (list, [item, tail]) ∈ rules) (hcomma : (tail, [.comma, list]) ∈ rules)
    (hempty : (tail, []) ∈ rules)
    (h : ∀ i ∈ is, (Part.giving item (marks i) convert (depth i) (value i)).Holds) :
    (tailPart list item tail convert marks depth value is).Holds := by
  induction is with
  | nil => exact (Part.holds_empty hempty).mono fun T hT => adds_nil list item tail hT
  | cons i is ih =>
    rw [List.forall_mem_cons] at h
    have hlist := holds_entries_of_tail hrule h.1 (ih h.2)
    refine yields_node (tail, [.comma, list]) [.fixed .comma, _] hcomma rfl
      (List.forall_mem_cons.mpr ⟨Part.holds_fixed rfl, List.forall_mem_singleton.mpr hlist⟩) ?_ makes_adds
    simp [Symbol.kind?, tailPart, Mark.separated, List.flatMap_map]

theorem holds_entries (list item tail : Symbol) (value : ι → α) (hrule : (list, [item, tail]) ∈ rules)
    (hnone : (list, []) ∈ rules) (hcomma : (tail, [.comma, list]) ∈ rules) (hempty : (tail, []) ∈ rules)
    (h : ∀ i ∈ is, (Part.giving item (marks i) convert (depth i) (value i)).Holds) :
    (Part.giving list (Mark.separated (is.map marks)) (fun n T => (T.entries list item tail).mapM (convert n))
      (deepest depth is) (is.map value)).Holds := by
  cases is with
  | nil => exact (Part.holds_empty hnone).mono fun T hT => gives_entries_nil list item tail hT
  | cons i is =>
    rw [List.forall_mem_cons] at h
    exact holds_entries_of_tail hrule h.1 (holds_tailPart hrule hcomma hempty h.2)

end Writing
end Lookahead
