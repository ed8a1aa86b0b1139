import Lookahead.Proofs.Program.Node
import Lookahead.Proofs.Program.Tails

/-! Conversions that can crash. They look whether a node has the children that are asked for and then take them apart
without looking again: a wrong number of children, a child, a token or an entry of a table that is not there, a lexeme
that is no numeral, or a loop that does not come nearer to its end would be no faults of the tree, but the end of the
conversion on the spot. -/
namespace Lookahead

open Script

inductive Crash where
  | count (wanted : Nat)
  | place (i : Nat)
  | token
  | entry (symbol : String)
  | numeral (lexeme : String)
  | endless
deriving DecidableEq

inductive RawFailure where
  | fault (f : TreeFault)
  | crash (c : Crash)
deriving DecidableEq

abbrev Raw (α : Type) := Except RawFailure α

/-- A lexeme that cannot be read is a crash. -/
def ConversionFailure.raw : ConversionFailure → RawFailure
  | fault f => .fault f
  | unreadable lexeme => .crash (.numeral lexeme)

def Tree.size (t : Tree) : Nat := t.subtrees.length

theorem Tree.size_child {c t : Tree} (h : c ∈ t.children) : c.size < t.size := by
  cases t with
  | node s p k cs =>
    have hlength := (List.sublist_flatten_of_mem (List.mem_map_of_mem (f := subtrees) h)).length_le
    rw [size, size, subtrees_node, List.length_cons, List.flatMap_def]
    exact Nat.lt_succ_of_le hlength

namespace Raw
variable {α β γ : Type}

/-- What a conversion comes to if nothing crashes but the reading of numerals. -/
def of (x : Conversion α) : Raw α := x.mapError ConversionFailure.raw

def fault (f : TreeFault) : Raw α := .error (.fault f)

def crash (c : Crash) : Raw α := .error (.crash c)

def unexpected (t : Tree) : Raw α := fault (.unexpectedShape t.symbol t.shape)

/-! ## Reading a node -/

/-- The children, which must have exactly these symbols. -/
def expect (t : Tree) (symbols : List Symbol) : Raw (List Tree) :=
  if t.shape ≠ symbols.map Symbol.name then fault (.malformed t.symbol symbols t.shape) else return t.children

def item (l : List α) (i : Nat) : Raw α :=
  match l[i]? with
  | some a => return a
  | none => crash (.place i)

def token (t : Tree) : Raw Token :=
  match t.token with
  | some k => return k
  | none => crash .token

def lexeme (t : Tree) : Raw String := do
  if t.token.isNone then fault (.tokenMissing t.symbol)
  let k ← token t
  return k.lexeme

/-- What a table has for a symbol that must be in it. -/
def entry (table : String → Option α) (symbol : String) : Raw α :=
  match table symbol with
  | some a => return a
  | none => crash (.entry symbol)

/-! ## Wrappers -/

def wrappers (symbol : String) : Option (List Symbol × Nat) := (Symbol.ofNonterminal? symbol).bind wrapperShape?

/-- The node under all wrappers. -/
def descend (t : Tree) : Raw Tree :=
  if (wrappers t.symbol).isNone then return t
  else do
    let (shape, i) ← entry wrappers t.symbol
    if t.shape ≠ shape.map Symbol.name then return t
    if (t.children.eraseIdx i).any fun c => !c.isLeaf then return t
    let c ← item t.children i
    if _h : c.size < t.size then descend c else crash .endless
termination_by t.size

/-! ## Loops -/

/-- Takes an item from a node again and again, as long as there is a node left to go on with. -/
def loop (body : Tree → Raw (Option (α × Option Tree))) (t : Tree) : Raw (List α) := do
  match ← body t with
  | none => return []
  | some (a, none) => return [a]
  | some (a, some rest) =>
    if _h : rest.size < t.size then
      let as ← loop body rest
      return a :: as
    else crash .endless
termination_by t.size

/-! ## Without a crash -/

section Lemmas
variable {t : Tree} {l : List Symbol} {a : α} {f : ConversionFailure}

@[simp] theorem of_ok (a : α) : of (.ok a : Conversion α) = .ok a := rfl

@[simp] theorem of_pure (a : α) : of (pure a : Conversion α) = .ok a := rfl

@[simp] theorem of_error (f : ConversionFailure) : of (.error f : Conversion α) = .error f.raw := rfl

@[simp] theorem of_bind (x : Conversion α) (k : α → Conversion β) : of (x >>= k) = of x >>= fun a => of (k a) := by
  cases x <;> rfl

@[simp] theorem of_map (g : α → β) (x : Conversion α) : of (g <$> x) = g <$> of x := by
  cases x <;> rfl

@[simp] theorem ok_bind (a : α) (k : α → Raw β) : (Except.ok a : Raw α) >>= k = k a := rfl

@[simp] theorem error_bind (f : RawFailure) (k : α → Raw β) : (Except.error f : Raw α) >>= k = .error f := rfl

@[simp] theorem lexeme_eq (t : Tree) : lexeme t = of t.lexeme := by
  rw [lexeme, Tree.lexeme, token]
  cases t.token <;> rfl

/-- Children that have the symbols that are asked for can be told apart. -/
theorem shape_cases (t : Tree) (l : List Symbol) : (t.split? l = none ∧ t.shape ≠ l.map Symbol.name) ∨
    ∃ cs, t.split? l = some cs ∧ t.shape = l.map Symbol.name ∧ t.children = cs ∧
      List.Forall₂ (fun s (c : Tree) => c.symbol = s.name) l cs := by
  obtain hnone | ⟨hsplit, hshape⟩ := t.split?_cases l
  · exact Or.inl hnone
  · refine Or.inr ⟨_, hsplit, hshape, rfl, ?_⟩
    rw [Tree.shape, ← List.forall₂_eq_eq_eq, List.forall₂_map_left_iff, List.forall₂_map_right_iff] at hshape
    exact hshape.flip

theorem expect_cases (t : Tree) (l : List Symbol) :
    (t.split? l = none ∧ expect t l = .error (t.malformed l).raw) ∨
      ∃ cs, t.split? l = some cs ∧ expect t l = .ok cs ∧ t.children = cs ∧
        List.Forall₂ (fun s (c : Tree) => c.symbol = s.name) l cs := by
  obtain ⟨hsplit, hne⟩ | ⟨cs, hsplit, hshape, hchildren, hsymbols⟩ := shape_cases t l
  · exact Or.inl ⟨hsplit, if_pos hne⟩
  · have hexpect : expect t l = .ok t.children := if_neg (not_not_intro hshape)
    exact Or.inr ⟨cs, hsplit, hchildren ▸ hexpect, hchildren, hsymbols⟩

end Lemmas

/-! ## Wrappers that are all taken off -/

theorem wrappers_place {symbol : String} {w : List Symbol × ℕ} (h : wrappers symbol = some w) : w.2 < w.1.length := by
  obtain ⟨s, -, hs⟩ := Option.bind_eq_some_iff.mp h
  cases s <;> cases hs <;> decide

theorem wrapped?_eq_none {t : Tree} (h : wrappers t.symbol = none) : t.wrapped? = none := by
  rw [Tree.wrapped?, show (Symbol.ofNonterminal? t.symbol).bind wrapperShape? = none from h]

theorem wrapped?_eq {t : Tree} {w : List Symbol × ℕ} (h : wrappers t.symbol = some w) : t.wrapped? =
    if t.hasShape w.1 && (t.children.eraseIdx w.2).all Tree.isLeaf then t.children[w.2]? else none := by
  rw [Tree.wrapped?, show (Symbol.ofNonterminal? t.symbol).bind wrapperShape? = some w from h]

/-- A wrapper has the child that it is said to wrap. -/
theorem descend_round (t : Tree) : descend t =
    match t.wrapped? with
    | some c => if c.size < t.size then descend c else crash .endless
    | none => .ok t := by
  rw [descend]
  cases hw : wrappers t.symbol with
  | none => rw [wrapped?_eq_none hw]; rfl
  | some w =>
    obtain ⟨shape, i⟩ := w
    rw [wrapped?_eq hw, entry, hw]
    by_cases hshape : t.shape = shape.map Symbol.name
    · have hlength : t.children.length = shape.length := by
        have h := congrArg List.length hshape
        rwa [Tree.shape, List.length_map, List.length_map] at h
      have hi : i < t.children.length := hlength ▸ wrappers_place hw
      have hany : (t.children.eraseIdx i).any (fun c => !c.isLeaf) = !(t.children.eraseIdx i).all Tree.isLeaf := by
        rw [List.any_eq_not_all_not]
        simp only [Bool.not_not]
      simp only [Option.isNone_some, pure_bind, hshape, hany, Tree.hasShape, item, List.getElem?_eq_getElem hi]
      cases (t.children.eraseIdx i).all Tree.isLeaf with
      | true => simp
      | false => simp; rfl
    · simp [hshape, Tree.hasShape]
      rfl

theorem descend_eq (t : Tree) : descend t = .ok t.core := by
  induction hn : t.size using Nat.strong_induction_on generalizing t with
  | _ n ih =>
    subst hn
    rw [descend_round]
    cases h : t.wrapped? with
    | none => rw [Tree.core_of_none h]
    | some c =>
      have hlt : c.size < t.size := Tree.size_child (Tree.wrapped?_mem h)
      rw [Tree.core_of_some h, ← ih _ hlt c rfl]
      exact if_pos hlt

/-! ## Loops along a spine -/

/-- A round of a loop at a node takes one item off its spine and converts it. -/
inductive Round (spine : Tree → Spine α) (f : α → Conversion β) (t : Tree) :
    Spine α → Raw (Option (β × Option Tree)) → Prop where
  | done : Round spine f t .done (.ok none)
  | broken (e : ConversionFailure) : Round spine f t (.broken e) (.error e.raw)
  | push (a : α) (rest : Tree) (hlt : rest.size < t.size) :
    Round spine f t ((spine rest).push a) (of (f a) >>= fun b => .ok (some (b, some rest)))
  | last (a : α) : Round spine f t (Spine.done.push a) (of (f a) >>= fun b => .ok (some (b, none)))
  | lastBroken (a : α) (e : ConversionFailure) :
    Round spine f t ((Spine.broken e).push a) (of (f a) >>= fun _ => .error e.raw)

theorem loop_eq {spine : Tree → Spine α} {f : α → Conversion β} {body : Tree → Raw (Option (β × Option Tree))}
    (h : ∀ t, Round spine f t (spine t) (body t)) (t : Tree) : loop body t = of ((spine t).mapM f) := by
  induction hn : t.size using Nat.strong_induction_on generalizing t with
  | _ n ih =>
    subst hn
    rw [loop]
    have hround := h t
    revert hround
    generalize spine t = s, body t = r
    intro hround
    cases hround with
    | done => rfl
    | broken e => rfl
    | push a rest hlt =>
      rw [Spine.mapM_push]
      cases f a with
      | error e => rfl
      | ok b =>
        simp only [of_ok, ok_bind, Lookahead.ok_bind, dif_pos hlt, ih rest.size hlt rest rfl, of_bind, of_pure]
        rfl
    | last a =>
      rw [Spine.mapM_push]
      cases f a <;> rfl
    | lastBroken a e =>
      rw [Spine.mapM_push]
      cases f a <;> rfl

end Raw
end Lookahead
