import Lookahead.Proofs.Parse.Below
import Lookahead.Proofs.Parse.Run
import Mathlib.Order.WellFounded

/-! Termination of predictive parsers. Each symbol has a level that falls from a symbol to the ones below
it. The level bounds the steps a stack allows before the next token is matched, and the size of the
stack when it is. -/
namespace Lookahead
namespace Parser
open Relation
open scoped Classical

/-! ## Levels and costs -/

theorem le_foldl_max {l : List ℕ} {n : ℕ} : (∀ m ∈ l, m ≤ l.foldl max n) ∧ n ≤ l.foldl max n := by
  induction l generalizing n with
  | nil => simp
  | cons a l ih =>
    rw [List.foldl_cons, List.forall_mem_cons]
    have h := ih (n := max n a)
    exact ⟨⟨le_trans (le_max_right n a) h.2, h.1⟩, le_trans (le_max_left n a) h.2⟩

theorem length_body_le {P : Parser} {p : Production} (hp : p ∈ P.grammar.productions) :
    p.body.length ≤ P.widest := by
  have hbody : p.body.length ≤ p.rhs.length := List.length_filter_le _ _
  have hrhs : p.rhs.length ∈ P.grammar.productions.map fun p => p.rhs.length := List.mem_map_of_mem hp
  exact le_trans hbody (le_foldl_max.1 _ hrhs)

/-- The number of nonterminals that can come to the top out of a symbol, itself included. -/
noncomputable def level (P : Parser) (t s : String) : ℕ :=
  (P.grammar.nonterminals.toFinset.filter fun x => ReflTransGen (P.Below t) x s).card

/-- A bound on the nodes that a symbol can give rise to before the next token is matched. -/
noncomputable def cost (P : Parser) (t s : String) : ℕ := (P.widest + 1) ^ P.level t s

section Cost
variable {P : Parser} {p : Production} {t s x : String}

theorem level_le_size : P.level t s ≤ P.grammar.nonterminals.size := by
  rw [← NameSet.card_toFinset]
  exact Finset.card_le_card (Finset.filter_subset _ _)

theorem mem_own_level (h : P.grammar.Decides P.table) (hp : P.predict s t = some p) :
    s ∈ P.grammar.nonterminals.toFinset.filter fun x => ReflTransGen (P.Below t) x s := by
  rw [Finset.mem_filter, NameSet.mem_toFinset]
  exact ⟨mem_nonterminals_of_predict h hp, .refl⟩

theorem level_lt_of_below (h : P.grammar.Decides P.table) (hx : P.Below t x s) : P.level t x < P.level t s := by
  refine Finset.card_lt_card (Finset.ssubset_iff_of_subset ?_ |>.mpr ⟨s, ?_, ?_⟩)
  · exact Finset.monotone_filter_right _ fun y _ hy => hy.tail hx
  · obtain ⟨p, α, β, hp, -⟩ := hx
    exact mem_own_level h hp
  · intro hs
    have hloop : TransGen (P.Below t) s s := TransGen.tail' (Finset.mem_filter.mp hs).2 hx
    exact (below_wellFounded h t).transGen.irrefl.irrefl s hloop

theorem one_le_cost : 1 ≤ P.cost t s := Nat.one_le_pow _ _ (Nat.succ_pos _)

theorem cost_le_spread : P.cost t s ≤ P.spread := by
  have hexp : P.level t s ≤ 3 * P.grammar.nonterminals.size + 2 := le_trans level_le_size (by omega)
  exact Nat.pow_le_pow_right (Nat.succ_pos _) hexp

end Cost

/-! ## Stacks -/

/-- A bound on the expansions before the next token is matched: symbols under one that does not pass stay
as they are. -/
noncomputable def active (P : Parser) (t : String) : List String → ℕ
  | [] => 0
  | s :: l => P.cost t s + if P.Passes t s then P.active t l else 0

/-- A bound on the size of the stack until the next token is matched. -/
noncomputable def extent (P : Parser) (t : String) : List String → ℕ
  | [] => 0
  | s :: l => max (P.cost t s + l.length) (if P.Passes t s then P.extent t l else 0)

/-- What comes to the top out of a sequence, once the symbols before it have passed, costs no more than `C`. -/
def Affords (P : Parser) (t : String) (C : ℕ) (m : List String) : Prop :=
  ∀ α x β, m = α ++ x :: β → (∀ r ∈ α, P.Passes t r) → P.cost t x ≤ C

section Stack
variable {P : Parser} {p : Production} {t s : String} {l m : List String}

theorem active_le {W : ℕ} (hW : ∀ s, P.cost t s ≤ W) : P.active t l ≤ l.length * W := by
  induction l with
  | nil => exact Nat.zero_le _
  | cons s l ih =>
    rw [active, List.length_cons, Nat.succ_mul]
    have hs := hW s
    split <;> omega

theorem extent_le {W : ℕ} (hW : ∀ s, P.cost t s ≤ W) : P.extent t l ≤ l.length + W := by
  induction l with
  | nil => exact Nat.zero_le _
  | cons s l ih =>
    rw [extent, List.length_cons]
    have hs := hW s
    split <;> omega

theorem length_lt_extent : l.length < P.extent t (s :: l) := by
  have hs : 1 ≤ P.cost t s := one_le_cost
  rw [extent]
  omega

theorem Affords.head {C : ℕ} (h : P.Affords t C (s :: m)) : P.cost t s ≤ C := h [] s m rfl (by simp)

theorem Affords.tail {C : ℕ} (h : P.Affords t C (s :: m)) (hs : P.Passes t s) : P.Affords t C m := by
  intro α x β hx hα
  exact h (s :: α) x β (by rw [hx, List.cons_append]) (List.forall_mem_cons.mpr ⟨hs, hα⟩)

theorem active_append_le {C : ℕ} (h : P.Affords t C m) :
    P.active t (m ++ l) ≤ m.length * C + if ∀ r ∈ m, P.Passes t r then P.active t l else 0 := by
  induction m with
  | nil => simp
  | cons s m ih =>
    have hs := h.head
    rw [List.cons_append, active, List.length_cons, Nat.succ_mul]
    by_cases hpass : P.Passes t s
    · have hm := ih (h.tail hpass)
      rw [if_pos hpass]
      simp only [List.forall_mem_cons, hpass, true_and]
      omega
    · rw [if_neg hpass]
      omega

theorem extent_append_le {C : ℕ} (h : P.Affords t C m) :
    P.extent t (m ++ l) ≤ max (C + m.length - 1 + l.length) (if ∀ r ∈ m, P.Passes t r then P.extent t l else 0) := by
  induction m with
  | nil => simp
  | cons s m ih =>
    have hs := h.head
    rw [List.cons_append, extent, List.length_cons, List.length_append]
    by_cases hpass : P.Passes t s
    · have hm := ih (h.tail hpass)
      rw [if_pos hpass]
      simp only [List.forall_mem_cons, hpass, true_and]
      omega
    · rw [if_neg hpass]
      omega

/-! ## One expansion -/

/-- Whatever an expansion brings to the top costs less than the symbol expanded by a factor that exceeds
the length of a body. -/
theorem expand_cost (h : P.grammar.Decides P.table) (hp : P.predict s t = some p) :
    ∃ C, 1 ≤ C ∧ P.cost t s = C * P.widest + C ∧ P.Affords t C p.body := by
  have hpos : 0 < P.level t s := Finset.card_pos.mpr ⟨s, mem_own_level h hp⟩
  refine ⟨(P.widest + 1) ^ (P.level t s - 1), Nat.one_le_pow _ _ (Nat.succ_pos _), ?_, fun α x β hb hα => ?_⟩
  · rw [← Nat.mul_succ, ← pow_succ, Nat.sub_add_cancel hpos, cost]
  · have hlt := level_lt_of_below h ⟨p, α, β, hp, hb, hα⟩
    exact Nat.pow_le_pow_right (Nat.succ_pos _) (by omega)

theorem active_expand (h : P.grammar.Decides P.table) (hp : P.predict s t = some p) :
    P.active t (p.body ++ l) < P.active t (s :: l) := by
  obtain ⟨C, hpos, hcost, hC⟩ := expand_cost h hp
  have hlen : p.body.length * C ≤ C * P.widest := by
    rw [Nat.mul_comm]
    exact Nat.mul_le_mul_left C (length_body_le (predict_cases h hp).1)
  have hbody := active_append_le (l := l) hC
  rw [active]
  by_cases hall : ∀ r ∈ p.body, P.Passes t r
  · rw [if_pos hall] at hbody
    rw [if_pos (passes_of_body h hp hall)]
    omega
  · rw [if_neg hall] at hbody
    omega

theorem extent_expand (h : P.grammar.Decides P.table) (hp : P.predict s t = some p) :
    P.extent t (p.body ++ l) ≤ P.extent t (s :: l) := by
  obtain ⟨C, hpos, hcost, hC⟩ := expand_cost h hp
  have hlen : p.body.length ≤ C * P.widest :=
    le_trans (length_body_le (predict_cases h hp).1) (Nat.le_mul_of_pos_left _ hpos)
  have hbody := extent_append_le (l := l) hC
  rw [extent]
  by_cases hall : ∀ r ∈ p.body, P.Passes t r
  · rw [if_pos hall] at hbody
    rw [if_pos (passes_of_body h hp hall)]
    omega
  · rw [if_neg hall] at hbody
    omega

end Stack

/-! ## Runs -/

section Halting
variable {P : Parser}

/-- A configuration halts if every one does that it can reach by matching the next token. The induction is on
the expansions that its stack still allows. -/
theorem halts_of_matched (h : P.grammar.Decides P.table) {n : ℕ} {k : ℕ} {token : Token} {rest : List Token}
    {i : ℕ} {stack : List String}
    (hnext : ∀ j l, l.length < P.extent (P.terminalOf token) stack → P.HaltsWithin n ⟨j, k + 1, l, rest⟩) :
    P.HaltsWithin (P.active (P.terminalOf token) stack + n + 1) ⟨i, k, stack, token :: rest⟩ := by
  induction hm : P.active (P.terminalOf token) stack using Nat.strong_induction_on generalizing i stack with
  | _ m ih =>
    intro s d hmove
    have heff := P.move_effect ⟨i, k, stack, token :: rest⟩
    rw [hmove] at heff
    cases heff with
    | expand htop hn hp =>
      rename_i top below p
      subst hm
      have hactive : P.active _ (p.body ++ below) < P.active _ (top :: below) := active_expand h hp
      refine (ih _ hactive (fun j l hl => hnext j l ?_) rfl).mono (by omega)
      exact lt_of_lt_of_le hl (extent_expand h hp)
    | matched htop hn hadmits => exact (hnext _ _ length_lt_extent).mono (by omega)

/-- A bound on the steps for `r` tokens and a stack of size `n`, if no symbol costs more than `W`. -/
def stepsFor (W : ℕ) : ℕ → ℕ → ℕ
  | 0, _ => 1
  | r + 1, n => n * W + stepsFor W r (n + W) + 1

theorem stepsFor_le (W r n : ℕ) : stepsFor W r n ≤ (r + 1) * ((n + r * W) * W + 1) := by
  induction r generalizing n with
  | zero => simp [stepsFor]
  | succ r ih =>
    have hsize : n + W + r * W = n + (r + 1) * W := by
      rw [Nat.succ_mul]
      omega
    have hrest := ih (n + W)
    have hfirst : n * W ≤ (n + (r + 1) * W) * W := Nat.mul_le_mul_right W (Nat.le_add_right _ _)
    rw [hsize] at hrest
    rw [stepsFor, Nat.succ_mul (r + 1)]
    omega

theorem halts_stepsFor (h : P.grammar.Decides P.table) {i k n : ℕ} {stack : List String} {rest : List Token}
    (hn : stack.length ≤ n) : P.HaltsWithin (stepsFor P.spread rest.length n) ⟨i, k, stack, rest⟩ := by
  induction rest generalizing i k n stack with
  | nil =>
    intro s d hmove
    have heff := P.move_effect ⟨i, k, stack, []⟩
    rw [hmove] at heff
    cases heff
  | cons token rest ih =>
    have hcost : ∀ s, P.cost (P.terminalOf token) s ≤ P.spread := fun s => cost_le_spread
    have hactive : P.active (P.terminalOf token) stack ≤ n * P.spread :=
      le_trans (active_le hcost) (Nat.mul_le_mul_right _ hn)
    have hextent : P.extent (P.terminalOf token) stack ≤ n + P.spread := le_trans (extent_le hcost) (by omega)
    refine (halts_of_matched h fun j l hl => ih (n := n + P.spread) (by omega)).mono ?_
    rw [List.length_cons, stepsFor]
    omega

theorem halts (h : P.grammar.Decides P.table) (c : Config) : ∃ n, P.HaltsWithin n c :=
  ⟨_, halts_stepsFor h le_rfl⟩

theorem initial_halts (h : P.grammar.Decides P.table) (tokens : List Token) :
    P.HaltsWithin (P.stepBound tokens.length) (P.initial tokens) := by
  apply HaltsWithin.mono (halts_stepsFor (n := 2) h le_rfl)
  exact le_trans (stepsFor_le _ _ _) (Nat.le_succ _)

/-- A run is made of the moves from the initial configuration to one that halts. -/
theorem runs_run (h : P.grammar.Decides P.table) (tokens : List Token) :
    P.Runs (P.initial tokens) (P.run tokens).steps (P.run tokens).outcome := by
  obtain ⟨steps, o, hrun, hruns⟩ := runFrom_eq (initial_halts h tokens) []
  rw [run, hrun]
  exact hruns

end Halting

/-! ## No run goes on forever -/

def Next (P : Parser) (d c : Config) : Prop := ∃ s, P.move c = .proceed s d

theorem HaltsWithin.acc {P : Parser} {n : ℕ} {c : Config} (h : P.HaltsWithin n c) : Acc P.Next c := by
  induction n generalizing c with
  | zero => exact absurd h id
  | succ n ih => exact Acc.intro c fun d hd => hd.elim fun s hmove => ih (h s d hmove)

/-- A valid parser ends with every token list, from every configuration, and the bound on the steps of its
run is never what ends it. -/
theorem run_terminates (P : Parser) (hP : P.Valid) :
    WellFounded P.Next ∧ ∀ tokens,
      P.Runs (P.initial tokens) (P.run tokens).steps (P.run tokens).outcome ∧
        (P.run tokens).outcome ≠ .unfinished := by
  refine ⟨⟨fun c => ?_⟩, fun tokens => ?_⟩
  · obtain ⟨n, hn⟩ := halts hP.decides c
    exact hn.acc
  · have hruns := runs_run hP.decides tokens
    exact ⟨hruns, hruns.ne_unfinished⟩

theorem run_terminates_sums : ∃ P : Parser, P.grammar = sums ∧ P.operator = "op" ∧ P.Valid ∧ WellFounded P.Next ∧
    ∀ tokens, (P.run tokens).outcome ≠ .unfinished := by
  obtain ⟨a, -, hgrammar, hvalid⟩ := exists_sums
  obtain ⟨hwf, hruns⟩ := run_terminates ⟨a.table, Token.lexeme, "op"⟩ (hvalid _ _)
  exact ⟨⟨a.table, Token.lexeme, "op"⟩, hgrammar, rfl, hvalid _ _, hwf, fun tokens => (hruns tokens).2⟩

end Parser
end Lookahead
