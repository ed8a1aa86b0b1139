import Lookahead.Proofs.Parse.Predict

/-! Why expansions at one lookahead come to an end. A symbol is below another if the expansion of the other
brings it to the top before the next token is matched. No symbol is below itself, however many steps
down, although the productions on the way may come from two columns of the table. -/
namespace Lookahead

/-- Two ways of cutting one list at an element: the second cut is to the left, the same, or to the right. -/
theorem cut_cases {ι : Type} {α β α' β' : List ι} {x y : ι} (h : α ++ x :: β = α' ++ y :: β') :
    (∃ γ, α = α' ++ y :: γ ∧ β' = γ ++ x :: β) ∨ (α = α' ∧ x = y ∧ β = β') ∨
      (∃ γ, α' = α ++ x :: γ ∧ β = γ ++ y :: β') := by
  rcases List.append_eq_append_iff.mp h with ⟨m, hα, hm⟩ | ⟨m, hα, hm⟩
  · cases m with
    | nil =>
      rw [List.nil_append, List.cons.injEq] at hm
      exact Or.inr (Or.inl ⟨by rw [hα, List.append_nil], hm.1, hm.2⟩)
    | cons a γ =>
      rw [List.cons_append, List.cons.injEq] at hm
      exact Or.inr (Or.inr ⟨γ, by rw [hα, hm.1], hm.2⟩)
  · cases m with
    | nil =>
      rw [List.nil_append, List.cons.injEq] at hm
      exact Or.inr (Or.inl ⟨by rw [hα, List.append_nil], hm.1.symm, hm.2.symm⟩)
    | cons a γ =>
      rw [List.cons_append, List.cons.injEq] at hm
      exact Or.inl ⟨γ, by rw [hα, hm.1], hm.2⟩

namespace Parser
variable {P : Parser} {p : Production} {s t x : String}

/-! ## Passing over and being below -/

/-- The lookahead takes the symbol away without being matched, as far as its first expansion tells. -/
def Passes (P : Parser) (t s : String) : Prop :=
  ∃ p, P.predict s t = some p ∧ P.grammar.AllVanish p.body ∧ ¬ P.grammar.Heads t p.body

/-- At the lookahead `t` the symbol `x` comes to the top once the ones before it have passed. -/
def Below (P : Parser) (t x s : String) : Prop :=
  ∃ p α β, P.predict s t = some p ∧ p.body = α ++ x :: β ∧ ∀ r ∈ α, P.Passes t r

theorem Passes.vanishes (h : P.grammar.Decides P.table) (hs : P.Passes t s) : P.grammar.Vanishes s := by
  obtain ⟨p, hp, hvanish, -⟩ := hs
  obtain ⟨hmem, hlhs, -⟩ := predict_cases h hp
  exact hlhs ▸ .production hmem hvanish

theorem Passes.not_starts (h : P.grammar.Decides P.table) (hs : P.Passes t s) : ¬ P.grammar.Starts t s := by
  intro hstart
  have hn := (hs.vanishes h).mem_nonterminals h.wellFormed
  obtain ⟨p, hp, -, hheads⟩ := hs
  obtain ⟨q, hq, rfl, hq'⟩ := hstart.exists_production hn h.wellFormed
  rw [predict_of_predicts h hq (Or.inl hq'), Option.some.injEq] at hp
  exact hheads (hp ▸ hq')

theorem passes_of_body (h : P.grammar.Decides P.table) (hp : P.predict s t = some p)
    (hbody : ∀ r ∈ p.body, P.Passes t r) : P.Passes t s := by
  refine ⟨p, hp, fun r hr => (hbody r hr).vanishes h, ?_⟩
  rintro ⟨α, r, β, hb, -, hr⟩
  exact (hbody r (hb ▸ List.mem_append_right α List.mem_cons_self)).not_starts h hr

/-! ## Nothing is below itself -/

theorem acc_of_predict_none (hs : P.predict s t = none) : Acc (P.Below t) s := by
  apply Acc.intro
  intro x hx
  obtain ⟨p, α, β, hp, -⟩ := hx
  rw [hs] at hp
  cases hp

theorem acc_of_terminal (h : P.grammar.Decides P.table) (hs : s ∈ P.grammar.terminals) : Acc (P.Below t) s := by
  apply Acc.intro
  intro x hx
  obtain ⟨p, α, β, hp, -⟩ := hx
  exact absurd (mem_nonterminals_of_predict h hp) (h.wellFormed.disjoint s hs)

/-- A symbol that vanishes under the lookahead or the operator has only such symbols below it: there is one
production by which it can vanish, whichever column it is found in. The induction is on how it vanishes. -/
theorem acc_of_vanishes (h : P.grammar.Decides P.table) (hv : P.grammar.Vanishes s)
    (hs : ¬ P.grammar.Starts t s) (hf : P.grammar.Follows t s ∨ P.grammar.Follows P.operator s) :
    Acc (P.Below t) s := by
  induction hv with
  | @production q hq hbody ih =>
    apply Acc.intro
    intro x hx
    obtain ⟨p, α, β, hp, hb, hα⟩ := hx
    obtain ⟨hmem, hlhs, hcases⟩ := predict_cases h hp
    have hpq : p = q := by
      rcases hcases with hpt | ⟨-, hpo, hnone⟩
      · rcases hpt with hheads | ⟨hpv, hpf⟩
        · exact absurd (hlhs ▸ Grammar.Starts.of_heads hmem hheads) hs
        · exact h.unique hmem hq hlhs (Or.inr ⟨hpv, hpf⟩) (Or.inr ⟨hbody, hlhs ▸ hpf⟩)
      · have hfo : P.grammar.Follows P.operator q.lhs :=
          hf.resolve_left fun hft => hnone q hq rfl (Or.inr ⟨hbody, hft⟩)
        exact h.unique hmem hq hlhs hpo (Or.inr ⟨hbody, hfo⟩)
    subst hpq
    have hx : x ∈ p.body := hb ▸ List.mem_append_right α List.mem_cons_self
    have hxn := (hbody x hx).mem_nonterminals h.wellFormed
    have hαv : P.grammar.AllVanish α := fun r hr => hbody r (hb ▸ List.mem_append_left _ hr)
    have hβv : P.grammar.AllVanish β := fun r hr =>
      hbody r (hb ▸ List.mem_append_right α (List.mem_cons_of_mem x hr))
    apply ih x hx fun hstart => hs (.production hq hb hαv hstart)
    exact hf.imp (.of_allVanish h.wellFormed hq hb hxn hβv) (.of_allVanish h.wellFormed hq hb hxn hβv)

/-- A symbol that the lookahead starts has below it one that the lookahead starts in fewer steps, and before
that one only symbols that vanish under the lookahead. -/
theorem acc_of_starts (h : P.grammar.Decides P.table) (hs : P.grammar.Starts t s) : Acc (P.Below t) s := by
  induction hs with
  | terminal ht _ => exact acc_of_terminal h ht
  | @production q α β r hq hb hα hr ih =>
    apply Acc.intro
    intro x hx
    obtain ⟨p, α', β', hp, hb', hα'⟩ := hx
    rw [predict_of_predicts h hq (Or.inl ⟨α, r, β, hb, hα, hr⟩), Option.some.injEq] at hp
    subst hp
    rcases cut_cases (hb.symm.trans hb') with ⟨γ, rfl, rfl⟩ | ⟨-, rfl, -⟩ | ⟨γ, rfl, -⟩
    · rw [Grammar.allVanish_append, Grammar.allVanish_cons] at hα
      have hxn := hα.2.1.mem_nonterminals h.wellFormed
      have hf : P.grammar.Follows t x := .of_heads h.wellFormed hq hb' hxn ⟨γ, r, β, rfl, hα.2.2, hr⟩
      exact acc_of_vanishes h hα.2.1 (fun hstart => h.not_follows hα.2.1 hstart hf) (Or.inl hf)
    · exact ih
    · exact absurd hr ((hα' r (List.mem_append_right α List.mem_cons_self)).not_starts h)

theorem acc_of_not_starts (h : P.grammar.Decides P.table) (hs : ¬ P.grammar.Starts t s)
    (ho : t ∈ P.grammar.operators → ¬ P.grammar.Starts P.operator s) : Acc (P.Below t) s := by
  cases hp : P.predict s t with
  | none => exact acc_of_predict_none hp
  | some p =>
    obtain ⟨hmem, rfl, hcases⟩ := predict_cases h hp
    rcases hcases with hpt | ⟨hop, hpo, -⟩
    · rcases hpt with hheads | ⟨hv, hf⟩
      · exact absurd (.of_heads hmem hheads) hs
      · exact acc_of_vanishes h (.production hmem hv) hs (Or.inl hf)
    · rcases hpo with hheads | ⟨hv, hf⟩
      · exact absurd (.of_heads hmem hheads) (ho hop)
      · exact acc_of_vanishes h (.production hmem hv) hs (Or.inr hf)

/-- A symbol that the generic operator starts and the lookahead does not: below it is one that the operator
starts in fewer steps, and the symbols around that one are started by neither. -/
theorem acc_of_operator_starts (h : P.grammar.Decides P.table) (ho : P.grammar.Starts P.operator s)
    (hs : ¬ P.grammar.Starts t s) : Acc (P.Below t) s := by
  induction ho with
  | terminal ht _ => exact acc_of_terminal h ht
  | @production q α β r hq hb hα hr ih =>
    -- Under the lookahead itself it can only vanish.
    by_cases hvf : P.grammar.Vanishes q.lhs ∧ P.grammar.Follows t q.lhs
    · exact acc_of_vanishes h hvf.1 hs (Or.inl hvf.2)
    apply Acc.intro
    intro x hx
    obtain ⟨p, α', β', hp, hb', hα'⟩ := hx
    obtain ⟨hmem, hlhs, hcases⟩ := predict_cases h hp
    have hpq : p = q := by
      rcases hcases with hpt | ⟨-, hpo, -⟩
      · rcases hpt with hheads | ⟨hv, hf⟩
        · exact absurd (hlhs ▸ Grammar.Starts.of_heads hmem hheads) hs
        · exact absurd ⟨hlhs ▸ Grammar.Vanishes.production hmem hv, hlhs ▸ hf⟩ hvf
      · exact h.unique hmem hq hlhs hpo (Or.inl ⟨α, r, β, hb, hα, hr⟩)
    subst hpq
    have hα'v : P.grammar.AllVanish α' := fun r hr => (hα' r hr).vanishes h
    have hxs : ¬ P.grammar.Starts t x := fun hstart => hs (.production hq hb' hα'v hstart)
    rcases cut_cases (hb.symm.trans hb') with ⟨γ, rfl, rfl⟩ | ⟨-, rfl, -⟩ | ⟨γ, rfl, rfl⟩
    · rw [Grammar.allVanish_append, Grammar.allVanish_cons] at hα
      have hxn := hα.2.1.mem_nonterminals h.wellFormed
      exact acc_of_vanishes h hα.2.1 hxs (Or.inr (.of_heads h.wellFormed hq hb' hxn ⟨γ, r, β, rfl, hα.2.2, hr⟩))
    · exact ih hxs
    · -- The operator cannot start what comes after a vanishing symbol that it starts as well.
      apply acc_of_not_starts h hxs
      intro _ hstart
      rw [Grammar.allVanish_append, Grammar.allVanish_cons] at hα'v
      have hrn := hα'v.2.1.mem_nonterminals h.wellFormed
      exact h.not_follows hα'v.2.1 hr (.of_heads h.wellFormed hq hb hrn ⟨γ, x, β', rfl, hα'v.2.2, hstart⟩)

theorem below_wellFounded (h : P.grammar.Decides P.table) (t : String) : WellFounded (P.Below t) := by
  constructor
  intro s
  by_cases hs : P.grammar.Starts t s
  · exact acc_of_starts h hs
  · by_cases ho : P.grammar.Starts P.operator s
    · exact acc_of_operator_starts h ho hs
    · exact acc_of_not_starts h hs fun _ => ho

end Parser
end Lookahead
