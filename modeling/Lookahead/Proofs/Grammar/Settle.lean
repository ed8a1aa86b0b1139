import Lookahead.Grammar.First
import Lookahead.Proofs.Result

/-! Passes that only add something come to rest: a fold of growing steps grows, a fold that changes
nothing has changed nothing at any step, and a weight with a bound leaves no room for another pass. -/
namespace Lookahead

/-! ## One pass -/

section Fold
variable {σ π ε : Type} {step : σ → π → Except ε σ} {le : σ → σ → Prop} {ok : σ → Prop}

/-- A fold whose steps succeed, keep an invariant and grow does all three itself; where it ends as it
began, every step found nothing to add. -/
theorem foldlM_grows (hrefl : ∀ s, le s s) (htrans : ∀ s t u, le s t → le t u → le s u)
    (hanti : ∀ s t, le s t → le t s → s = t) (ps : List π)
    (hstep : ∀ p ∈ ps, ∀ s, ok s → ∃ t, step s p = .ok t ∧ ok t ∧ le s t) (s : σ) (hs : ok s) :
    ∃ t, ps.foldlM step s = .ok t ∧ ok t ∧ le s t ∧ (t = s → ∀ p ∈ ps, step s p = .ok s) := by
  induction ps generalizing s with
  | nil => exact ⟨s, rfl, hs, hrefl s, fun _ p hp => absurd hp List.not_mem_nil⟩
  | cons p ps ih =>
    obtain ⟨t, ht, hok, hle⟩ := hstep p List.mem_cons_self s hs
    obtain ⟨u, hu, hok', hle', hfix⟩ :=
      ih (fun q hq => hstep q (List.mem_cons_of_mem p hq)) t hok
    refine ⟨u, ?_, hok', htrans s t u hle hle', ?_⟩
    · rw [List.foldlM_cons, ht]
      exact hu
    · intro hus
      subst hus
      have hts : t = u := hanti t u hle' hle
      subst hts
      intro q hq
      rcases List.mem_cons.mp hq with rfl | hq
      · exact ht
      · exact hfix rfl q hq

end Fold

/-! ## All passes -/

section Settle
variable {α ε : Type} [DecidableEq α] (pass : α → Except ε α) (ok : α → Prop) (weight : α → ℕ) {bound : ℕ}

/-- Passes that add weight whenever they change something settle on a value that the next pass leaves
as it is, if as many are allowed as there is weight to add and one more. Allowing more of them changes
nothing. -/
theorem settle_fixed (hpass : ∀ a, ok a → ∃ b, pass a = .ok b ∧ ok b ∧ (b ≠ a → weight a < weight b))
    (hbound : ∀ a, ok a → weight a ≤ bound) (n : ℕ) (a : α) (ha : ok a) (hn : bound < n + weight a) :
    ∃ s, (∀ m, n ≤ m → settle pass m a = .ok s) ∧ ok s.value ∧ pass s.value = .ok s.value := by
  induction n generalizing a with
  | zero =>
    have := hbound a ha
    omega
  | succ n ih =>
    obtain ⟨b, hb, hok, hlt⟩ := hpass a ha
    by_cases hba : b = a
    · subst hba
      refine ⟨⟨b, 1⟩, fun m hm => ?_, hok, hb⟩
      obtain ⟨m, rfl⟩ : ∃ k, m = k + 1 := ⟨m - 1, by omega⟩
      simp [settle, hb]
    · have hw := hlt hba
      obtain ⟨s, hs, hoks, hfix⟩ := ih b hok (by omega)
      refine ⟨⟨s.value, s.passes + 1⟩, fun m hm => ?_, hoks, hfix⟩
      obtain ⟨m, rfl⟩ : ∃ k, m = k + 1 := ⟨m - 1, by omega⟩
      simp only [settle, hb, if_neg hba, hs m (by omega)]
      rfl

end Settle

section Congruence
variable {α ε : Type} [DecidableEq α] {pass pass' : α → Except ε α} {ok : α → Prop}

/-- Two passes settle alike if they do the same wherever an invariant holds that they keep. -/
theorem settle_congr (h : ∀ a, ok a → pass a = pass' a ∧ ∀ b, pass a = .ok b → ok b) (n : ℕ) {a : α} (ha : ok a) :
    settle pass n a = settle pass' n a ∧ ∀ s, settle pass n a = .ok s → ok s.value := by
  induction n generalizing a with
  | zero => exact ⟨rfl, fun s hs => Except.ok.inj hs ▸ ha⟩
  | succ n ih =>
    obtain ⟨heq, hok⟩ := h a ha
    rw [settle, settle, ← heq]
    cases hpass : pass a with
    | error e => exact ⟨rfl, nofun⟩
    | ok b =>
      dsimp only
      by_cases hba : b = a
      · rw [if_pos hba, if_pos hba]
        exact ⟨rfl, fun s hs => Except.ok.inj hs ▸ hok b hpass⟩
      · obtain ⟨hsettle, hvalue⟩ := ih (hok b hpass)
        rw [if_neg hba, if_neg hba, ← hsettle]
        refine ⟨rfl, fun s hs => ?_⟩
        obtain ⟨u, hu, rfl⟩ := map_eq_ok_iff.mp hs
        exact hvalue u hu

end Congruence
end Lookahead
