import Mathlib.Data.List.Basic

/-! Computations that can fail: which of them succeed, what a list of them returns, and when two folds of them are
the same. -/
namespace Lookahead

section Results
variable {ε ε' α β : Type} {x : Except ε α} {a : α} {b : β}

theorem bind_eq_ok_iff {f : α → Except ε β} : x >>= f = .ok b ↔ ∃ a, x = .ok a ∧ f a = .ok b := by
  cases x with
  | error e => simp [bind, Except.bind]
  | ok a => simp [bind, Except.bind]

theorem map_eq_ok_iff {f : α → β} : f <$> x = .ok b ↔ ∃ a, x = .ok a ∧ f a = b := by
  cases x <;> simp [Functor.map, Except.map]

theorem mapError_eq_ok_iff {f : ε → ε'} : x.mapError f = .ok a ↔ x = .ok a := by
  cases x with
  | error e => exact ⟨nofun, nofun⟩
  | ok a => exact ⟨fun h => congrArg Except.ok (Except.ok.inj h), fun h => congrArg Except.ok (Except.ok.inj h)⟩

theorem mapM_eq_ok {f : α → Except ε β} (value : α → β) {l : List α} (h : ∀ a ∈ l, f a = .ok (value a)) :
    l.mapM f = .ok (l.map value) := by
  induction l with
  | nil => rfl
  | cons a l ih =>
    rw [List.forall_mem_cons] at h
    rw [List.mapM_cons, h.1, ih h.2]
    rfl

end Results

section Folds
variable {ε σ π : Type} {P : σ → Prop}

/-- Two folds are the same if their steps are where an invariant holds that the steps keep. -/
theorem foldlM_congr {step step' : σ → π → Except ε σ} {ps : List π}
    (h : ∀ p ∈ ps, ∀ s, P s → step s p = step' s p ∧ ∀ t, step s p = .ok t → P t) {s : σ} (hs : P s) :
    ps.foldlM step s = ps.foldlM step' s ∧ ∀ t, ps.foldlM step s = .ok t → P t := by
  induction ps generalizing s with
  | nil => exact ⟨rfl, fun t ht => Except.ok.inj ht ▸ hs⟩
  | cons p ps ih =>
    obtain ⟨heq, hok⟩ := h p List.mem_cons_self s hs
    rw [List.foldlM_cons, List.foldlM_cons, ← heq]
    cases hstep : step s p with
    | error e => exact ⟨rfl, nofun⟩
    | ok t => exact ih (fun q hq => h q (List.mem_cons_of_mem p hq)) (hok t hstep)

end Folds
end Lookahead
