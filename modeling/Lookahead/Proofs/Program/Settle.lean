import Lookahead.Proofs.Program.Depth

/-! Conversions under a growing limit. From some limit on the result is always the same; what it says of the tree is
put together along the way, a success from what every part has to say and a failure from the first part that fails. -/
namespace Lookahead
variable {α β : Type} {good good' : Prop} {bad bad' : ConversionFailure → Prop} {x : ℕ → Conversion α} {a : α}
  {f : ConversionFailure}

/-- What a result says: `good` if it is a value, and that the failure is `bad` if it is none. -/
def Says (good : Prop) (bad : ConversionFailure → Prop) : Conversion α → Prop
  | .ok _ => good
  | .error f => bad f

/-- Up to some limit `x` is too deep, and above it always has the same result, which says `good` or `bad`. -/
def Settles (good : Prop) (bad : ConversionFailure → Prop) (x : ℕ → Conversion α) : Prop :=
  ∃ d r, (∀ n, x n = within d n r) ∧ Says good bad r

namespace Settles

theorem ok (h : good) (a : α) : Settles good bad fun _ => .ok a := ⟨0, .ok a, fun _ => within_zero.symm, h⟩

theorem error (h : bad f) : Settles good bad fun _ => (.error f : Conversion α) :=
  ⟨0, .error f, fun _ => within_zero.symm, h⟩

theorem mono (hx : Settles good bad x) (hgood : good → good') (hbad : ∀ f, bad f → bad' f) : Settles good' bad' x := by
  obtain ⟨d, r, hr, hsays⟩ := hx
  refine ⟨d, r, hr, ?_⟩
  cases r with
  | ok a => exact hgood hsays
  | error f => exact hbad f hsays

/-- What the first part says is known to the rest, which only runs where the first part has a value. -/
theorem bind {y : α → ℕ → Conversion β} (hx : Settles good bad x) (hy : good → ∀ a, Settles good' bad (y a)) :
    Settles good' bad fun n => x n >>= fun a => y a n := by
  obtain ⟨d, r, hr, hsays⟩ := hx
  simp only [hr, within_bind]
  cases r with
  | error f => exact ⟨d, .error f, fun _ => rfl, hsays⟩
  | ok a =>
    obtain ⟨e, r', hr', hsays'⟩ := hy hsays a
    refine ⟨max d e, r', fun n => ?_, hsays'⟩
    dsimp only
    rw [ok_bind, hr', within_within]

theorem map (hx : Settles good bad x) (g : α → β) : Settles good bad fun n => g <$> x n := by
  simp only [map_eq_pure_bind]
  exact hx.bind fun h a => .ok h (g a)

/-- One more conversion is under way around `x`. -/
theorem deeper {y : ℕ → Conversion α} (hx : Settles good bad x) (hzero : y 0 = .error tooDeep)
    (hsucc : ∀ n, y (n + 1) = x n) : Settles good bad y := by
  obtain ⟨d, r, hr, hsays⟩ := hx
  exact ⟨d + 1, r, within_of_succ hzero fun n => (hsucc n).trans (hr n), hsays⟩

theorem of_eq_ok (hx : Settles good bad x) {n : ℕ} (h : x n = .ok a) : good := by
  obtain ⟨d, r, hr, hsays⟩ := hx
  rw [hr, within] at h
  split at h
  · rw [h] at hsays
    exact hsays
  · cases h

end Settles
end Lookahead
