import Lookahead.Proofs.Grammar.Begins
import Lookahead.Proofs.Grammar.Follow

/-! FOLLOW sets against derivations: a nonterminal has in its set the terminals that come right after it in
what some nonterminal derives, and the end marker if the start symbol derives a form that it ends. -/
namespace Lookahead
namespace Grammar

/-- The terminal comes right after the nonterminal in a sentential form that some nonterminal derives, reachable
or not; or it is the end marker, and the start symbol derives a form with the nonterminal at its end. -/
def Trails (g : Grammar) (A t : String) : Prop :=
  (t ∈ g.terminals ∧ ∃ X ∈ g.nonterminals, ∃ α γ, g.Derives [X] (α ++ A :: t :: γ)) ∨
    (t = endMarker ∧ ∃ α, g.Derives [g.start] (α ++ [A]))

/-- The terminal can come after symbols that stand at the end of a form: they begin with it, or they vanish and
it comes after the form. -/
def Past (g : Grammar) (t : String) (after : Prop) (β : List String) : Prop :=
  g.Heads t β ∨ (g.AllVanish β ∧ after)

/-- Whatever can come after a nonterminal of the form follows it. -/
def Followed (g : Grammar) (t : String) (after : Prop) (σ : List String) : Prop :=
  ∀ α A β, σ = α ++ A :: β → A ∈ g.nonterminals → g.Past t after β → g.Follows t A

variable {g : Grammar} {p : Production} {s t A : String} {after : Prop} {α β σ τ : List String}

/-! ## Followers trail -/

theorem Derives.context (h : g.Derives [s] σ) (α β : List String) : g.Derives (α ++ s :: β) (α ++ (σ ++ β)) :=
  (h.append_right β).append_left α

theorem WellFormed.derives_rhs (hg : g.WellFormed) (hε : g.EpsilonReserved) (hp : p ∈ g.productions)
    (hrhs : p.rhs = α ++ s :: β) (hs : s ∈ g.nonterminals) : g.Derives [p.lhs] (α ++ s :: β) := by
  have hne : p.isEpsilon = false := by
    rw [Production.isEpsilon, decide_eq_false_iff_not, hrhs]
    intro he
    have hmem : s ∈ [epsilon] := he ▸ List.mem_append_right α List.mem_cons_self
    exact hε.ne (Or.inr hs) (List.mem_singleton.mp hmem)
  rw [← hrhs, ← hg.body_eq_rhs hp hne]
  exact .of_production hp

theorem Trails.inherit (h : g.Trails A t) (hd : g.Derives [A] (α ++ s :: β)) (hβ : g.AllVanish β) : g.Trails s t := by
  have hs : g.Derives [A] (α ++ [s]) := by
    have hvanish := (hβ.derives []).append_left (α ++ [s])
    simp only [List.append_nil, List.append_assoc, List.singleton_append] at hvanish
    exact hd.trans hvanish
  rcases h with ⟨ht, X, hX, δ, γ, hδ⟩ | ⟨ht, δ, hδ⟩
  · refine Or.inl ⟨ht, X, hX, δ ++ α, γ, hδ.trans ?_⟩
    have hstep := hs.context δ (t :: γ)
    rwa [List.append_assoc α, List.singleton_append, ← List.append_assoc] at hstep
  · refine Or.inr ⟨ht, δ ++ α, hδ.trans ?_⟩
    have hstep := hs.context δ []
    rwa [List.append_nil, ← List.append_assoc] at hstep

theorem Follows.trails (hg : g.WellFormed) (hε : g.EpsilonReserved) (h : g.Follows t s) : g.Trails s t := by
  induction h with
  | finish ht => exact Or.inr ⟨ht, [], .refl⟩
  | @next p α β s hp hrhs hs hβ =>
    obtain ⟨γ, hγ⟩ := hβ.derives
    refine Or.inl ⟨hβ.mem_terminals.1, p.lhs, hg.lhs_mem p hp, α, γ, (hg.derives_rhs hε hp hrhs hs).trans ?_⟩
    exact (hγ.cons s).append_left α
  | inherit hp hrhs hs hβ _ ih => exact ih.inherit (hg.derives_rhs hε hp hrhs hs) hβ

/-! ## What trails follows -/

theorem past_append {l m : List String} : g.Past t after (l ++ m) ↔ g.Heads t l ∨ (g.AllVanish l ∧ g.Past t after m) := by
  unfold Past
  rw [heads_append, allVanish_append]
  tauto

/-- Behind a nonterminal to the left, a right-hand side lets nothing through that its left-hand side does not. -/
theorem Past.unrewrite (hp : p ∈ g.productions) (h : g.Past t after (α ++ (p.body ++ β))) :
    g.Past t after (α ++ p.lhs :: β) := by
  rw [past_append, past_append] at h
  rw [past_append, ← List.singleton_append, past_append]
  rcases h with hα | ⟨hα, hb | ⟨hb, hβ⟩⟩
  · exact Or.inl hα
  · exact Or.inr ⟨hα, Or.inl (heads_cons.mpr (Or.inl (.of_heads hp hb)))⟩
  · exact Or.inr ⟨hα, Or.inr ⟨allVanish_cons.mpr ⟨.production hp hb, allVanish_nil⟩, hβ⟩⟩

section Followed
variable {A' : String} {β' m : List String}

/-- A nonterminal in a right-hand side or behind it, where its left-hand side stands in an orderly form. -/
theorem Followed.expand (hg : g.WellFormed) (hp : p ∈ g.productions) (h : g.Followed t after (α ++ p.lhs :: β))
    (hm : p.body ++ β = m ++ A :: β') (hA : A ∈ g.nonterminals) (hpast : g.Past t after β') : g.Follows t A := by
  rcases List.append_eq_append_iff.mp hm with ⟨k, -, hβ⟩ | ⟨k, hb, hk⟩
  · exact h (α ++ p.lhs :: k) A β' (by rw [hβ, List.append_assoc, List.cons_append]) hA hpast
  · cases k with
    | nil => exact h (α ++ [p.lhs]) A β' (by rw [← List.nil_append β, ← hk]; simp) hA hpast
    | cons a k =>
      rw [List.cons_append, List.cons.injEq] at hk
      obtain ⟨rfl, rfl⟩ := hk
      rcases past_append.mp hpast with hk | ⟨hk, hβ⟩
      · exact .of_heads hg hp hb hA hk
      · exact .of_allVanish hg hp hb hA hk (h α p.lhs β rfl (hg.lhs_mem p hp) hβ)

/-- One rewriting step keeps the invariant. The nonterminal that is looked at stands left of the right-hand
side, or else in it or right of it. -/
theorem Followed.rewrites (hg : g.WellFormed) (h : g.Followed t after σ) (hstep : g.Rewrites σ τ) :
    g.Followed t after τ := by
  cases hstep with
  | @production p α β hp =>
    intro α' A β' hτ hA hpast
    rcases List.append_eq_append_iff.mp hτ with ⟨m, -, hm⟩ | ⟨m, hα, hm⟩
    · exact h.expand hg hp hm hA hpast
    · cases m with
      | nil => exact h.expand hg hp (m := []) hm.symm hA hpast
      | cons a m =>
        rw [List.cons_append, List.cons.injEq] at hm
        obtain ⟨rfl, rfl⟩ := hm
        exact h α' A (m ++ p.lhs :: β) (by rw [hα, List.append_assoc, List.cons_append]) hA (hpast.unrewrite hp)

theorem Followed.derives (hg : g.WellFormed) (h : g.Followed t after σ) (hd : g.Derives σ τ) :
    g.Followed t after τ := by
  induction hd with
  | refl => exact h
  | tail _ hstep ih => exact ih.rewrites hg hstep

theorem Followed.single {X : String} (h : after → g.Follows t X) : g.Followed t after [X] := by
  intro α A β hσ _ hpast
  rw [List.singleton_eq_append_iff] at hσ
  rcases hσ with ⟨rfl, hσ⟩ | ⟨-, hσ⟩
  · rw [List.cons.injEq] at hσ
    obtain ⟨rfl, rfl⟩ := hσ
    exact hpast.elim (fun h => absurd h not_heads_nil) fun h' => h h'.2
  · cases hσ

end Followed

/-- The end counts as what comes after the whole form if the form is derived from the start symbol. -/
theorem Trails.follows (hg : g.WellFormed) (hε : g.EpsilonReserved) (hA : A ∈ g.nonterminals) (h : g.Trails A t) :
    g.Follows t A := by
  rcases h with ⟨ht, X, -, α, γ, hd⟩ | ⟨ht, α, hd⟩
  · have hform : g.Followed t False [X] := .single fun h => absurd h id
    refine hform.derives hg hd α A (t :: γ) rfl hA (Or.inl (heads_cons.mpr (Or.inl ?_)))
    exact .terminal ht (hε.ne (Or.inl ht))
  · have hform : g.Followed t True [g.start] := .single fun _ => .finish ht
    exact hform.derives hg hd α A [] rfl hA (Or.inr ⟨allVanish_nil, trivial⟩)

theorem follows_iff_trails (hg : g.WellFormed) (hε : g.EpsilonReserved) (hA : A ∈ g.nonterminals) :
    g.Follows t A ↔ g.Trails A t := ⟨fun h => h.trails hg hε, fun h => h.follows hg hε hA⟩

/-! ## Exactness -/

/-- The passes for FOLLOW end. Then every nonterminal has in its set the terminals that trail it, with the end
marker among them where it can end the input, and nothing else. -/
theorem follow_trails (hg : g.defects = []) (hm : g.MarksReserved) :
    ∃ first seed f, g.first = .ok first ∧ g.follow first.value = .ok f ∧ g.followSeed = .ok seed ∧
      (∀ n, g.followBound ≤ n → settle (g.followPass first.value) n seed = .ok f) ∧
      g.followPass first.value f.value = .ok f.value ∧
      ∀ A ∈ g.nonterminals, ∃ u, f.value.lookup A = .ok u ∧ epsilon ∉ u ∧ ∀ t, t ∈ u ↔ g.Trails A t := by
  have hwf := defects_eq_nil.mp hg
  have hε := hm.epsilonReserved
  obtain ⟨first, hfirst, hexact⟩ := first_exact hwf
  obtain ⟨seed, f, hseed, hf, hfix, hexact'⟩ := follow_settles hwf hexact
  refine ⟨first, seed, f, hfirst, ?_, hseed, hf, hfix, fun A hA => ?_⟩
  · rw [follow, hseed]
    exact hf g.followBound le_rfl
  · have hkey : A ∈ f.value.keys := (hexact'.keys A).mpr hA
    refine ⟨f.value.members A, Family.lookup_of_mem hkey, fun hmem => ?_, fun t => ?_⟩
    · rcases ((hexact'.follows A epsilon).mp hmem).mem_terminals with he | he
      · exact absurd he (by decide)
      · exact hε.1 he
    · rw [hexact'.follows, follows_iff_trails hwf hε hA]

/-- The nonterminal `A` is followed by what `B` begins with, which is what `S` begins with, and by the end, as
`B` vanishes. -/
theorem follow_trails_circular : circular.defects = [] ∧ circular.MarksReserved ∧
    ∃ first f u, circular.first = .ok first ∧ circular.follow first.value = .ok f ∧ f.value.lookup "A" = .ok u ∧
      "a" ∈ u ∧ endMarker ∈ u := by
  have hg : circular.defects = [] := by decide +kernel
  have hm : circular.MarksReserved := by decide +kernel
  obtain ⟨hA, hB, hS⟩ := circular_vanishes
  obtain ⟨first, seed, f, hfirst, hf, -, -, -, hsets⟩ := follow_trails hg hm
  have hmemA : "A" ∈ circular.nonterminals := by decide +kernel
  obtain ⟨u, hu, -, hmem⟩ := hsets "A" hmemA
  have hwf := defects_eq_nil.mp hg
  have hstart : circular.Derives ["S"] ["A", "B"] := by
    exact .of_production (p := ⟨1, "S", ["A", "B"]⟩) (by decide +kernel)
  refine ⟨hg, hm, first, f, u, hfirst, hf, hu, (hmem "a").mpr ?_, (hmem endMarker).mpr ?_⟩
  · have ha : circular.Starts "a" "A" := .production (p := ⟨2, "A", ["a", "A"]⟩) (α := []) (β := ["A"]) (by decide +kernel)
      (by decide +kernel) allVanish_nil (.terminal (by decide +kernel) (by decide +kernel))
    have haS : circular.Starts "a" "S" := .production (p := ⟨1, "S", ["A", "B"]⟩) (α := []) (β := ["B"])
      (by decide +kernel) (by decide +kernel) allVanish_nil ha
    have haB : circular.Starts "a" "B" := .production (p := ⟨4, "B", ["S", "b"]⟩) (α := []) (β := ["b"])
      (by decide +kernel) (by decide +kernel) allVanish_nil haS
    obtain ⟨γ, hγ⟩ := haB.derives
    exact Or.inl ⟨by decide +kernel, "S", by decide +kernel, [], γ, hstart.trans (hγ.cons "A")⟩
  · exact Or.inr ⟨rfl, [], hstart.trans (hB.derives.cons "A")⟩

end Grammar
end Lookahead
