import Lookahead.Proofs.Program.Alike
import Lookahead.Proofs.Script.Forest

/-! Places in a tree. Where a node stands, any alike one can stand, and the tokens around it stay. -/
namespace Lookahead

open Script

namespace Tree

/-- The node stands in the tree after so many of its tokens. -/
inductive At : Tree → ℕ → Tree → Prop
  | here (t : Tree) : At t 0 t
  | inside {s : String} {p : Option Int} {k : Option Token} {cs ds : List Tree} {c N : Tree} {i : ℕ} : At c i N →
      At (.node s p k (cs ++ c :: ds)) ((node s p k cs).leaves.length + i) N

variable {t N : Tree} {i : ℕ}

theorem at_first (s : String) (p : Option Int) (t : Tree) (ds : List Tree) : (node s p none (t :: ds)).At 0 t := by
  have h : (node s p none ([] ++ t :: ds)).At ((node s p none []).leaves.length + 0) t := .inside (.here t)
  simpa using h

theorem At.trans {u : Tree} {j : ℕ} (h : t.At i u) (h' : u.At j N) : t.At (i + j) N := by
  induction h with
  | here t => exact (Nat.zero_add j).symm ▸ h'
  | inside _ ih => exact Nat.add_assoc _ _ j ▸ .inside (ih h')

theorem At.mem_subtrees (h : t.At i N) : N ∈ t.subtrees := by
  induction h with
  | here t => exact self_mem_subtrees t
  | inside _ ih =>
    rw [subtrees_node, List.flatMap_append, List.flatMap_cons]
    exact List.mem_cons_of_mem _ (List.mem_append_right _ (List.mem_append_left _ ih))

/-- The nodes of a tree are those with a place in it. -/
theorem mem_subtrees_iff_at : N ∈ t.subtrees ↔ ∃ i, t.At i N := by
  refine ⟨fun h => ?_, fun h => h.choose_spec.mem_subtrees⟩
  induction hn : sizeOf t using Nat.strong_induction_on generalizing t with
  | _ n ih =>
    cases t with
    | node s p k cs =>
      rw [subtrees_node] at h
      cases h with
      | head => exact ⟨0, .here _⟩
      | tail _ hmem =>
        obtain ⟨c, hc, hN⟩ := List.mem_flatMap.mp hmem
        obtain ⟨i, hi⟩ := ih _ (hn ▸ sizeOf_child (t := node s p k cs) hc) hN rfl
        obtain ⟨cs, ds, rfl⟩ := List.append_of_mem hc
        exact ⟨_, .inside hi⟩

end Tree

namespace Script

variable {s : Symbol} {w : List Token} {T N : Tree} {i : ℕ}

/-- The tokens before a node, its own and those after it. The same tree can be put together around any alike node. -/
theorem Forest.replace (h : Forest [s] w [T]) (hplace : T.At i N) : ∃ r before v after, w = before ++ v ++ after ∧
    before.length = i ∧ Forest [r] v [N] ∧ ∀ v' N', Forest [r] v' [N'] → N.Alike N' →
      ∃ T', Forest [s] (before ++ v' ++ after) [T'] ∧ T.Alike T' := by
  -- The induction is on the way down to the node.
  induction hplace generalizing s w with
  | here T =>
    refine ⟨s, [], w, [], by simp, rfl, h, fun v' N' hN' halike => ⟨N', ?_, halike⟩⟩
    simpa using hN'
  | @inside _ _ _ cs ds c N i _ ih =>
    obtain ⟨l, p, F, hrule, heq, hF⟩ := h.exists_rule (h.mem_nonterminals (by simp [Tree.children]))
    obtain ⟨rfl, rfl, rfl, rfl⟩ := Tree.node.inj heq
    obtain ⟨l₁, l', w₁, w', rfl, rfl, hcs, hrest⟩ := hF.exists_split
    obtain ⟨r₀, l₂, rfl⟩ : ∃ r l₂, l' = r :: l₂ := by
      cases l' with
      | nil => cases hrest.symbols
      | cons r l₂ => exact ⟨r, l₂, rfl⟩
    obtain ⟨w₂, w₃, _, _, rfl, ⟨⟩, hc, hds⟩ := hrest.exists_cons
    obtain ⟨r, before, v, after, rfl, hi, hN, hreplace⟩ := ih hc
    refine ⟨r, w₁ ++ before, v, after ++ w₃, by simp, ?_, hN, fun v' N' hN' halike => ?_⟩
    · rw [List.length_append, hi, Tree.leaves_node, hcs.length_flatMap_leaves]
    · obtain ⟨c', hc', hcc⟩ := hreplace v' N' hN' halike
      obtain ⟨p', hnode⟩ := forest_node hrule (hcs.append (hc'.cons hds))
      refine ⟨.node s.name (some p') none (cs ++ c' :: ds), ?_, hcc.inside cs ds⟩
      simpa using hnode

end Script
end Lookahead
