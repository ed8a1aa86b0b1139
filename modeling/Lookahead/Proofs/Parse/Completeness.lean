import Lookahead.Proofs.Parse.Soundness

/-! Completeness. A forest over the symbols on a coherent stack tells the moves to make: each of its nodes is
expanded by the production that the lookahead predicts, so that the run ends with the forest itself. -/
namespace Lookahead
namespace Parser
variable {P : Parser} {σ : List String} {w : List Token} {F : List Tree}

theorem reaches_of_grows {g : Grammar} {terminalOf : Token → String} (hg : g.WellFormed) (hm : g.MarksReserved)
    (h : Tree.Grows g (fun s k => terminalOf k = s) σ w F) :
    g.Reaches (σ ++ [endMarker]) (w.map terminalOf ++ [endMarker]) := by
  obtain ⟨hterminals, hderives⟩ := h.derives
  have hword := hderives.append_right [endMarker]
  rw [← List.append_nil (w.map terminalOf ++ [endMarker])] at hword
  refine hword.reaches (List.forall_mem_append.mpr ⟨fun s hs => hg.disjoint s (hterminals s hs), ?_⟩)
  exact List.forall_mem_singleton.mpr hm.marker_not_nonterminal

/-- The moves of a forest over a coherent stack. The induction is on the forest. -/
theorem runs_of_grows (h : P.grammar.Decides P.table) (hm : P.grammar.MarksReserved) {last : Token}
    (hlast : P.terminalOf last = endMarker)
    (hgrows : Tree.Grows P.grammar (fun s k => P.terminalOf k = s) σ w F) (hσ : P.grammar.Coherent σ) (i k : ℕ) :
    ∃ steps, P.Runs ⟨i, k, σ ++ [endMarker], w ++ [last]⟩ steps .accepted ∧ Tree.forest steps = F := by
  induction hgrows generalizing i k with
  | nil =>
    have heff : P.Effect ⟨i, k, [endMarker], [last]⟩ _ := .accept hlast
    exact ⟨_, .halt (move_eq_of_effect heff), rfl⟩
  | @leaf s x σ w F hs hx _ ih =>
    obtain ⟨steps, hruns, hforest⟩ := ih hσ.tail (i + 1) (k + 1)
    have htop : s ≠ endMarker := fun hs' => hm.marker_not_terminal (hs' ▸ hs)
    have hadmits : P.admits s (P.terminalOf x) = true := admits_iff.mpr (Or.inl hx.symm)
    have heff : P.Effect ⟨i, k, s :: (σ ++ [endMarker]), x :: (w ++ [last])⟩ _ :=
      .matched htop (h.wellFormed.disjoint s hs) hadmits
    refine ⟨_, .proceed (move_eq_of_effect heff) hruns, ?_⟩
    rw [Tree.forest_cons, hforest]
    rfl
  | @node p σ w F hp hF ih =>
    obtain ⟨steps, hruns, hforest⟩ := ih (hσ.expand h.wellFormed hp) (i + 1) k
    have hn := h.wellFormed.lhs_mem p hp
    have htop : p.lhs ≠ endMarker := fun hs' => hm.marker_not_nonterminal (hs' ▸ hn)
    obtain ⟨x, rest, hrest⟩ : ∃ x rest, w ++ [last] = x :: rest := by
      cases w with
      | nil => exact ⟨last, [], rfl⟩
      | cons x w => exact ⟨x, w ++ [last], rfl⟩
    have hreach := reaches_of_grows h.wellFormed hm hF
    have hword : w.map P.terminalOf ++ [endMarker] = P.terminalOf x :: rest.map P.terminalOf := by
      rw [← hlast, ← List.map_singleton, ← List.map_append, hrest, List.map_cons]
    rw [hword, List.append_assoc] at hreach
    have hpredict := predict_of_predicts h hp (hσ.predicts h.wellFormed hp hreach)
    have heff : P.Effect ⟨i, k, p.lhs :: (σ ++ [endMarker]), x :: rest⟩ _ := .expand htop hn hpredict
    rw [List.append_assoc, hrest] at hruns
    rw [hrest]
    refine ⟨_, .proceed (move_eq_of_effect heff) hruns, ?_⟩
    rw [Tree.forest_cons, hforest]
    rfl

/-- A derivation tree without tokens is the tree of a run, once the tokens are put at its leaves. -/
theorem exists_parseTree (hP : P.Valid) (hm : P.grammar.MarksReserved) {d : Tree} (last : Token)
    (hd : Tree.Derivation P.grammar (fun _ k => k = none) d) (hstart : d.symbol = P.grammar.start)
    (hw : w.map P.terminalOf = d.frontier) (hlast : P.terminalOf last = endMarker) :
    ∃ T, P.parseTree (w ++ [last]) = .ok T ∧ T.strip = d ∧
      Tree.Derivation P.grammar (fun s k => ∃ x, k = some x ∧ P.terminalOf x = s) T ∧
      T.leaves.map Tree.token = w.map some := by
  obtain ⟨T, hT, hgrows⟩ := hd.exists_grows .nil hw
  rw [List.append_nil, hstart] at hgrows
  obtain ⟨steps, hruns, hforest⟩ :=
    runs_of_grows hP.decides hm hlast hgrows (.initial hP.decides.wellFormed hm) 0 0
  obtain ⟨hsteps, ho⟩ := (runs_run hP.decides (w ++ [last])).unique hruns
  refine ⟨T, parseTree_eq_ok.mpr ⟨ho, [], hsteps ▸ hforest⟩, hT, ?_, ?_⟩
  · exact hgrows.derivation T List.mem_cons_self
  · have hleaves := hgrows.leaves
    rwa [List.flatMap_singleton] at hleaves

theorem derivation_unique (hP : P.Valid) (hm : P.grammar.MarksReserved) {d d' : Tree}
    (hd : Tree.Derivation P.grammar (fun _ k => k = none) d) (hstart : d.symbol = P.grammar.start)
    (hd' : Tree.Derivation P.grammar (fun _ k => k = none) d') (hstart' : d'.symbol = P.grammar.start)
    (hfrontier : d.frontier = d'.frontier) : d = d' := by
  -- Another parser with the same table reads the terminals off the lexemes of its tokens.
  have hQ : (Parser.mk P.table Token.lexeme P.operator).Valid := ⟨hP.defects_eq, hP.analyzed, hP.conflicts_eq⟩
  have hlexemes : (d.frontier.map named).map Token.lexeme = d.frontier := by
    rw [List.map_map]
    exact List.map_id _
  obtain ⟨T, hT, hd₁, -⟩ := exists_parseTree hQ hm (named endMarker) hd hstart hlexemes rfl
  obtain ⟨T', hT', hd₂, -⟩ :=
    exists_parseTree hQ hm (named endMarker) hd' hstart' (hlexemes.trans hfrontier) rfl
  have htree : T = T' := Except.ok.inj (hT.symm.trans hT')
  rw [← hd₁, ← hd₂, htree]

/-- For every derivation tree, and for tokens that stand for the terminals at its frontier followed by one for
the end of the input, a valid parser returns that tree with the tokens at its leaves, whichever its generic
operator. So the tree is the only one for its sentence. -/
theorem parseTree_complete (P : Parser) (hP : P.Valid) (hm : P.grammar.MarksReserved) :
    (∀ (d : Tree) (w : List Token) (last : Token), Tree.Derivation P.grammar (fun _ k => k = none) d →
      d.symbol = P.grammar.start → w.map P.terminalOf = d.frontier → P.terminalOf last = endMarker →
        ∃ T, P.parseTree (w ++ [last]) = .ok T ∧ T.strip = d ∧
          Tree.Derivation P.grammar (fun s k => ∃ x, k = some x ∧ P.terminalOf x = s) T ∧
          T.leaves.map Tree.token = w.map some) ∧
      ∀ d d' : Tree, Tree.Derivation P.grammar (fun _ k => k = none) d → d.symbol = P.grammar.start →
        Tree.Derivation P.grammar (fun _ k => k = none) d' → d'.symbol = P.grammar.start →
          d.frontier = d'.frontier → d = d' :=
  ⟨fun _ _ _ hd hstart hw hlast => exists_parseTree hP hm _ hd hstart hw hlast,
    fun _ _ hd hstart hd' hstart' hfrontier => derivation_unique hP hm hd hstart hd' hstart' hfrontier⟩

theorem parseTree_complete_sums : ∃ (P : Parser) (T : Tree), P.Valid ∧ P.grammar.MarksReserved ∧
    P.parseTree (["a", "op", "a", "$"].map named) = .ok T ∧
      T.strip = .node "S" (some 1) none [.bare "a",
        .node "T" (some 2) none [.bare "op", .bare "a", .node "T" (some 3) none []]] := by
  obtain ⟨a, -, hgrammar, hvalid⟩ := exists_sums
  have hm : a.table.grammar.MarksReserved := hgrammar ▸ sums_marksReserved
  have ha : Tree.Derivation sums (fun _ k => k = none) (.bare "a") := .leaf (by decide +kernel) rfl
  have hop : Tree.Derivation sums (fun _ k => k = none) (.bare "op") := .leaf (by decide +kernel) rfl
  have hend : Tree.Derivation sums (fun _ k => k = none) (.node "T" (some 3) none []) :=
    .node (p := ⟨3, "T", [epsilon]⟩) (by decide +kernel) rfl (by simp)
  have htail : Tree.Derivation sums (fun _ k => k = none)
      (.node "T" (some 2) none [.bare "op", .bare "a", .node "T" (some 3) none []]) :=
    .node (p := ⟨2, "T", ["op", "a", "T"]⟩) (by decide +kernel) rfl (by simp [ha, hop, hend])
  have hd := Tree.Derivation.node (p := ⟨1, "S", ["a", "T"]⟩) (by decide +kernel) rfl
    (List.forall_mem_cons.mpr ⟨ha, List.forall_mem_singleton.mpr htail⟩)
  obtain ⟨T, hT, hstrip, -⟩ := (parseTree_complete ⟨a.table, Token.lexeme, "op"⟩ (hvalid _ _) hm).1 _
    (["a", "op", "a"].map named) (named "$") (hgrammar ▸ hd) (by rw [Parser.grammar, hgrammar]; rfl) (by simp; rfl) rfl
  exact ⟨_, T, hvalid _ _, hm, hT, hstrip⟩

end Parser
end Lookahead
