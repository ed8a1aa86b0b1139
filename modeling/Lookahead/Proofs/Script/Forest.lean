import Lookahead.Proofs.Parse.ErrorPosition
import Lookahead.Proofs.Script.LL1
import Lookahead.Proofs.Tree.Relocate

/-! Trees of the script language. A forest over symbols of the language is put together rule by rule, and
the one tree of a program is what the parser returns. -/
namespace Lookahead
namespace Script

open Lookahead.Script.Symbol

/-- A forest over the symbols, with tokens at its leaves that stand for the terminals there. -/
def Forest (l : List Symbol) (w : List Token) (F : List Tree) : Prop :=
  Tree.Grows grammar (fun s k => terminalOf k = s) (l.map name) w F

variable {l m : List Symbol} {v w : List Token} {F G : List Tree} {s : Symbol} {k : Token} {T : Tree}

theorem Forest.nil : Forest [] [] [] := Tree.Grows.nil

theorem Forest.append (hF : Forest l w F) (hG : Forest m v G) : Forest (l ++ m) (w ++ v) (F ++ G) := by
  have h := Tree.Grows.append hF hG
  rwa [← List.map_append] at h

theorem Forest.cons (hT : Forest [s] v [T]) (hF : Forest l w F) : Forest (s :: l) (v ++ w) (T :: F) := hT.append hF

theorem Forest.symbols (h : Forest l w F) : F.map Tree.symbol = l.map name := Tree.Grows.symbols h

theorem Forest.symbol (h : Forest [s] w [T]) : T.symbol = s.name := (List.cons.inj h.symbols).1

theorem forest_leaf (hs : s ∈ terminals) (hk : terminalOf k = s.name) : Forest [s] [k] [.leaf s.name k] :=
  .leaf (name_mem_terminals.mpr hs) hk .nil

theorem forest_node (hrule : (s, l) ∈ rules) (hF : Forest l w F) :
    ∃ i, Forest [s] w [.node s.name (some i) none F] := by
  obtain ⟨p, hp, hlhs, hbody⟩ := exists_production hrule
  have hlength : p.body.length = F.length := by
    have h := congrArg List.length hF.symbols
    rw [List.length_map, List.length_map] at h
    rw [hbody, List.length_map, h]
  have hgrows : Tree.Grows grammar (fun s k => terminalOf k = s) (p.body ++ []) w F := by
    rw [List.append_nil, hbody]
    exact hF
  have hnode := Tree.Grows.node hp hgrows
  rw [hlength, List.take_length, List.drop_length, hlhs] at hnode
  exact ⟨p.id, hnode⟩

theorem Forest.relocate (h : Forest l w F) (f : Location → Location) :
    Forest l (w.map (Token.relocate f)) (F.map (Tree.relocate f)) := Tree.Grows.relocate (fun _ _ hk => hk) h

theorem Forest.exists_cons (h : Forest (s :: l) w F) :
    ∃ w₁ w₂ T G, w = w₁ ++ w₂ ∧ F = T :: G ∧ Forest [s] w₁ [T] ∧ Forest l w₂ G := by
  rw [Forest, List.map_cons, ← List.singleton_append] at h
  obtain ⟨w₁, w₂, F₁, G, rfl, rfl, hF, hG⟩ := h.exists_append
  obtain ⟨T, rfl, -⟩ := List.map_eq_singleton_iff.mp hF.symbols
  exact ⟨w₁, w₂, T, G, rfl, rfl, hF, hG⟩

/-- A tree over a symbol with rules is a node of one of them. -/
theorem Forest.exists_rule (hs : s ∈ nonterminals) (h : Forest [s] w [T]) :
    ∃ l i F, (s, l) ∈ rules ∧ T = .node s.name (some i) none F ∧ Forest l w F := by
  unfold Forest at h
  generalize hσ : [s].map name = σ, hF : [T] = G at h
  cases h with
  | nil => cases hF
  | leaf ht =>
    obtain ⟨rfl, -⟩ := List.cons.inj hσ
    exact absurd hs (not_mem_nonterminals (name_mem_terminals.mp ht))
  | @node p σ w F hp hgrows =>
    obtain ⟨hname, rfl⟩ := List.cons.inj hσ
    obtain ⟨rfl, hdrop⟩ := List.cons.inj hF
    obtain ⟨r, hr, hlhs, hbody⟩ := Script.exists_rule hp
    obtain rfl : s = r.1 := name_injective (hname.trans hlhs)
    have htake : F.take p.body.length = F := List.take_of_length_le (List.drop_eq_nil_iff.mp hdrop.symm)
    rw [List.map_nil, List.append_nil, hbody] at hgrows
    exact ⟨r.2, p.id, F, hr, by rw [htake, hlhs], hgrows⟩

theorem Forest.length_flatMap_leaves (h : Forest l w F) : (F.flatMap Tree.leaves).length = w.length := by
  have hleaves := congrArg List.length (Tree.Grows.leaves h)
  rwa [List.length_map, List.length_map] at hleaves

theorem Forest.length_leaves (h : Forest [s] w [T]) : T.leaves.length = w.length := by
  rw [← h.length_flatMap_leaves, List.flatMap_singleton]

theorem Forest.exists_split (h : Forest l w (F ++ G)) :
    ∃ l₁ l₂ w₁ w₂, l = l₁ ++ l₂ ∧ w = w₁ ++ w₂ ∧ Forest l₁ w₁ F ∧ Forest l₂ w₂ G := by
  induction F generalizing l w with
  | nil => exact ⟨[], l, [], w, rfl, rfl, .nil, h⟩
  | cons T F ih =>
    cases l with
    | nil => cases h.symbols
    | cons s l =>
      obtain ⟨v, w, _, _, rfl, ⟨⟩, hT, hrest⟩ := h.exists_cons
      obtain ⟨l₁, l₂, w₁, w₂, rfl, rfl, hF, hG⟩ := ih hrest
      exact ⟨s :: l₁, l₂, v ++ w₁, w₂, rfl, (List.append_assoc ..).symm, hT.cons hF, hG⟩

theorem Forest.exists_leaf (hs : s ∈ terminals) (h : Forest [s] w [T]) :
    ∃ k, w = [k] ∧ terminalOf k = s.name ∧ T = .leaf s.name k := by
  unfold Forest at h
  generalize hσ : [s].map name = σ, hF : [T] = G at h
  cases h with
  | nil => cases hF
  | leaf _ hk hnil =>
    obtain ⟨rfl, rfl⟩ := List.cons.inj hσ
    obtain ⟨rfl, rfl⟩ := List.cons.inj hF
    cases hnil
    exact ⟨_, rfl, hk, rfl⟩
  | node hp =>
    obtain ⟨hname, rfl⟩ := List.cons.inj hσ
    obtain ⟨r, hr, hlhs, -⟩ := Script.exists_rule hp
    obtain rfl : s = r.1 := name_injective (hname.trans hlhs)
    exact absurd ((by decide : ∀ r ∈ rules, r.1 ∈ nonterminals) r hr) (not_mem_nonterminals hs)

/-- A node with children stands for a symbol that has rules. -/
theorem Forest.mem_nonterminals (h : Forest [s] w [T]) (hT : T.children ≠ []) : s ∈ nonterminals := by
  refine (mem_terminals_or_nonterminals s).resolve_left fun hs => ?_
  obtain ⟨k, -, -, rfl⟩ := h.exists_leaf hs
  exact hT rfl

theorem Forest.isLeaf_eq_false (hs : s ∈ nonterminals) (hne : (s, []) ∉ rules) (h : Forest [s] w [T]) :
    T.isLeaf = false := by
  obtain ⟨l, i, F, hrule, rfl, hF⟩ := h.exists_rule hs
  cases F with
  | nil =>
    obtain rfl : l = [] := List.map_eq_nil_iff.mp hF.symbols.symm
    exact absurd hrule hne
  | cons T F => rfl

theorem exists_empties (h : ∀ s ∈ l, (s, []) ∈ rules) : ∃ G, Forest l [] G ∧ G.all Tree.isLeaf = true := by
  induction l with
  | nil => exact ⟨[], .nil, rfl⟩
  | cons s l ih =>
    rw [List.forall_mem_cons] at h
    obtain ⟨i, hT⟩ := forest_node h.1 .nil
    obtain ⟨G, hG, hleaves⟩ := ih h.2
    exact ⟨_, hT.cons hG, hleaves⟩

/-- The tree of a program is the tree of its tokens, up to the token that ends them. -/
theorem parseTree_of_forest_end {P : Parser} (hP : P.Valid) (hgrammar : P.grammar = grammar)
    (hterminal : P.terminalOf = terminalOf) (hT : Forest [program] w [T]) {last : Token}
    (hlast : terminalOf last = endMarker) : P.parseTree (w ++ [last]) = .ok T := by
  have hm : P.grammar.MarksReserved := hgrammar ▸ grammar_marksReserved
  have hend : P.terminalOf last = endMarker := hterminal ▸ hlast
  have hgrows : Tree.Grows P.grammar (fun s k => P.terminalOf k = s) [P.grammar.start] w [T] := by
    rw [hgrammar, hterminal]
    exact hT
  obtain ⟨steps, hruns, hforest⟩ :=
    Parser.runs_of_grows hP.decides hm hend hgrows (.initial hP.decides.wellFormed hm) 0 0
  obtain ⟨hsteps, ho⟩ := (Parser.runs_run hP.decides (w ++ [last])).unique hruns
  exact Parser.parseTree_eq_ok.mpr ⟨ho, [], hsteps ▸ hforest⟩

theorem parseTree_of_forest {P : Parser} (hP : P.Valid) (hgrammar : P.grammar = grammar)
    (hterminal : P.terminalOf = terminalOf) (hT : Forest [program] w [T]) {last : Token} (hlast : last.kind = .eof) :
    P.parseTree (w ++ [last]) = .ok T :=
  parseTree_of_forest_end hP hgrammar hterminal hT (by rw [terminalOf, hlast])

theorem operatorInert_of_parser_eq {P : Parser} (hP : parser = .ok P) (hgrammar : P.grammar = grammar) :
    P.OperatorInert := by
  have hoperator : P.operator = defaultOperator := by
    rw [parser] at hP
    cases ht : table with
    | error e =>
      rw [ht] at hP
      cases hP
    | ok t =>
      rw [ht] at hP
      cases hP
      rfl
  rw [Parser.OperatorInert, hoperator, hgrammar]
  refine Or.inr ⟨by decide, fun hmem => ?_⟩
  obtain ⟨s, hs, hname⟩ := mem_terminals_iff.mp hmem
  exact (by decide : ∀ s ∈ terminals, s.name ≠ defaultOperator) s hs hname

/-- A tree of the parser is the tree of a program over all tokens but the last. -/
theorem forest_of_parseTree {P : Parser} (hP : parser = .ok P) {tokens : List Token} (hT : P.parseTree tokens = .ok T) :
    ∃ w last, tokens = w ++ [last] ∧ terminalOf last = endMarker ∧ Forest [program] w [T] := by
  obtain ⟨P', hP', hvalid, hgrammar, hterminal⟩ := parser_eq_ok
  obtain rfl : P = P' := Except.ok.inj (hP.symm.trans hP')
  obtain ⟨ho, F, hF⟩ := Parser.parseTree_eq_ok.mp hT
  obtain ⟨w, last, T', rfl, hlast, hT', hgrows⟩ :=
    Parser.grows_of_accepted hvalid (hgrammar ▸ grammar_marksReserved) ho
  obtain ⟨rfl, -⟩ := List.cons.inj (hF.symm.trans hT')
  have hexact : Tree.Grows P.grammar (fun s k => P.terminalOf k = s) [P.grammar.start] w [T] :=
    hgrows.mono fun s hs k hk => hk.eq_of_inert (operatorInert_of_parser_eq hP hgrammar) hs
  rw [hgrammar, hterminal] at hexact
  exact ⟨w, last, rfl, hterminal ▸ hlast, hexact⟩

end Script
end Lookahead
