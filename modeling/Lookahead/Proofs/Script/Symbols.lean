import Lookahead.Proofs.Grammar.WellFormed
import Lookahead.Script.Rules

/-! The grammar of the script language in terms of its symbols. Their names are all different, and none is
the empty word or the end marker, so that what the rules say of symbols the productions say of names. -/
namespace Lookahead
namespace Script

/-! ## Names -/

namespace Symbol
variable {s r : Symbol} {l m : List Symbol}

theorem mem_all (s : Symbol) : s ∈ terminals ++ nonterminals := by cases s <;> decide

theorem names_nodup : (epsilon :: endMarker :: (terminals ++ nonterminals).map name).Nodup := by decide +kernel

theorem name_injective : Function.Injective name := fun s r h =>
  List.inj_on_of_nodup_map names_nodup.of_cons.of_cons (mem_all s) (mem_all r) h

@[simp] theorem name_inj : s.name = r.name ↔ s = r := name_injective.eq_iff

@[simp] theorem names_inj : l.map name = m.map name ↔ l = m := (List.map_injective_iff.mpr name_injective).eq_iff

@[simp] theorem name_ne_epsilon (s : Symbol) : s.name ≠ epsilon := fun h =>
  (List.nodup_cons.mp names_nodup).1 (List.mem_cons_of_mem _ (h ▸ List.mem_map_of_mem (mem_all s)))

@[simp] theorem name_ne_endMarker (s : Symbol) : s.name ≠ endMarker := fun h =>
  (List.nodup_cons.mp names_nodup.of_cons).1 (h ▸ List.mem_map_of_mem (mem_all s))

theorem mem_terminals_or_nonterminals (s : Symbol) : s ∈ terminals ∨ s ∈ nonterminals := List.mem_append.mp (mem_all s)

theorem not_mem_nonterminals (h : s ∈ terminals) : s ∉ nonterminals :=
  fun h' => List.disjoint_of_nodup_append names_nodup.of_cons.of_cons.of_map h h'

theorem ofNonterminal?_name (h : s ∈ nonterminals) : ofNonterminal? s.name = some s := by
  unfold ofNonterminal?
  cases hf : nonterminals.find? fun r => r.name = s.name with
  | none => exact absurd (List.find?_eq_none.mp hf s h) (by simp)
  | some r =>
    have hr := List.find?_some hf
    rw [decide_eq_true_eq, name_inj] at hr
    rw [hr]

theorem ofNonterminal?_eq_some {x : String} : ofNonterminal? x = some s ↔ s ∈ nonterminals ∧ x = s.name := by
  constructor
  · intro h
    have hname : s.name = x := by simpa using List.find?_some h
    exact ⟨List.mem_of_find?_eq_some h, hname.symm⟩
  · rintro ⟨h, rfl⟩
    exact ofNonterminal?_name h

end Symbol

open Lookahead.Script.Symbol

/-! ## Rules -/

variable {s : Symbol} {l : List Symbol} {p : Production}

theorem body_of_ruleText {r : Symbol × List Symbol} (h : ruleText r = (p.lhs, p.rhs)) : p.body = r.2.map name := by
  obtain ⟨s, l⟩ := r
  have hrhs : p.rhs = if l.isEmpty then [epsilon] else l.map name := (congrArg Prod.snd h).symm
  rw [Production.body, hrhs]
  cases l with
  | nil => rfl
  | cons a l =>
    refine List.filter_eq_self.mpr fun x hx => ?_
    obtain ⟨b, -, rfl⟩ := List.mem_map.mp hx
    exact decide_eq_true (name_ne_epsilon b)

theorem ruleText_injective : Function.Injective ruleText := by
  intro r q h
  let p : Production := ⟨0, (ruleText q).1, (ruleText q).2⟩
  have hr : p.body = r.2.map name := body_of_ruleText h
  have hq : p.body = q.2.map name := body_of_ruleText rfl
  exact Prod.ext (name_injective (congrArg Prod.fst h)) (names_inj.mp (hr.symm.trans hq))

theorem map_productions : grammar.productions.map (fun p => (p.lhs, p.rhs)) = rules.map ruleText :=
  Grammar.map_number 1 _

theorem exists_ruleText (h : p ∈ grammar.productions) : ∃ r ∈ rules, ruleText r = (p.lhs, p.rhs) :=
  List.mem_map.mp (map_productions ▸ List.mem_map_of_mem h)

theorem exists_rule (h : p ∈ grammar.productions) : ∃ r ∈ rules, p.lhs = r.1.name ∧ p.body = r.2.map name := by
  obtain ⟨r, hr, htext⟩ := exists_ruleText h
  exact ⟨r, hr, (congrArg Prod.fst htext).symm, body_of_ruleText htext⟩

theorem exists_production (h : (s, l) ∈ rules) : ∃ p ∈ grammar.productions, p.lhs = s.name ∧ p.body = l.map name := by
  have hmem : ruleText (s, l) ∈ grammar.productions.map fun p => (p.lhs, p.rhs) :=
    map_productions ▸ List.mem_map_of_mem h
  obtain ⟨p, hp, htext⟩ := List.mem_map.mp hmem
  exact ⟨p, hp, congrArg Prod.fst htext, body_of_ruleText htext.symm⟩

/-- A rule stands in the list once, so that it makes one production. -/
theorem production_unique {q : Production} (hp : p ∈ grammar.productions) (hq : q ∈ grammar.productions)
    (hlhs : p.lhs = q.lhs) (hbody : p.body = q.body) : p = q := by
  obtain ⟨r, -, hr⟩ := exists_ruleText hp
  obtain ⟨r', -, hr'⟩ := exists_ruleText hq
  have hnodup : (grammar.productions.map fun p => (p.lhs, p.rhs)).Nodup := by
    rw [map_productions]
    exact (by decide : rules.Nodup).map ruleText_injective
  refine List.inj_on_of_nodup_map hnodup hp hq ?_
  rw [body_of_ruleText hr, body_of_ruleText hr', names_inj] at hbody
  have hsymbol : r.1 = r'.1 := name_injective ((congrArg Prod.fst hr).trans (hlhs.trans (congrArg Prod.fst hr').symm))
  rw [← hr, ← hr', Prod.ext hsymbol hbody]

/-! ## Declarations -/

theorem mem_terminals_iff {x : String} : x ∈ grammar.terminals ↔ ∃ s ∈ terminals, s.name = x := by
  simp [grammar, Grammar.ofRules]

theorem mem_nonterminals_iff {x : String} : x ∈ grammar.nonterminals ↔ ∃ s ∈ nonterminals, s.name = x := by
  have hrules : ∀ s, (∃ r ∈ rules, r.1 = s) ↔ s ∈ nonterminals := by intro s; cases s <;> decide
  simp only [← hrules]
  simp [grammar, Grammar.ofRules, ruleText]

theorem name_mem_terminals : s.name ∈ grammar.terminals ↔ s ∈ terminals := by
  rw [mem_terminals_iff]
  simp

theorem name_mem_nonterminals : s.name ∈ grammar.nonterminals ↔ s ∈ nonterminals := by
  rw [mem_nonterminals_iff]
  simp

theorem grammar_marksReserved : grammar.MarksReserved := by
  intro x hx
  rw [mem_terminals_iff, mem_nonterminals_iff]
  rcases List.mem_pair.mp hx with rfl | rfl <;> simp

theorem grammar_wellFormed : grammar.WellFormed where
  start_mem := name_mem_nonterminals (s := .program).mpr (by decide)
  disjoint := by
    intro x ht hn
    obtain ⟨s, hs, rfl⟩ := mem_terminals_iff.mp ht
    exact not_mem_nonterminals hs (name_mem_nonterminals.mp hn)
  ids_nodup := Grammar.nodup_number 1 _
  lhs_mem := by
    intro p hp
    obtain ⟨r, hr, hlhs, -⟩ := exists_rule hp
    have hmem : r.1 ∈ nonterminals := (by decide : ∀ r ∈ rules, r.1 ∈ nonterminals) r hr
    rw [hlhs]
    exact name_mem_nonterminals.mpr hmem
  epsilon_alone := by
    intro p hp hε
    obtain ⟨⟨s, l⟩, -, htext⟩ := exists_ruleText hp
    have hrhs : p.rhs = if l.isEmpty then [epsilon] else l.map name := (congrArg Prod.snd htext).symm
    rw [hrhs] at hε ⊢
    split at hε <;> simp_all
  rhs_declared := by
    intro p hp x hx
    obtain ⟨⟨s, l⟩, -, htext⟩ := exists_ruleText hp
    have hrhs : p.rhs = if l.isEmpty then [epsilon] else l.map name := (congrArg Prod.snd htext).symm
    rw [hrhs] at hx
    split at hx
    · exact Or.inr (Or.inr (List.mem_singleton.mp hx))
    · obtain ⟨r, -, rfl⟩ := List.mem_map.mp hx
      rw [name_mem_terminals, name_mem_nonterminals]
      exact (mem_terminals_or_nonterminals r).imp_right Or.inl

end Script
end Lookahead
