import Lookahead.Proofs.Grammar.Erasure
import Lookahead.Proofs.Parse.Preorder
import Lookahead.Proofs.Parse.Termination

/-! A parser does not see the empty word. Over the table with every production erased it makes the same moves, but for
the productions it names, and so returns the same trees and the same errors. -/
namespace Lookahead

/-! ## Definitions -/

def Action.erase : Action → Action
  | expand p => expand p.erase
  | matched => matched
  | accept => accept
  | reject => reject

def Step.erase (s : Step) : Step := { s with action := s.action.erase }

def Run.erase (r : Run) : Run := ⟨r.steps.map Step.erase, r.outcome⟩

namespace Parser

def Move.erase : Move → Move
  | proceed s next => proceed s.erase next
  | halt s outcome => halt (s.map Step.erase) outcome

def erase (P : Parser) : Parser := { P with table := P.table.erase }

end Parser

/-! ## Trees -/

/-- A tree shows the number of a production and how many symbols it left, neither of which is erased. -/
theorem Tree.forest_erase (steps : List Step) : forest (steps.map Step.erase) = forest steps := by
  induction steps with
  | nil => rfl
  | cons s steps ih =>
    rw [List.map_cons, forest_cons, forest_cons, ih]
    obtain ⟨i, a, stack, lookahead, k, token⟩ := s
    cases a with
    | expand p =>
      cases stack with
      | nil => rfl
      | cons top below => exact congrArg (fun l : List String =>
          node top (some p.id) none ((forest steps).take l.length) :: (forest steps).drop l.length) p.body_erase
    | matched => rfl
    | accept => rfl
    | reject => rfl

theorem Run.tree_erase (r : Run) : r.erase.tree = r.tree := by
  obtain ⟨steps, o⟩ := r
  cases o with
  | accepted => simp only [Run.erase, Run.tree, Tree.forest_erase]
  | rejected e => rfl
  | unfinished => rfl

namespace Parser
variable {P : Parser} {c : Config} {steps : List Step} {o : Outcome}

/-! ## Moves -/

theorem predict_erase (P : Parser) (s t : String) : P.erase.predict s t = (P.predict s t).map Production.erase := by
  have hget : ∀ x, P.erase.table.get? s x = (P.table.get? s x).map Production.erase := P.table.get?_erase s
  rw [predict, predict, hget, hget]
  cases P.table.get? s t with
  | some p => rfl
  | none =>
    have hop : P.erase.grammar.operators = P.grammar.operators := rfl
    rw [Option.map_none, hop]
    dsimp only
    by_cases ht : t ∈ P.grammar.operators
    · rw [if_pos ht, if_pos ht]
      rfl
    · rw [if_neg ht, if_neg ht]
      rfl

theorem move_erase (P : Parser) (c : Config) : P.erase.move c = (P.move c).erase := by
  apply move_eq_of_effect
  have heff := P.move_effect c
  generalize P.move c = m at heff
  cases heff with
  | noStack => exact .noStack
  | noToken => exact .noToken
  | trailing hk => exact .trailing hk
  | extra hk => exact .extra hk
  | accept hk => exact .accept hk
  | @noProduction i k top below token rest htop hn hp =>
    have hp' : P.erase.predict top (P.terminalOf token) = none := by
      rw [predict_erase, hp]
      rfl
    have hexpected : P.erase.table.expected top = P.table.expected top := P.table.expected_erase top
    exact hexpected ▸ .noProduction htop hn hp'
  | @expand i k top below token rest p htop hn hp =>
    have hp' : P.erase.predict top (P.terminalOf token) = some p.erase := by
      rw [predict_erase, hp]
      rfl
    rw [← p.body_erase]
    exact .expand htop hn hp'
  | matched htop hn hadmits => exact .matched htop hn hadmits
  | mismatch htop hn hadmits => exact .mismatch htop hn hadmits

/-! ## Runs -/

theorem Runs.erase (h : P.Runs c steps o) : P.erase.Runs c (steps.map Step.erase) o := by
  induction h with
  | @halt c s o hmove =>
    have hmove' := P.move_erase c
    rw [hmove] at hmove'
    cases s <;> exact .halt hmove'
  | @proceed c d s steps o hmove _ ih =>
    have hmove' := P.move_erase c
    rw [hmove] at hmove'
    exact .proceed hmove' ih

theorem HaltsWithin.of_erase {n : ℕ} (h : P.erase.HaltsWithin n c) : P.HaltsWithin n c := by
  induction n generalizing c with
  | zero => exact h
  | succ n ih =>
    intro s d hmove
    have hmove' := P.move_erase c
    rw [hmove] at hmove'
    exact ih (h s.erase d hmove')

theorem foldl_max_le {l : List ℕ} {n b : ℕ} (hn : n ≤ b) (h : ∀ m ∈ l, m ≤ b) : l.foldl max n ≤ b := by
  induction l generalizing n with
  | nil => exact hn
  | cons a l ih =>
    rw [List.forall_mem_cons] at h
    exact ih (max_le hn h.1) h.2

theorem widest_erase_le (P : Parser) : P.erase.widest ≤ P.widest := by
  refine foldl_max_le (Nat.zero_le _) fun m hm => ?_
  obtain ⟨q, hq, rfl⟩ := List.mem_map.mp hm
  obtain ⟨p, hp, rfl⟩ := List.mem_map.mp hq
  exact length_body_le hp

theorem stepBound_erase_le (P : Parser) (n : ℕ) : P.erase.stepBound n ≤ P.stepBound n := by
  have hspread : P.erase.spread ≤ P.spread :=
    Nat.pow_le_pow_left (Nat.succ_le_succ P.widest_erase_le) (3 * P.grammar.nonterminals.size + 2)
  unfold stepBound
  gcongr

theorem run_erase (h : P.erase.grammar.Decides P.erase.table) (tokens : List Token) :
    P.erase.run tokens = (P.run tokens).erase := by
  have hhalts : P.HaltsWithin (P.stepBound tokens.length) (P.initial tokens) :=
    (initial_halts h tokens).of_erase.mono (P.stepBound_erase_le tokens.length)
  obtain ⟨steps, o, hrun, hruns⟩ := runFrom_eq hhalts []
  obtain ⟨hsteps, ho⟩ := (runs_run h tokens).unique hruns.erase
  have hP : P.run tokens = ⟨steps, o⟩ := hrun
  rw [hP, Run.erase, ← hsteps, ← ho]

theorem parseTree_erase (h : P.erase.grammar.Decides P.erase.table) (tokens : List Token) :
    P.erase.parseTree tokens = P.parseTree tokens := by
  rw [parseTree_eq, parseTree_eq, run_erase h, Run.tree_erase]

end Parser

/-! ## Grammars with the empty word anywhere -/

namespace Grammar
variable {g : Grammar}

/-- The empty word is neutral. Wherever it stands on the right-hand sides of a grammar, the sets, the conflicts and the
productions of the cells are those of the grammar without it, and if there are no conflicts, then so are all trees and
errors of a parser. -/
theorem epsilon_neutral (hg : g.Declared) :
    ∃ a b, g.analysis = .ok a ∧ g.erase.analysis = .ok b ∧
      b.first.value = a.first.value ∧ b.follow.value = a.follow.value ∧
      (∀ A x, (b.table.get? A x).map Production.id = (a.table.get? A x).map Production.id) ∧
      b.table.conflicts = a.table.conflicts ∧
      (a.table.conflicts = [] → ∀ terminalOf operator tokens,
        (Parser.mk b.table terminalOf operator).parseTree tokens =
            (Parser.mk a.table terminalOf operator).parseTree tokens ∧
          (Parser.mk a.table terminalOf operator).parseTree tokens ≠ .error .unfinished) := by
  obtain ⟨a, ha, hb⟩ := hg.exists_analysis
  have hdecides := decides_of_analyze hb
  refine ⟨a, a.erase, ha, ?_, rfl, rfl, fun A x => ?_, rfl, fun hc terminalOf operator tokens => ?_⟩
  · rw [hg.analysis_erase, ha]
    rfl
  · have hget : a.erase.table.get? A x = (a.table.get? A x).map Production.erase := a.table.get?_erase A x
    rw [hget, Option.map_map]
    rfl
  · have htable : a.table.erase.grammar = g.erase := (hdecides hc).grammar_eq
    have hP : (Parser.mk a.table terminalOf operator).erase.grammar.Decides
        (Parser.mk a.table terminalOf operator).erase.table := by
      have h := hdecides hc
      rw [← htable] at h
      exact h
    have heq := Parser.parseTree_erase hP tokens
    refine ⟨heq, ?_⟩
    rw [← heq]
    rcases Parser.parseTree_cases hP tokens with ⟨T, hT⟩ | ⟨e, -, he⟩
    · rw [hT]
      exact nofun
    · rw [he]
      exact nofun

/-- The empty word stands at the start, between symbols, at the end and twice in a row. -/
def scattered : Grammar :=
  .ofRules "S" [("S", [epsilon, "a", epsilon, "T", epsilon]), ("T", [epsilon, epsilon]), ("T", ["op", epsilon, "a", "T"])]
    ["a", "op"] []

theorem scattered_declared : scattered.Declared where
  start_mem := by decide +kernel
  disjoint := by
    have h : ∀ s ∈ scattered.terminals.toList, s ∉ scattered.nonterminals := by decide +kernel
    exact fun s hs => h s (NameSet.mem_toList.mpr hs)
  epsilon_not_terminal := by decide +kernel
  epsilon_not_nonterminal := by decide +kernel
  ids_nodup := nodup_number 1 _
  lhs_mem := by decide +kernel
  rhs_declared := by decide +kernel

theorem epsilon_neutral_scattered : scattered.Declared ∧ scattered.defects = [.epsilonMixed 1, .epsilonMixed 2,
    .epsilonMixed 3] ∧ ∃ a b T, scattered.analysis = .ok a ∧ scattered.erase.analysis = .ok b ∧
      (Parser.mk a.table Token.lexeme "op").parseTree (["a", "op", "a", "$"].map Parser.named) = .ok T ∧
      (Parser.mk b.table Token.lexeme "op").parseTree (["a", "op", "a", "$"].map Parser.named) = .ok T := by
  obtain ⟨a, b, ha, hb, -, -, -, -, hparse⟩ := epsilon_neutral scattered_declared
  have hrun : (scattered.analysis.toOption.map fun a => (a.table.conflicts,
      ((Parser.mk a.table Token.lexeme "op").parseTree (["a", "op", "a", "$"].map Parser.named)).isOk)) =
        some ([], true) := by
    decide +kernel
  rw [ha] at hrun
  obtain ⟨hc, hok⟩ := Prod.mk.inj (Option.some.inj hrun)
  obtain ⟨heq, -⟩ := hparse hc Token.lexeme "op" (["a", "op", "a", "$"].map Parser.named)
  refine ⟨scattered_declared, by decide +kernel, a, b, ?_⟩
  cases hT : (Parser.mk a.table Token.lexeme "op").parseTree (["a", "op", "a", "$"].map Parser.named) with
  | ok T => exact ⟨T, ha, hb, rfl, heq.trans hT⟩
  | error e =>
    rw [hT] at hok
    cases hok

end Grammar
end Lookahead
