import Lookahead.Parse.Parser
import Mathlib.Data.List.Basic

/-! What one move of a parser can do, case by case, and whole runs made of moves. A run that halts within
the steps it is allowed is the run itself. -/
namespace Lookahead
namespace Parser

/-! ## Moves -/

inductive Effect (P : Parser) : Config → Move → Prop
  | noStack {i k rest} : Effect P ⟨i, k, [], rest⟩ (.halt none (.rejected ⟨.unexpectedEof endMarker, k, none⟩))
  | noToken {i k top below} :
      Effect P ⟨i, k, top :: below, []⟩ (.halt none (.rejected ⟨.unexpectedEof top, k, none⟩))
  | trailing {i k below token rest} : P.terminalOf token ≠ endMarker →
      Effect P ⟨i, k, endMarker :: below, token :: rest⟩
        (.halt (some ⟨i, .reject, endMarker :: below, P.terminalOf token, k, token⟩)
          (.rejected ⟨.trailingInput, k, token⟩))
  | extra {i k below token next rest} : P.terminalOf token = endMarker →
      Effect P ⟨i, k, endMarker :: below, token :: next :: rest⟩
        (.halt none (.rejected ⟨.trailingInput, k + 1, next⟩))
  | accept {i k below token} : P.terminalOf token = endMarker →
      Effect P ⟨i, k, endMarker :: below, [token]⟩
        (.halt (some ⟨i, .accept, endMarker :: below, P.terminalOf token, k, token⟩) .accepted)
  | noProduction {i k top below token rest} : top ≠ endMarker → top ∈ P.grammar.nonterminals →
      P.predict top (P.terminalOf token) = none →
      Effect P ⟨i, k, top :: below, token :: rest⟩
        (.halt (some ⟨i, .reject, top :: below, P.terminalOf token, k, token⟩)
          (.rejected ⟨.noProduction top (P.terminalOf token) (P.table.expected top), k, token⟩))
  | expand {i k top below token rest p} : top ≠ endMarker → top ∈ P.grammar.nonterminals →
      P.predict top (P.terminalOf token) = some p →
      Effect P ⟨i, k, top :: below, token :: rest⟩
        (.proceed ⟨i, .expand p, top :: below, P.terminalOf token, k, token⟩
          ⟨i + 1, k, p.body ++ below, token :: rest⟩)
  | matched {i k top below token rest} : top ≠ endMarker → top ∉ P.grammar.nonterminals →
      P.admits top (P.terminalOf token) = true →
      Effect P ⟨i, k, top :: below, token :: rest⟩
        (.proceed ⟨i, .matched, top :: below, P.terminalOf token, k, token⟩ ⟨i + 1, k + 1, below, rest⟩)
  | mismatch {i k top below token rest} : top ≠ endMarker → top ∉ P.grammar.nonterminals →
      P.admits top (P.terminalOf token) = false →
      Effect P ⟨i, k, top :: below, token :: rest⟩
        (.halt (some ⟨i, .reject, top :: below, P.terminalOf token, k, token⟩)
          (.rejected ⟨.terminalMismatch top (P.terminalOf token), k, token⟩))

theorem move_effect (P : Parser) (c : Config) : P.Effect c (P.move c) := by
  obtain ⟨i, k, stack, rest⟩ := c
  cases stack with
  | nil => exact .noStack
  | cons top below =>
    cases rest with
    | nil => exact .noToken
    | cons token rest =>
      unfold move
      dsimp only
      by_cases htop : top = endMarker
      · subst htop
        rw [if_pos rfl]
        by_cases hend : P.terminalOf token = endMarker
        · rw [if_neg (not_not_intro hend)]
          cases rest with
          | nil => exact .accept hend
          | cons next rest => exact .extra hend
        · rw [if_pos hend]
          exact .trailing hend
      · rw [if_neg htop]
        by_cases hn : top ∈ P.grammar.nonterminals
        · rw [if_pos hn]
          cases hp : P.predict top (P.terminalOf token) with
          | none => exact .noProduction htop hn hp
          | some p => exact .expand htop hn hp
        · rw [if_neg hn]
          cases hm : P.admits top (P.terminalOf token) with
          | true => exact .matched htop hn hm
          | false => exact .mismatch htop hn hm

theorem move_eq_of_effect {P : Parser} {c : Config} {m : Move} (h : P.Effect c m) : P.move c = m := by
  cases h <;> simp_all [move]

/-- The step that a move takes, if it takes one. -/
def Move.step? : Move → Option Step
  | .proceed s _ => some s
  | .halt s _ => s

/-- The situation that a step shows is the configuration it is taken in. -/
structure TakenAt (P : Parser) (c : Config) (s : Step) : Prop where
  index_eq : s.index = c.index
  position_eq : s.position = c.position
  stack_eq : s.stack = c.stack
  token_eq : c.rest.head? = some s.token
  lookahead_eq : s.lookahead = P.terminalOf s.token

theorem takenAt_of_move {P : Parser} {c : Config} {s : Step} (h : (P.move c).step? = some s) : P.TakenAt c s := by
  have heff := P.move_effect c
  generalize P.move c = m at h heff
  cases heff <;> cases h <;> exact ⟨rfl, rfl, rfl, rfl, rfl⟩

/-! ## Runs -/

/-- The moves from a configuration to the one that halts: the steps they take, and the outcome. -/
inductive Runs (P : Parser) : Config → List Step → Outcome → Prop
  | halt {c s o} : P.move c = .halt s o → Runs P c s.toList o
  | proceed {c d s steps o} : P.move c = .proceed s d → Runs P d steps o → Runs P c (s :: steps) o

/-- A halting move comes among the next `n` moves. -/
def HaltsWithin (P : Parser) : ℕ → Config → Prop
  | 0, _ => False
  | n + 1, c => ∀ s d, P.move c = .proceed s d → P.HaltsWithin n d

theorem HaltsWithin.mono {P : Parser} {m n : ℕ} {c : Config} (h : P.HaltsWithin m c) (hmn : m ≤ n) :
    P.HaltsWithin n c := by
  induction m generalizing n c with
  | zero => exact absurd h id
  | succ m ih =>
    cases n with
    | zero => omega
    | succ n =>
      intro s d hmove
      exact ih (h s d hmove) (by omega)

theorem runFrom_eq {P : Parser} {n : ℕ} {c : Config} (h : P.HaltsWithin n c) (taken : List Step) :
    ∃ steps o, P.runFrom n taken c = ⟨taken.reverse ++ steps, o⟩ ∧ P.Runs c steps o := by
  induction n generalizing c taken with
  | zero => exact absurd h id
  | succ n ih =>
    cases hmove : P.move c with
    | proceed s d =>
      obtain ⟨steps, o, hrun, hruns⟩ := ih (h s d hmove) (s :: taken)
      refine ⟨s :: steps, o, ?_, .proceed hmove hruns⟩
      rw [runFrom, hmove]
      dsimp only
      rw [hrun, List.reverse_cons, List.append_assoc, List.singleton_append]
    | halt s o =>
      refine ⟨s.toList, o, ?_, .halt hmove⟩
      rw [runFrom, hmove]
      cases s with
      | none => simp
      | some s => simp

theorem Runs.ne_unfinished {P : Parser} {c : Config} {steps : List Step} {o : Outcome} (h : P.Runs c steps o) :
    o ≠ .unfinished := by
  induction h with
  | @halt c s o hmove =>
    have heff := P.move_effect c
    rw [hmove] at heff
    cases heff <;> exact Outcome.noConfusion
  | proceed _ _ ih => exact ih

/-- Whatever every move keeps holds of the configurations in which the steps are taken. -/
theorem Runs.exists_config {P : Parser} {I : Config → Prop} {c : Config} {steps : List Step} {o : Outcome}
    (h : P.Runs c steps o) (hc : I c) (hnext : ∀ c s d, I c → P.move c = .proceed s d → I d) :
    ∀ s ∈ steps, ∃ d, I d ∧ (P.move d).step? = some s := by
  induction h with
  | @halt c s o hmove =>
    intro r hr
    exact ⟨c, hc, by rw [hmove]; exact Option.mem_toList.mp hr⟩
  | @proceed c d s steps o hmove _ ih =>
    refine List.forall_mem_cons.mpr ⟨⟨c, hc, by rw [hmove]; rfl⟩, ih (hnext c s d hc hmove)⟩

theorem Runs.unique {P : Parser} {c : Config} {steps steps' : List Step} {o o' : Outcome}
    (h : P.Runs c steps o) (h' : P.Runs c steps' o') : steps = steps' ∧ o = o' := by
  induction h generalizing steps' with
  | halt hmove =>
    cases h' with
    | halt hmove' =>
      rw [hmove, Move.halt.injEq] at hmove'
      exact ⟨congrArg Option.toList hmove'.1, hmove'.2⟩
    | proceed hmove' _ => exact Move.noConfusion (hmove.symm.trans hmove')
  | proceed hmove _ ih =>
    cases h' with
    | halt hmove' => exact Move.noConfusion (hmove.symm.trans hmove')
    | proceed hmove' hruns =>
      rw [hmove, Move.proceed.injEq] at hmove'
      obtain ⟨rfl, rfl⟩ := hmove'
      obtain ⟨rfl, rfl⟩ := ih hruns
      exact ⟨rfl, rfl⟩

end Parser
end Lookahead
