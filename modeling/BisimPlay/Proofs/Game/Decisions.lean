import BisimPlay.Player.Strategy
import BisimPlay.Proofs.Contest.Strategies

/-!
# What decisions come to

A decision of a player that wins the game is left to the rules, and one of the other player
to chance. Chance picks one of the choices whenever there are any. Rules may have strategies
of any kind; those of a contest pick one of the choices or fail.
-/

namespace BisimPlay

namespace Rules

variable {rules : Rules} {node : NodeId} {role : Role} {choices : List Move}
  {source : RandomSource} {move : Move}

theorem move_verdict_attacker (h : rules.winner = .attacker) :
    (rules.verdict node .attacker choices source).move = rules.attack node choices := by
  unfold verdict
  rw [if_pos h]

theorem move_verdict_defender (h : rules.winner = .defender) :
    (rules.verdict node .defender choices source).move = rules.defence node choices := by
  unfold verdict
  rw [if_pos h]

def NeverErrs (rules : Rules) : Prop :=
  ∀ node choices, ∀ notice ∈ rules.attackNotices node choices, notice.severity ≠ .error

theorem mem_attackNotices_of_mem_verdict {notice : Notice}
    (h : notice ∈ (rules.verdict node role choices source).notices) :
    notice ∈ rules.attackNotices node choices := by
  unfold verdict at h
  split at h
  · cases role with
    | attacker => exact h
    | defender => exact absurd h List.not_mem_nil
  · split at h
    · exact absurd h List.not_mem_nil
    · exact absurd h List.not_mem_nil

/-- What a strategy of the rules picks is one of the moves that it was given. -/
def PicksAmongChoices (rules : Rules) : Prop :=
  ∀ node choices move, (rules.attack node choices = .ok move → move ∈ choices) ∧
    (rules.defence node choices = .ok move → move ∈ choices)

theorem exists_verdict_eq_ok (hloses : rules.winner ≠ role) (hsome : choices ≠ []) :
    ∃ move ∈ choices, (rules.verdict node role choices source).move = .ok move := by
  obtain ⟨move, hmem, hchoice⟩ := source.exists_mem_choose choices hsome
  refine ⟨move, hmem, ?_⟩
  unfold verdict
  rw [if_neg hloses]
  split
  · next other _ heq =>
      rw [heq] at hchoice
      exact congrArg Except.ok (Option.some.inj hchoice)
  · next heq =>
      rw [heq] at hchoice
      exact absurd hchoice (by simp)

theorem PicksAmongChoices.mem_of_verdict_eq_ok (h : rules.PicksAmongChoices)
    (hmove : (rules.verdict node role choices source).move = .ok move) : move ∈ choices := by
  by_cases hwins : rules.winner = role
  · cases role with
    | attacker =>
        rw [move_verdict_attacker hwins] at hmove
        exact (h node choices move).1 hmove
    | defender =>
        rw [move_verdict_defender hwins] at hmove
        exact (h node choices move).2 hmove
  · cases choices with
    | nil =>
        unfold verdict at hmove
        rw [if_neg hwins, RandomSource.choose_nil] at hmove
        exact absurd hmove (by simp)
    | cons first rest =>
        obtain ⟨picked, hmem, hpicked⟩ := exists_verdict_eq_ok
          hwins (List.cons_ne_nil first rest)
        rwa [← Except.ok.inj (hpicked.symm.trans hmove)]

end Rules

namespace Contest

theorem picksAmongChoices_rules (contest : Contest) : contest.rules.PicksAmongChoices := by
  intro node choices move
  constructor
  · intro hattack
    exact (bestAttack_eq_ok_iff.1 hattack).mem
  · intro hdefence
    exact (soundDefence_eq_ok_iff.1 hdefence).mem

theorem neverErrs_rules (contest : Contest) : contest.rules.NeverErrs := by
  intro n choices notice h
  have hnotices : notice ∈ contest.attackNotices n choices := h
  unfold attackNotices at hnotices
  split at hnotices
  · rw [List.mem_singleton.1 hnotices]
    simp
  · exact absurd hnotices List.not_mem_nil

end Contest

end BisimPlay
