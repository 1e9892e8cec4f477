import BisimPlay.Proofs.Game.Progress

/-!
# Contests between automated players

In a contest between automated players the winner follows its strategy and the other
chooses at random. So the moves are a play under a policy for each role: the strategy of
the winner, and the free policy for the other. In a solved contest such a play never comes
to a node where a role has moves and can not decide. It ends at the opponent of the winner,
and when the attacker wins it ends within the level of the root.
-/

namespace BisimPlay

namespace Contest

variable {attacker defender : Semantics} {contest : Contest} {n : NodeId} {role : Role}
  {history : List Move}

def policy (contest : Contest) (role : Role) : Policy :=
  if contest.winner = role then
    match role with
    | .attacker => contest.bestAttacks
    | .defender => contest.soundDefences
  else .free

def AutomatedPlay (contest : Contest) (history : List Move) (n : NodeId) : Prop :=
  contest.arena.Play (contest.policy .attacker) (contest.policy .defender) .root history n

theorem policy_of_verdict_eq_ok {move : Move} {source : RandomSource}
    (h : (contest.rules.verdict n role (contest.arena.moves n role) source).move = .ok move) :
    contest.policy role history n move := by
  unfold policy
  by_cases hwins : contest.winner = role
  · rw [if_pos hwins]
    cases role with
    | attacker => exact (Rules.move_verdict_attacker hwins).symm.trans h
    | defender => exact (Rules.move_verdict_defender hwins).symm.trans h
  · rw [if_neg hwins]
    trivial

theorem AutomatedPlay.extend {move : Move} {source : RandomSource}
    (hplay : contest.AutomatedPlay history n)
    (h : (contest.rules.verdict n role (contest.arena.moves n role) source).move = .ok move) :
    contest.AutomatedPlay (history ++ [move]) move.next :=
  Arena.Play.extend hplay (contest.picksAmongChoices_rules.mem_of_verdict_eq_ok h)
    (policy_of_verdict_eq_ok h)

namespace IsSolved

theorem turn?_root (h : contest.IsSolved attacker defender) :
    contest.arena.turn? .root = some .attacker :=
  Arena.turn?_eq_attacker_iff.2 ⟨_, _, h.isComplete.root_eq⟩

theorem descends_of_automatedPlay (h : contest.IsSolved attacker defender)
    (hplay : contest.AutomatedPlay history n) (hwinner : contest.winner = .attacker) :
    contest.Descends .root history n := by
  have hroot : contest.level .root ≠ .infinity := by
    rw [Ne, ← contest.isBisimilar_iff, ← contest.winner_eq_defender_iff, hwinner]
    simp
  have hpolicy : contest.policy .attacker = contest.bestAttacks := by
    rw [policy, if_pos hwinner]
  rw [AutomatedPlay, hpolicy] at hplay
  exact h.descends hroot hplay

theorem eq_infinity_of_automatedPlay (h : contest.IsSolved attacker defender)
    (hplay : contest.AutomatedPlay history n) (hwinner : contest.winner = .defender) :
    contest.level n = .infinity := by
  have hroot : contest.level .root = .infinity := by
    rwa [← contest.isBisimilar_iff, ← contest.winner_eq_defender_iff]
  have hpolicy : contest.policy .defender = contest.soundDefences := by
    rw [policy, if_pos hwinner]
  rw [AutomatedPlay, hpolicy] at hplay
  exact (h.eq_infinity_of_play hroot hplay).1

theorem exists_verdict_eq_ok_of_winner (h : contest.IsSolved attacker defender)
    (hplay : contest.AutomatedPlay history n) (hturn : contest.arena.turn? n = some role)
    (hwins : contest.winner = role) (source : RandomSource) :
    ∃ move ∈ contest.arena.moves n role,
      (contest.rules.verdict n role (contest.arena.moves n role) source).move = .ok move := by
  cases role with
  | attacker =>
      have hdescends := h.descends_of_automatedPlay hplay hwins
      obtain ⟨move, hmove, _, hbest, _⟩ :=
        exists_bestAttack_eq_ok (h.exists_attack_lt hdescends.ne_infinity hturn)
      exact ⟨move, hmove, (Rules.move_verdict_attacker hwins).trans hbest⟩
  | defender =>
      have hn := h.eq_infinity_of_automatedPlay hplay hwins
      obtain ⟨move, hmove, hdefence, _⟩ :=
        exists_soundDefence_eq_ok (h.exists_answer_eq_infinity hn hturn)
      exact ⟨move, hmove, (Rules.move_verdict_defender hwins).trans hdefence⟩

/-- No decision fails in the play of automated players. -/
theorem exists_verdict_eq_ok (h : contest.IsSolved attacker defender)
    (hplay : contest.AutomatedPlay history n) (hsome : contest.arena.moves n role ≠ [])
    (source : RandomSource) :
    ∃ move ∈ contest.arena.moves n role,
      (contest.rules.verdict n role (contest.arena.moves n role) source).move = .ok move := by
  by_cases hwins : contest.winner = role
  · obtain ⟨first, hfirst⟩ := List.exists_mem_of_ne_nil _ hsome
    exact h.exists_verdict_eq_ok_of_winner hplay (Arena.turn?_of_mem_moves hfirst) hwins source
  · exact Rules.exists_verdict_eq_ok hwins hsome

theorem winner_eq_of_stuck (h : contest.IsSolved attacker defender)
    (hplay : contest.AutomatedPlay history n) (hstuck : contest.arena.IsStuck role n) :
    contest.winner = role.opponent := by
  refine Role.eq_opponent_of_ne fun hwins => ?_
  obtain ⟨move, hmove, _⟩ := h.exists_verdict_eq_ok_of_winner hplay hstuck.1 hwins default
  rw [hstuck.2] at hmove
  exact absurd hmove List.not_mem_nil

/-- A play that the attacker wins is shorter than the level of the root. -/
theorem length_le_of_automatedPlay (h : contest.IsSolved attacker defender)
    (hplay : contest.AutomatedPlay history n) (hroot : contest.level .root ≠ .infinity) :
    history.length ≤ (contest.level .root).toNat - 1 := by
  refine h.length_le_of_descends (h.descends_of_automatedPlay hplay ?_)
  by_contra hwinner
  exact hroot (contest.isBisimilar_iff.1 (contest.winner_eq_defender_iff.1
    (Role.eq_opponent_of_ne hwinner)))

end IsSolved

/-- A game of a contest so far: automated players have made its moves, and no decision has
failed. -/
structure IsGame (contest : Contest) (game : Game) : Prop where
  rules_eq : game.rules = contest.rules
  play : contest.AutomatedPlay (game.record.plays.map (·.2)) game.turn.node
  ne_aborted : ∀ reason, game.phase ≠ .aborted reason

variable {game next : Game}

theorem IsGame.choices_eq (h : contest.IsGame game) (role : Role) :
    game.choices role = contest.arena.moves game.turn.node role := by
  rw [Game.choices, h.rules_eq]
  rfl

theorem isGame_handOver (hrules : game.rules = contest.rules)
    (hplay : contest.AutomatedPlay (game.record.plays.map (·.2)) game.turn.node) :
    contest.IsGame (game.handOver role).1 := by
  have hplays := game.plays_handOver role
  obtain ⟨record, phase, heq, hphase⟩ := game.exists_handOver_fst_eq role
  rw [heq] at hplays ⊢
  refine ⟨hrules, ?_, fun reason => ?_⟩
  · show contest.AutomatedPlay (record.plays.map (·.2)) game.turn.node
    rwa [show record.plays = game.record.plays from hplays]
  · rcases hphase with ⟨_, _, rfl⟩ | ⟨_, _, rfl⟩
    · simp
    · simp

namespace IsSolved

/-- No decision fails in a game of a solved contest, and each takes the play on. -/
theorem isGame_of_decides (h : contest.IsSolved attacker defender)
    (hgame : contest.IsGame game) (hcoherent : game.IsCoherent)
    (hstopped : game.stopped = false) (hdecides : game.Decides next) :
    contest.IsGame next := by
  obtain ⟨role, source, hphase, hnext⟩ := hdecides.move_or_abort hstopped
  obtain ⟨_, _, hsome, _⟩ := hcoherent.of_toMove role hphase
  rw [hgame.choices_eq, hgame.rules_eq] at hnext
  rw [hgame.choices_eq] at hsome
  rcases hnext with ⟨move, _, hverdict, rfl⟩ | ⟨_, hfails⟩
  · refine isGame_handOver hgame.rules_eq ?_
    rw [Game.plays_moved, Game.turn_moved, Turn.node_advance, List.map_append,
      List.map_singleton]
    exact hgame.play.extend hverdict
  · exact absurd (h.exists_verdict_eq_ok hgame.play hsome source) hfails

theorem winner_eq_of_finished (h : contest.IsSolved attacker defender)
    (hgame : contest.IsGame game) (hcoherent : game.IsCoherent) {winner : Role}
    (hphase : game.phase = .finished winner) : contest.winner = winner := by
  obtain ⟨hnone, hparity⟩ := hcoherent.of_finished winner hphase
  rw [hgame.choices_eq] at hnone
  have hrole : winner.opponent = .attacker ↔
      (game.record.plays.map (·.2)).length % 2 = 0 := by
    rw [List.length_map, ← hcoherent.isRecorded.step_eq, ← hparity]
    cases winner <;> decide
  have hturn := hgame.play.turn?_eq_some h.turn?_root hrole
  rw [h.winner_eq_of_stuck hgame.play ⟨hturn, hnone⟩, Role.opponent_opponent]

end IsSolved

end Contest

end BisimPlay
