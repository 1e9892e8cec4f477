import BisimPlay.Proofs.Arena.Courses
import BisimPlay.Proofs.Contest.Verdict
import BisimPlay.Proofs.Tournament.Rehearsal

/-!
# Records of contests

The record of a game holds the moves with their actions, sides and targets; its turn holds a
node, an action and a side. In a game of a contest the two agree: what the turn remembers is
the last move on record, and the node stands for the pair of processes that the moves on
record make of the two that were named.
-/

namespace BisimPlay

namespace Contest

/-- The turn of a game of a contest agrees with the moves on its record. -/
structure Agrees (contest : Contest) (game : Game) : Prop where
  /-- The node is a pair before every attack. -/
  isPair_iff : (∃ left right, contest.arena.position? game.turn.node = some (.pair left right)) ↔
    game.turn.step.toNat % 2 = 0
  /-- The side and the action are those of the last move. -/
  last_eq : 0 < game.turn.step → ∃ role move, game.record.plays.getLast? = some (role, move) ∧
    game.turn.lastSide = some move.side ∧ game.turn.lastAction = some move.action
  /-- A defence has the action of the attack before it, on the other side. -/
  defence_eq : ∀ before defence after, game.record.plays = before ++ (.defender, defence) :: after →
    ∃ earlier attack, before = earlier ++ [(.attacker, attack)] ∧
      defence.action = attack.action ∧ defence.side = attack.side.flip
  /-- The processes of the node are the two of the contest after the moves. -/
  processes?_eq : contest.arena.size ≤ 0x100000000 →
    contest.arena.processes? game.turn.node =
      some (game.record.plays.foldl (fun processes play => play.2.update processes)
        (contest.left, contest.right))
  /-- A move is written down with the label of its target. -/
  destination_eq : ∀ role move destination, .play role move destination ∈ game.record.entries →
    destination = contest.lts.label move.target

variable {lts : TransitionSystem} {attacker defender : Semantics} {left right : String}
  {contest : Contest} {game : Game}

theorem turn?_root_ofProcesses (lts : TransitionSystem) (attacker defender : Semantics)
    (p q : ProcessId) :
    (ofProcesses lts attacker defender p q).arena.turn? .root = some .attacker := by
  rw [arena_ofProcesses, Arena.turn?_eq_attacker_iff]
  exact ⟨p, q, (Arena.isGrown_ofSteps lts attacker defender p q).root_eq⟩

theorem agrees_of_isRecorded {p q : ProcessId} {winners : List Role}
    (hrules : game.rules = (ofProcesses lts attacker defender p q).rules)
    (hrecorded : game.IsRecorded winners) :
    (ofProcesses lts attacker defender p q).Agrees game := by
  have hroot := turn?_root_ofProcesses lts attacker defender p q
  have hturn := hrecorded.turn_eq
  have hmoves := hrecorded.mem_choices
  rw [hrules, root_rules] at hturn hmoves
  rw [choices_rules] at hmoves
  have hcourse := Arena.course_replay game.record.plays hmoves
  have hnode : game.turn.node = ((Turn.first .root).replay game.record.plays).node :=
    congrArg Turn.node hturn
  constructor
  · rw [← Arena.turn?_eq_attacker_iff, hrecorded.step_eq, hnode, ← List.length_map (·.2)]
    rcases hcourse.play.turn?_and_length hroot with ⟨hpair, heven⟩ | ⟨hattack, hodd⟩
    · exact iff_of_true hpair heven
    · exact iff_of_false (by rw [hattack]; simp) (by omega)
  · intro hpositive
    have hlength : 0 < game.record.plays.length := by
      rw [← hrecorded.step_eq]
      exact UInt32.lt_iff_toNat_lt.1 hpositive
    obtain ⟨⟨role, move⟩, hlast⟩ := Option.isSome_iff_exists.1
      (List.getLast?_isSome.2 (List.ne_nil_of_length_pos hlength))
    obtain ⟨hside, haction⟩ := hcourse.remembers hroot hlast
    exact ⟨role, move, hlast, hturn ▸ hside, hturn ▸ haction⟩
  · intro before defence after hplays
    exact Arena.Course.exists_attack_of_replay hmoves hroot hplays
  · intro hsize
    rw [hnode]
    exact hcourse.processes?_eq (isComplete_ofProcesses lts attacker defender p q hsize)
  · intro role move destination hentry
    rw [← Array.mem_toList_iff, hrecorded.entries_eq, hrules, label_rules] at hentry
    rcases List.mem_append.1 hentry with hplay | hwinner
    · exact destination_of_mem_transcript hplay
    · obtain ⟨winner, _, heq⟩ := List.mem_map.1 hwinner
      exact absurd heq (by simp)

end Contest

namespace Tournament

variable {t s : Tournament} {g : GameId} {game : Game}

theorem IsFresh.isOnRecord_of_leads {permit : Permit} (hfresh : t.IsFresh)
    (hleads : Leads permit t s) (hgame : s.game? g = some game)
    (hcount : game.record.plays.length < 0x100000000) : game.IsOnRecord :=
  hleads.forall_game
    (motive := fun game => game.record.plays.length < 0x100000000 → game.IsOnRecord)
    (fun g game hgame hcount => (hfresh.isInOrder.isCoherent g game hgame hcount).isOnRecord)
    (fun _ _ _ _ hbefore hcall hcount => Game.IsOnRecord.on hbefore hcall hcount) hgame hcount

/-- In every game of a contest that a tournament comes to, what the turn remembers agrees with
the moves that have been made since the last start, whatever the two processes and the
semantics are, whoever has played, and whether the game has been stopped, broken off or
started again. -/
theorem agrees_of_visits (hfresh : t.IsFresh) (hvisits : t.Visits anyCall s)
    (hgame : s.game? g = some game) {lts : TransitionSystem} {attacker defender : Semantics}
    {left right : String} {contest : Contest}
    (hcontest : Contest.ofNames lts attacker defender left right = .ok contest)
    (hrules : game.rules = contest.rules)
    (hcount : game.record.plays.length < 0x100000000) :
    lts.resolve left = .ok contest.left ∧ lts.resolve right = .ok contest.right ∧
      contest.Agrees game := by
  obtain ⟨hleft, hright, heq⟩ := Contest.of_ofNames_eq_ok hcontest
  obtain ⟨winners, hrecorded⟩ := (hfresh.isOnRecord_of_leads
    (hvisits.leads t.scriptsWithin_anyCall) hgame hcount).exists_isRecorded
  refine ⟨hleft, hright, ?_⟩
  rw [heq] at hrules ⊢
  exact Contest.agrees_of_isRecorded hrules hrecorded

def contestOfTurns : Contest :=
  .ofProcesses Contest.turns .strong .strong (.ofIndex 0) (.ofIndex 1)

def duelOfTurns : Tournament :=
  arranged contestOfTurns.rules false 5 (.ofSeed 0) (.ofSeed 1) #[]

/-- The attacker attacks on the right, and the defender answers on the left. -/
theorem agrees_turns :
    ∃ contest t s game, IsFresh t ∧ t.Visits anyCall s ∧ s.game? 0 = some game ∧
      Contest.ofNames Contest.turns .strong .strong "X" "Y" = .ok contest ∧
      game.record.plays = [(.attacker, ⟨.ofIndex 2, .ofIndex 3, ⟨"a"⟩, .right⟩),
        (.defender, ⟨.ofIndex 0, .ofIndex 4, ⟨"a"⟩, .left⟩)] ∧ contest.Agrees game := by
  obtain ⟨hleft, hright, _⟩ := Contest.process?_turns
  have hcontest := Contest.ofNames_eq_ok Contest.turns .strong .strong "X" "Y" _ _ hleft hright
  have hchoices : contestOfTurns.rules.choices = (Arena.ofSteps Contest.turns .strong .strong
      (.ofIndex 0) (.ofIndex 1)).moves := by
    rw [Contest.choices_rules, contestOfTurns, Contest.arena_ofProcesses]
  have hfresh : duelOfTurns.IsFresh := isFresh_arranged _ false 5 (.ofSeed 0) (.ofSeed 1) #[]
  have hvisits : duelOfTurns.Visits anyCall _ := Visits.start.run
    [.seat 0 1 0, .start 0, .play 0 .attacker ⟨.ofIndex 2, .ofIndex 3, ⟨"a"⟩, .right⟩,
      .play 0 .defender ⟨.ofIndex 0, .ofIndex 4, ⟨"a"⟩, .left⟩]
    ⟨fun _ _ _ _ => trivial, trivial, trivial, trivial, trivial⟩
  obtain ⟨game, hrules, hplays, hgame⟩ :=
    (isStage_arranged contestOfTurns.rules false 5 (.ofSeed 0) (.ofSeed 1) #[]).exists_answered
      ⟨.ofIndex 2, .ofIndex 3, ⟨"a"⟩, .right⟩ ⟨.ofIndex 0, .ofIndex 4, ⟨"a"⟩, .left⟩
      (by rw [hchoices]; decide +kernel) (by rw [hchoices]; decide +kernel)
      (by rw [hchoices]; decide +kernel)
  obtain ⟨_, _, hagrees⟩ := agrees_of_visits hfresh hvisits hgame hcontest hrules
    (by rw [hplays]; decide)
  exact ⟨_, _, _, game, hfresh, hvisits, hgame, hcontest, hplays, hagrees⟩

end Tournament

end BisimPlay
