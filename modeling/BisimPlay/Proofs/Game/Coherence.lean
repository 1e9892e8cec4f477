import BisimPlay.Proofs.Game.Calls
import BisimPlay.Proofs.Splits

/-!
# Coherent games

The phase, the turn, the seats and the record of a game tell one story. The record is the
transcript of its moves, attack and defence in turns and every attack under the number of
its round, followed by the winner once there is one; the turn is what the moves lead to;
and the phase says whose move is next, or who had none.

`IsCoherent` collects this, and `IsCoherent.on` shows that every call keeps it. Breaking
off is the exception: it keeps it only while a turn is open, since a game that has been
won would keep its winner on record. `IsOnRecord` is what is left then, and every call keeps
that. Moves are counted in a word, so all of this is said of games in which fewer moves have
been made.
-/

namespace BisimPlay

/-- The entries of the move with a number, counted from zero: the even ones are attacks
and come under the number of their round, the odd ones are defences. -/
def Entry.numbered (label : ProcessId → String) (i : Nat) (move : Move) : List Entry :=
  if i % 2 = 0 then
    [.round (.ofNat (i / 2 + 1)), .play .attacker move (label move.target)]
  else [.play .defender move (label move.target)]

def transcript (label : ProcessId → String) : Nat → List Move → List Entry
  | _, [] => []
  | i, move :: rest => Entry.numbered label i move ++ transcript label (i + 1) rest

theorem transcript_append_singleton (label : ProcessId → String) (i : Nat)
    (moves : List Move) (move : Move) :
    transcript label i (moves ++ [move]) =
      transcript label i moves ++ Entry.numbered label (i + moves.length) move := by
  induction moves generalizing i with
  | nil => simp [transcript]
  | cons first rest ih =>
      rw [List.cons_append, transcript, ih, transcript, List.append_assoc, List.length_cons,
        Nat.add_assoc, Nat.add_comm 1]

theorem destination_of_mem_transcript {label : ProcessId → String} {i : Nat}
    {moves : List Move} {role : Role} {move : Move} {destination : String}
    (h : .play role move destination ∈ transcript label i moves) :
    destination = label move.target := by
  induction moves generalizing i with
  | nil => exact absurd h List.not_mem_nil
  | cons first rest ih =>
      rcases List.mem_append.1 h with hfirst | hrest
      · unfold Entry.numbered at hfirst
        split at hfirst
        · simp_all
        · simp_all
      · exact ih hrest

theorem filterMap_winner?_transcript (label : ProcessId → String) (i : Nat)
    (moves : List Move) : (transcript label i moves).filterMap Entry.winner? = [] := by
  induction moves generalizing i with
  | nil => rfl
  | cons move rest ih =>
      rw [transcript, List.filterMap_append, ih, List.append_nil]
      unfold Entry.numbered
      split
      · rfl
      · rfl

namespace Game

variable {game next : Game} {role : Role} {move : Move} {effects : List Effect}

/-- The record of a game is the transcript of its moves, followed by winners, and its turn
is what the moves lead to. Every move was a choice where it was made. -/
structure IsRecorded (game : Game) (winners : List Role) : Prop where
  entries_eq : game.record.entries.toList =
    transcript game.rules.label 0 (game.record.plays.map (·.2)) ++ winners.map .winner
  turn_eq : game.turn = (Turn.first game.rules.root).replay game.record.plays
  step_eq : game.turn.step.toNat = game.record.plays.length
  mem_choices : ∀ before role move after,
    game.record.plays = before ++ (role, move) :: after →
      move ∈ game.rules.choices ((Turn.first game.rules.root).replay before).node role

/-- The phase of a game agrees with its record, its turn and its seats. -/
structure IsCoherent (game : Game) : Prop where
  isRecorded : game.IsRecorded game.phase.winner?.toList
  of_unstarted : game.phase = .unstarted → game.record.entries = #[] ∧ game.turn.step = 0
  of_toMove : ∀ role, game.phase = .toMove role →
    game.attacker.isSome = true ∧ game.defender.isSome = true ∧ game.choices role ≠ [] ∧
      (role = .attacker ↔ game.turn.step.toNat % 2 = 0)
  of_finished : ∀ winner, game.phase = .finished winner →
    game.choices winner.opponent = [] ∧
      (winner = .defender ↔ game.turn.step.toNat % 2 = 0)

theorem IsRecorded.filterMap_winner? {winners : List Role} (h : game.IsRecorded winners) :
    game.record.entries.toList.filterMap Entry.winner? = winners := by
  rw [h.entries_eq, List.filterMap_append, filterMap_winner?_transcript, List.nil_append,
    List.filterMap_map]
  exact List.filterMap_some

theorem isRecorded_fresh (game : Game) : game.fresh.IsRecorded [] := by
  refine ⟨rfl, rfl, rfl, fun before role move after hplays => ?_⟩
  rw [show game.fresh.record.plays = [] from Record.plays_clear _] at hplays
  exact absurd hplays.symm (by simp)

@[simp] theorem plays_moved (game : Game) (role : Role) (move : Move) :
    (game.moved role move).record.plays = game.record.plays ++ [(role, move)] := by
  cases role with
  | attacker =>
      exact (Record.plays_add_play _ _ _ _).trans
        (by rw [Record.plays_add_of_play?_eq_none _ _ rfl])
  | defender => exact Record.plays_add_play _ _ _ _

@[simp] theorem turn_moved (game : Game) (role : Role) (move : Move) :
    (game.moved role move).turn = game.turn.advance role move := rfl

theorem entries_moved (game : Game) (role : Role) (move : Move) :
    (game.moved role move).record.entries.toList =
      game.record.entries.toList ++ game.entriesOf role move := by
  cases role with
  | attacker => simp [moved, entriesOf]
  | defender => simp [moved, entriesOf]

theorem toNat_step_advance (turn : Turn) (role : Role) (move : Move)
    (h : turn.step.toNat + 1 < 0x100000000) :
    (turn.advance role move).step.toNat = turn.step.toNat + 1 := by
  rw [Turn.step_advance, UInt32.toNat_add]
  exact Nat.mod_eq_of_lt h

theorem entriesOf_eq (hrole : role = .attacker ↔ game.turn.step.toNat % 2 = 0)
    (hcount : game.turn.step.toNat + 1 < 0x100000000) :
    game.entriesOf role move =
      Entry.numbered game.rules.label game.turn.step.toNat move := by
  have hstep := toNat_step_advance game.turn role move hcount
  cases role with
  | attacker =>
      have heven := hrole.1 rfl
      have hround : (game.turn.advance .attacker move).round =
          .ofNat (game.turn.step.toNat / 2 + 1) := by
        rw [← UInt32.toNat_inj, UInt32.toNat_ofNat', Turn.round, UInt32.toNat_add,
          UInt32.toNat_div, hstep, show UInt32.toNat 2 = 2 from rfl,
          show UInt32.toNat 1 = 1 from rfl]
        omega
      rw [Entry.numbered, if_pos heven, entriesOf, hround]
  | defender =>
      have hodd : game.turn.step.toNat % 2 ≠ 0 := fun heven =>
        absurd (hrole.2 heven) (by simp)
      rw [Entry.numbered, if_neg hodd, entriesOf]

theorem IsRecorded.moved (h : game.IsRecorded []) (hmove : move ∈ game.choices role)
    (hrole : role = .attacker ↔ game.turn.step.toNat % 2 = 0)
    (hcount : game.turn.step.toNat + 1 < 0x100000000) :
    (game.moved role move).IsRecorded [] := by
  have hentries := h.entries_eq
  rw [List.map_nil, List.append_nil] at hentries
  constructor
  · rw [entries_moved, hentries, plays_moved, entriesOf_eq hrole hcount, List.map_nil,
      List.append_nil, List.map_append, List.map_singleton, transcript_append_singleton,
      List.length_map, Nat.zero_add, h.step_eq]
    rfl
  · rw [turn_moved, plays_moved, Turn.replay_append, h.turn_eq]
    rfl
  · rw [turn_moved, plays_moved, toNat_step_advance _ _ _ hcount, h.step_eq,
      List.length_append, List.length_singleton]
  · intro before other made after hplays
    rw [plays_moved] at hplays
    rcases split_append_singleton hplays with ⟨rfl, hlast⟩ | ⟨rest, hrest⟩
    · obtain ⟨rfl, rfl⟩ := Prod.mk.inj hlast
      rw [choices, h.turn_eq] at hmove
      exact hmove
    · exact h.mem_choices before other made rest hrest

theorem IsRecorded.handOver (h : game.IsRecorded [])
    (hattacker : game.attacker.isSome = true) (hdefender : game.defender.isSome = true)
    (hrole : role = .attacker ↔ game.turn.step.toNat % 2 = 0) :
    (game.handOver role).1.IsCoherent := by
  by_cases hnone : game.choices role = []
  · obtain ⟨heading, heq⟩ := exists_handOver_eq_of_nil hnone
    rw [heq]
    have hplays : (game.record.add (.winner role.opponent)).plays = game.record.plays :=
      Record.plays_add_of_play?_eq_none _ _ rfl
    refine ⟨⟨?_, ?_, ?_, ?_⟩, ?_, ?_, ?_⟩
    · have hentries := h.entries_eq
      rw [List.map_nil, List.append_nil] at hentries
      simp only [hplays, Record.entries_add, Array.toList_push, hentries]
      rfl
    · simpa only [hplays] using h.turn_eq
    · simpa only [hplays] using h.step_eq
    · simpa only [hplays] using h.mem_choices
    · intro hphase
      exact absurd hphase (by simp)
    · intro other hphase
      exact absurd hphase (by simp)
    · intro winner hphase
      obtain rfl := Phase.finished.inj hphase
      rw [Role.opponent_opponent]
      refine ⟨hnone, ?_⟩
      rw [← hrole]
      cases role <;> decide
  · rw [handOver_eq_of_ne_nil hnone]
    refine ⟨⟨h.entries_eq, h.turn_eq, h.step_eq, h.mem_choices⟩, ?_, ?_, ?_⟩
    · intro hphase
      exact absurd hphase (by simp)
    · intro other hphase
      obtain rfl := Phase.toMove.inj hphase
      exact ⟨hattacker, hdefender, hnone, hrole⟩
    · intro winner hphase
      exact absurd hphase (by simp)

theorem isCoherent_new (rules : Rules) (echo : Bool) : (new rules echo).IsCoherent := by
  refine ⟨⟨rfl, rfl, rfl, fun before role move after hplays => ?_⟩, fun _ => ⟨rfl, rfl⟩,
    fun role hphase => ?_, fun winner hphase => ?_⟩
  · exact absurd (congrArg List.length hplays) (by simp [new, Record.blank, Record.plays])
  · exact absurd hphase (by simp [new])
  · exact absurd hphase (by simp [new])

theorem plays_handOver (game : Game) (role : Role) :
    (game.handOver role).1.record.plays = game.record.plays := by
  obtain ⟨record, phase, heq, ⟨_, rfl, _⟩ | ⟨_, rfl, _⟩⟩ := game.exists_handOver_fst_eq role
  · rw [heq]
    exact Record.plays_add_of_play?_eq_none _ _ rfl
  · rw [heq]

theorem IsRecorded.congr {winners : List Role} (h : game.IsRecorded winners)
    (hrules : next.rules = game.rules) (hturn : next.turn = game.turn)
    (hrecord : next.record = game.record) : next.IsRecorded winners := by
  constructor
  · rw [hrules, hrecord]
    exact h.entries_eq
  · rw [hrules, hturn, hrecord]
    exact h.turn_eq
  · rw [hturn, hrecord]
    exact h.step_eq
  · rw [hrules, hrecord]
    exact h.mem_choices

theorem IsCoherent.moved (h : game.IsCoherent) (hphase : game.phase = .toMove role)
    (hmove : move ∈ game.choices role) (hcount : game.record.plays.length + 1 < 0x100000000) :
    ((game.moved role move).handOver role.opponent).1.IsCoherent := by
  obtain ⟨hattacker, hdefender, _, hrole⟩ := h.of_toMove role hphase
  have hrecorded := h.isRecorded
  rw [hphase] at hrecorded
  rw [← hrecorded.step_eq] at hcount
  refine (hrecorded.moved hmove hrole hcount).handOver hattacker hdefender ?_
  rw [turn_moved, toNat_step_advance _ _ _ hcount]
  cases role with
  | attacker =>
      have heven := hrole.1 rfl
      simp only [Role.opponent, reduceCtorEq, false_iff]
      omega
  | defender =>
      have hodd : game.turn.step.toNat % 2 ≠ 0 := fun heven =>
        absurd (hrole.2 heven) (by simp)
      simp only [Role.opponent, true_iff]
      omega

theorem IsCoherent.aborted (h : game.IsCoherent) (hopen : game.phase.toMove?.isSome = true)
    (reason : String) : (game.enter (.aborted reason)).IsCoherent := by
  have hrecorded := h.isRecorded
  refine ⟨?_, fun hphase => ?_, fun role hphase => ?_, fun winner hphase => ?_⟩
  · cases hphase : game.phase with
    | toMove role =>
        rw [hphase] at hrecorded
        exact hrecorded.congr rfl rfl rfl
    | unstarted => simp [hphase, Phase.toMove?] at hopen
    | finished winner => simp [hphase, Phase.toMove?] at hopen
    | aborted reason => simp [hphase, Phase.toMove?] at hopen
  · exact absurd hphase (by simp)
  · exact absurd hphase (by simp)
  · exact absurd hphase (by simp)

/-- Every call that is allowed keeps a game coherent, breaking off as long as a turn is
open. -/
theorem IsCoherent.on {call : Call}
    (h : game.record.plays.length < 0x100000000 → game.IsCoherent)
    (hcall : call.on game = .ok (next, effects))
    (hcount : next.record.plays.length < 0x100000000)
    (habort : ∀ fault, call = .abort fault → game.phase.toMove?.isSome = true) :
    next.IsCoherent := by
  cases becomes_of_on_eq_ok hcall with
  | seated attacker defender _ hturn =>
      have hgame := h hcount
      refine ⟨hgame.isRecorded.congr rfl rfl rfl, hgame.of_unstarted, fun role hphase => ?_,
        hgame.of_finished⟩
      rw [show game.phase = .toMove role from hphase] at hturn
      exact absurd hturn (by simp [Phase.toMove?])
  | started _ _ hattacker hdefender =>
      exact (isRecorded_fresh game).handOver hattacker hdefender (by simp [fresh])
  | moved role move _ hphase hmove =>
      rw [plays_handOver, plays_moved, List.length_append, List.length_singleton] at hcount
      exact (h (Nat.lt_of_succ_lt hcount)).moved hphase hmove hcount
  | stopped =>
      have hgame := h hcount
      exact ⟨hgame.isRecorded.congr rfl rfl rfl, hgame.of_unstarted, hgame.of_toMove,
        hgame.of_finished⟩
  | aborted fault => exact (h hcount).aborted (habort fault rfl) fault.message

/-- The record of a game is the transcript of its moves, and while its turn is open the game
is coherent. Unlike coherence this is kept by breaking off at any time. -/
structure IsOnRecord (game : Game) : Prop where
  exists_isRecorded : ∃ winners, game.IsRecorded winners
  isCoherent_of_open : game.phase.toMove?.isSome = true → game.IsCoherent

theorem IsCoherent.isOnRecord (h : game.IsCoherent) : game.IsOnRecord :=
  ⟨⟨_, h.isRecorded⟩, fun _ => h⟩

theorem IsRecorded.isOnRecord {winners : List Role} (h : game.IsRecorded winners)
    (hturn : game.phase.toMove? = none) : game.IsOnRecord :=
  ⟨⟨winners, h⟩, fun hopen => absurd hopen (by simp [hturn])⟩

theorem IsOnRecord.on {call : Call}
    (h : game.record.plays.length < 0x100000000 → game.IsOnRecord)
    (hcall : call.on game = .ok (next, effects))
    (hcount : next.record.plays.length < 0x100000000) : next.IsOnRecord := by
  by_cases hopen : game.phase.toMove?.isSome = true
  · -- a game with an open turn is coherent and stays so
    refine (IsCoherent.on (fun hless => (h hless).isCoherent_of_open hopen) hcall hcount
      fun _ _ => hopen).isOnRecord
  · have hclosed : game.phase.toMove? = none := by simpa using hopen
    cases becomes_of_on_eq_ok hcall with
    | seated attacker defender _ _ =>
        obtain ⟨winners, hrecorded⟩ := (h hcount).exists_isRecorded
        exact IsRecorded.isOnRecord (hrecorded.congr rfl rfl rfl) hclosed
    | started _ _ hattacker hdefender =>
        exact ((isRecorded_fresh game).handOver hattacker hdefender (by simp [fresh])).isOnRecord
    | moved role move _ hphase _ => exact absurd (by rw [hphase]; rfl) hopen
    | stopped =>
        obtain ⟨winners, hrecorded⟩ := (h hcount).exists_isRecorded
        exact IsRecorded.isOnRecord (hrecorded.congr rfl rfl rfl) hclosed
    | aborted fault =>
        obtain ⟨winners, hrecorded⟩ := (h hcount).exists_isRecorded
        exact IsRecorded.isOnRecord (hrecorded.congr rfl rfl rfl) rfl

end Game

end BisimPlay
