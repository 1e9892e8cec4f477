import BisimPlay.CommandLine.Report
import BisimPlay.Proofs.Game.Coherence

/-!
# How games are seen to end

The lines that follow the verdict are the record of a game and, unless the game was won, a
line that tells why not. The first character of a line tells the kinds of entries and the two
lines for want of a winner apart. So the winner that is seen is the winner of a coherent game
(`wins_mem_iff`), and a game is seen to have been broken off or given up when it was
(`aborted_mem_iff`, `noWinner_mem_iff`).
-/

namespace BisimPlay

namespace Entry

def initial : Entry → Char
  | round _ => 'R'
  | play _ _ _ => ' '
  | winner .attacker => 'A'
  | winner .defender => 'D'

theorem head?_line (entry : Entry) : entry.line.toList.head? = some entry.initial := by
  cases entry with
  | round number => simp [line, initial]
  | play role move destination => simp [line, initial]
  | winner role => cases role <;> rfl

theorem eq_winner_of_line_eq {entry : Entry} {role : Role}
    (h : entry.line = role.text ++ " wins.") : entry = .winner role := by
  have hinitial : entry.initial = (winner role).initial :=
    Option.some.inj ((head?_line entry).symm.trans (h ▸ head?_line (winner role)))
  cases entry with
  | round number => cases role <;> simp [initial] at hinitial
  | play other move destination => cases role <;> simp [initial] at hinitial
  | winner other => cases role <;> cases other <;> simp_all [initial]

end Entry

theorem Game.IsCoherent.winner_mem_iff {game : Game} (h : game.IsCoherent) (role : Role) :
    .winner role ∈ game.record.entries.toList ↔ game.phase = .finished role := by
  have hwinner : role ∈ game.record.entries.toList.filterMap Entry.winner? ↔
      .winner role ∈ game.record.entries.toList := by
    rw [List.mem_filterMap]
    constructor
    · rintro ⟨entry, hentry, heq⟩
      cases entry with
      | round number => exact absurd heq (by simp [Entry.winner?])
      | play other move destination => exact absurd heq (by simp [Entry.winner?])
      | winner other =>
          obtain rfl := Option.some.inj heq
          exact hentry
    · intro hentry
      exact ⟨_, hentry, rfl⟩
  rw [← hwinner, h.isRecorded.filterMap_winner?, Option.mem_toList]
  cases game.phase <;> simp [Phase.winner?]

namespace CommandLine

variable {maxRounds : UInt32} {game : Game}

/-- The lines that follow the verdict: the record, and how a game ended without a winner. -/
def ending (maxRounds : UInt32) (game : Game) : List String :=
  game.record.lines ++ endLine maxRounds game.phase

theorem mem_ending_iff {text : String}
    (h : ∀ entry : Entry, text.toList.head? ≠ some entry.initial) :
    text ∈ ending maxRounds game ↔ text ∈ endLine maxRounds game.phase := by
  rw [ending, List.mem_append, or_iff_right]
  intro hrecord
  obtain ⟨entry, _, rfl⟩ := List.mem_map.1 hrecord
  exact h entry entry.head?_line

theorem of_mem_endLine {text : String} {phase : Phase} (h : text ∈ endLine maxRounds phase) :
    (∃ reason, phase = .aborted reason ∧ text = "game aborted: " ++ reason) ∨
      phase.isOver = false ∧
        text = "no winner after " ++ Decimal.render maxRounds.toNat ++ " rounds" := by
  cases phase with
  | finished winner => exact absurd h List.not_mem_nil
  | aborted reason => exact .inl ⟨reason, rfl, List.mem_singleton.1 h⟩
  | unstarted => exact .inr ⟨rfl, List.mem_singleton.1 h⟩
  | toMove role => exact .inr ⟨rfl, List.mem_singleton.1 h⟩

theorem wins_mem_iff (h : game.IsCoherent) (maxRounds : UInt32) (role : Role) :
    role.text ++ " wins." ∈ ending maxRounds game ↔ game.phase = .finished role := by
  have hend : role.text ++ " wins." ∉ endLine maxRounds game.phase := by
    intro hmem
    have hhead : (role.text ++ " wins.").toList.head? = some (Entry.winner role).initial :=
      (Entry.winner role).head?_line
    rcases of_mem_endLine hmem with ⟨_, _, heq⟩ | ⟨_, heq⟩
    · rw [heq] at hhead
      cases role <;> simp [Entry.initial] at hhead
    · rw [heq] at hhead
      cases role <;> simp [Entry.initial] at hhead
  rw [← h.winner_mem_iff, ending, List.mem_append, or_iff_left hend, Record.lines,
    List.mem_map]
  constructor
  · rintro ⟨entry, hentry, hline⟩
    rwa [← Entry.eq_winner_of_line_eq hline]
  · intro hentry
    exact ⟨_, hentry, rfl⟩

theorem aborted_mem_iff (maxRounds : UInt32) (game : Game) (reason : String) :
    "game aborted: " ++ reason ∈ ending maxRounds game ↔ game.phase = .aborted reason := by
  rw [mem_ending_iff fun entry => by
    rcases entry with _ | _ | ⟨_ | _⟩ <;> simp [Entry.initial]]
  constructor
  · intro hmem
    rcases of_mem_endLine hmem with ⟨other, hphase, heq⟩ | ⟨_, heq⟩
    · rw [hphase, String.append_right_inj _ |>.1 heq]
    · have hhead := congrArg (·.toList.head?) heq
      simp at hhead
  · intro hphase
    rw [hphase]
    exact List.mem_singleton_self _

theorem noWinner_mem_iff (maxRounds : UInt32) (game : Game) :
    "no winner after " ++ Decimal.render maxRounds.toNat ++ " rounds" ∈
      ending maxRounds game ↔ game.phase.isOver = false := by
  rw [mem_ending_iff fun entry => by
    rcases entry with _ | _ | ⟨_ | _⟩ <;> simp [Entry.initial]]
  constructor
  · intro hmem
    rcases of_mem_endLine hmem with ⟨other, _, heq⟩ | ⟨hopen, _⟩
    · have hhead := congrArg (·.toList.head?) heq
      simp at hhead
    · exact hopen
  · intro hopen
    rcases game.phase.eq_unstarted_or_exists_eq_toMove hopen with hphase | ⟨role, hphase⟩
    · rw [hphase]
      exact List.mem_singleton_self _
    · rw [hphase]
      exact List.mem_singleton_self _

end CommandLine

end BisimPlay
