import BisimPlay.Proofs.Game.Coherence
import BisimPlay.Proofs.Tournament.Pending
import BisimPlay.Proofs.Tournament.Runs

/-!
# Coherence throughout a tournament

Every game that a tournament comes to is coherent, as long as nobody breaks games off
without cause: it is left to decisions that fail. What makes this so is that a decision
only ever finds its game with an open turn.
-/

namespace BisimPlay

def Call.isAbort : Call → Bool
  | .abort _ => true
  | _ => false

namespace Tournament

variable {permit : Permit} {t s : Tournament} {g : GameId} {p : PlayerId}

/-- All games are new and no decision is pending. -/
structure IsFresh (t : Tournament) : Prop where
  exists_eq_new : ∀ g game, t.game? g = some game → ∃ rules echo, game = .new rules echo
  decision?_eq_none : ∀ p, t.decision? p = none

/-- Games are coherent, and decisions are pending only for games with an open turn and by
players who are seated there. -/
structure IsInOrder (t : Tournament) : Prop where
  isCoherent : ∀ g game, t.game? g = some game →
    game.record.plays.length < 0x100000000 → game.IsCoherent
  isOpen : ∀ p decision game, t.decision? p = some decision →
    t.game? decision.game = some game →
      game.stopped = false ∧ game.phase.toMove?.isSome = true ∧ p ∈ game.players

theorem isFresh_of_games_eq (games : List (Rules × Bool))
    (hgames : t.games.toList = games.map fun game => .held (.new game.1 game.2))
    (hplayers : ∀ player ∈ t.players, player.pending? = none) : t.IsFresh where
  exists_eq_new g game hgame := by
    obtain ⟨slot, hslot, hheld⟩ := Option.bind_eq_some_iff.1 hgame
    have hmem := Array.mem_toList_iff.2 (Array.mem_of_getElem? hslot)
    rw [hgames] at hmem
    obtain ⟨new, _, rfl⟩ := List.mem_map.1 hmem
    exact ⟨new.1, new.2, (Option.some.inj hheld).symm⟩
  decision?_eq_none p := by
    cases hplayer : t.player? p with
    | none => rw [decision?, hplayer, Option.bind_none]
    | some player =>
        rw [decision?, hplayer, Option.bind_some, hplayers player (Array.mem_of_getElem? hplayer)]

theorem IsFresh.isInOrder (h : t.IsFresh) : t.IsInOrder := by
  refine ⟨fun g game hgame _ => ?_, fun p decision game hpending _ => ?_⟩
  · obtain ⟨rules, echo, rfl⟩ := h.exists_eq_new g game hgame
    exact Game.isCoherent_new rules echo
  · rw [h.decision?_eq_none p] at hpending
    exact absurd hpending (by simp)

/-- A step keeps a tournament in order, unless somebody breaks a game off. -/
theorem IsInOrder.step (h : t.IsInOrder) (hstep : Step permit t s)
    (hpermit : ∀ t g call, permit t g call → call.isAbort = false) : s.IsInOrder where
  isCoherent g next hnext hcount := by
    rcases hstep.game?_cases hnext with hgame | ⟨game, hgame, call, effects, hcall, hcause⟩
    · exact h.isCoherent g next hgame hcount
    · refine Game.IsCoherent.on (h.isCoherent g game hgame) hcall hcount fun fault heq => ?_
      rcases hcause with hallowed | ⟨p, decision, hpending, rfl⟩
      · rw [heq] at hallowed
        exact absurd (hpermit t g _ hallowed) (by simp [Call.isAbort])
      · exact (h.isOpen p decision game hpending hgame).2.1
  isOpen := DecisionsAreOpen.step h.isOpen hstep

theorem IsInOrder.leads (h : t.IsInOrder) (hleads : Leads permit t s)
    (hpermit : ∀ t g call, permit t g call → call.isAbort = false) : s.IsInOrder := by
  induction hleads with
  | refl => exact h
  | tail _ hstep ih => exact ih.step hstep hpermit

def withoutAborts : Permit := fun _ _ call => call.isAbort = false

/-- Phase, turn, seats and record of every game agree, whatever its rules are, whoever has
been seated, and in whatever order the game was started, played, stopped and started again,
by requests, by decisions that fell due and by players that act when they are prompted. The
winner of the phase is the only one on record. -/
theorem isCoherent_of_visits (hfresh : t.IsFresh) (hscripts : t.ScriptsWithin withoutAborts)
    (hvisits : t.Visits withoutAborts s) {game : Game} (hgame : s.game? g = some game)
    (hcount : game.record.plays.length < 0x100000000) :
    game.IsCoherent ∧
      game.record.entries.toList.filterMap Entry.winner? = game.phase.winner?.toList := by
  have horder := hfresh.isInOrder.leads (hvisits.leads hscripts) fun _ _ _ => id
  have hcoherent := horder.isCoherent g game hgame hcount
  exact ⟨hcoherent, hcoherent.isRecorded.filterMap_winner?⟩

/-- Rules by which the attacker makes one move and has won. -/
def oneAttack : Rules where
  root := .root
  choices n role :=
    if n = .root ∧ role = .attacker then [⟨.ofIndex 0, .ofIndex 1, ⟨"a"⟩, .left⟩] else []
  winner := .attacker
  attack _ choices := (choices.head?.map .ok).getD (.error (.noChoices .attacker))
  attackNotices _ _ := []
  defence _ _ := .error (.noChoices .defender)
  label p := p.text

/-- A game of one attack and two automated players, who are not yet seated. -/
def duel : Tournament where
  now := 0
  games := #[.held (.new oneAttack false)]
  players := #[.automated .attacker .first 5 (.ofSeed 0),
    .automated .defender .second 5 (.ofSeed 1)]
  notices := #[]
  diary := #[]

theorem isFresh_duel : duel.IsFresh :=
  isFresh_of_games_eq [(oneAttack, false)] rfl (by simp [duel, Player.automated, Player.pending?])

theorem lines_duel (p : PlayerId) : duel.lines p = [] := by
  rcases p with _ | _ | p
  · rfl
  · rfl
  · simp [lines, player?, duel]

theorem scriptsWithin_duel : duel.ScriptsWithin permit :=
  fun p _ hline => absurd (lines_duel p ▸ hline) List.not_mem_nil

/-- Rules by which the attacker wins with its second move, in whichever of two ways the defender
answers the first. -/
def exchange : Rules where
  root := .root
  choices n role :=
    match n.index, role with
    | 0, .attacker => [⟨.ofIndex 0, .ofIndex 1, ⟨"a"⟩, .left⟩]
    | 1, .defender =>
      [⟨.ofIndex 1, .ofIndex 2, ⟨"a"⟩, .right⟩, ⟨.ofIndex 2, .ofIndex 2, ⟨"a"⟩, .right⟩]
    | 2, .attacker => [⟨.ofIndex 3, .ofIndex 3, ⟨"b"⟩, .right⟩]
    | _, _ => []
  winner := .attacker
  attack _ choices := (choices.head?.map .ok).getD (.error (.noChoices .attacker))
  attackNotices _ _ := []
  defence _ _ := .error (.noChoices .defender)
  label p := p.text

/-- The players of the duel with a game of three moves. -/
def bout : Tournament := { duel with games := #[.held (.new exchange false)] }

theorem isFresh_bout : bout.IsFresh :=
  isFresh_of_games_eq [(exchange, false)] rfl
    (by simp [bout, duel, Player.automated, Player.pending?])

theorem isCoherent_duel_finished :
    ∃ s game, duel.Visits withoutAborts s ∧ s.game? 0 = some game ∧
      game.phase = .finished .attacker ∧ game.record.plays.length = 1 ∧ game.IsCoherent ∧
      game.record.entries.toList.filterMap Entry.winner? = [.attacker] := by
  have hstart : duel.Visits withoutAborts duel := .start
  have hvisits := ((hstart.serve (.seat 0 0 1) fun _ _ _ _ => rfl).serve (.start 0) rfl).take
    0 ⟨5, 0, oneAttack.choices .root .attacker⟩ rfl
  obtain ⟨hcoherent, hwinner⟩ :=
    isCoherent_of_visits isFresh_duel scriptsWithin_duel hvisits (g := 0) rfl (by decide)
  exact ⟨_, _, hvisits, rfl, rfl, rfl, hcoherent, hwinner⟩

end Tournament

end BisimPlay
