import BisimPlay.Proofs.Game.Decisions
import BisimPlay.Proofs.Game.Twins
import Mathlib.Logic.Function.Iterate

/-!
# Games that are left to two sources

A game that is left to automated players is settled by its rules and by the sources that the
two players draw from: whoever holds the turn decides on the choices at hand, draws from its own
source if it has to, and its move is made or the game is broken off. `Standing` is a game with
the two sources, `Standing.next` is what one decision makes of it, and `Standing.after` counts
decisions. No time passes here and nothing else goes on; that a game in a tournament comes to the
same is another matter.

The moves on record only ever grow, and once no turn is open nothing changes any more.
-/

namespace BisimPlay

namespace Game

variable {game copy next : Game} {role : Role} {effects : List Effect}

def decided (game : Game) (role : Role) : Except Fault Move → Game
  | .error fault => (game.abort fault).1
  | .ok move =>
    match game.play role move with
    | .error fault => (game.abort fault).1
    | .ok (next, _) => next

theorem eq_decided_of_on_answer_eq_ok {decision : Except Fault Move}
    (h : (game.answer role decision).on game = .ok (next, effects)) :
    next = game.decided role decision := by
  cases decision with
  | error fault => exact (congrArg Prod.fst (Except.ok.inj h)).symm
  | ok move =>
      cases hplay : game.play role move with
      | error fault =>
          simp only [answer, hplay] at h
          simp only [decided, hplay]
          exact (congrArg Prod.fst (Except.ok.inj h)).symm
      | ok result =>
          rw [answer_of_play_eq_ok hplay] at h
          obtain rfl := Except.ok.inj (hplay.symm.trans h)
          simp only [decided, hplay]

theorem decided_cases (game : Game) (role : Role) (decision : Except Fault Move) :
    (∃ fault, game.decided role decision = (game.abort fault).1) ∨
      ∃ move, game.decided role decision = ((game.moved role move).handOver role.opponent).1 := by
  cases decision with
  | error fault => exact .inl ⟨fault, rfl⟩
  | ok move =>
      cases hplay : game.play role move with
      | error fault => exact .inl ⟨fault, by simp [decided, hplay]⟩
      | ok result =>
          obtain ⟨_, _, _, haccept⟩ := play_eq_ok_iff.1 hplay
          obtain ⟨heading, heq⟩ := game.exists_accept_eq role move
          refine .inr ⟨move, ?_⟩
          simp only [decided, hplay]
          exact (congrArg Prod.fst (heq.symm.trans haccept)).symm

theorem stopped_decided (game : Game) (role : Role) (decision : Except Fault Move) :
    (game.decided role decision).stopped = game.stopped := by
  rcases game.decided_cases role decision with ⟨fault, heq⟩ | ⟨move, heq⟩
  · rw [heq]
    rfl
  · rw [heq, stopped_handOver]
    rfl

theorem phase_decided_ne_unstarted (game : Game) (role : Role) (decision : Except Fault Move) :
    (game.decided role decision).phase ≠ .unstarted := by
  rcases game.decided_cases role decision with ⟨fault, heq⟩ | ⟨move, heq⟩
  · rw [heq]
    simp [abort]
  · rw [heq]
    exact phase_handOver_ne_unstarted _ _

theorem plays_isPrefix_decided (game : Game) (role : Role) (decision : Except Fault Move) :
    game.record.plays <+: (game.decided role decision).record.plays := by
  rcases game.decided_cases role decision with ⟨fault, heq⟩ | ⟨move, heq⟩
  · rw [heq]
    exact List.prefix_rfl
  · rw [heq, plays_handOver, plays_moved]
    exact List.prefix_append _ _

namespace IsTwin

theorem abort (h : game.IsTwin copy) (fault : Fault) :
    (game.abort fault).1.IsTwin (copy.abort fault).1 :=
  ⟨h.rules_eq, rfl, h.turn_eq, h.entries_eq⟩

theorem decided (h : game.IsTwin copy) (hgame : game.stopped = false)
    (hcopy : copy.stopped = false) (role : Role) (decision : Except Fault Move) :
    (game.decided role decision).IsTwin (copy.decided role decision) := by
  cases decision with
  | error fault => exact h.abort fault
  | ok move =>
      have hfault : copy.turnFault? role = game.turnFault? role := by
        rw [turnFault?, turnFault?, hgame, hcopy, h.phase_eq]
      have hchoices := choices_congr h.rules_eq h.turn_eq role
      cases hplay : game.play role move with
      | ok result =>
          obtain ⟨_, hphase, hmove, haccept⟩ := play_eq_ok_iff.1 hplay
          obtain ⟨follower, effects, hfollows, htwin, _⟩ :=
            h.exists_play_eq_ok hcopy hphase hmove
          obtain ⟨heading, heq⟩ := game.exists_accept_eq role move
          have hnext := congrArg Prod.fst (heq.symm.trans haccept)
          simp only [Game.decided, hplay, hfollows]
          exact hnext ▸ htwin
      | error fault =>
          have hsame : copy.play role move = .error fault := by
            rw [play] at hplay ⊢
            rw [hfault, hchoices]
            split at hplay
            · exact hplay
            · split at hplay
              · exact absurd hplay (by simp)
              · next hmove =>
                  rw [if_neg hmove]
                  exact congrArg Except.error (Except.error.inj hplay)
          simp only [Game.decided, hplay, hsame]
          exact h.abort fault

end IsTwin

end Game

/-- A game and the sources that its players draw from. -/
structure Standing where
  game : Game
  source : Role → RandomSource

namespace Standing

variable {x : Standing}

def first (rules : Rules) (source : Role → RandomSource) : Standing :=
  ⟨((Game.new rules false).fresh.handOver .attacker).1, source⟩

def verdict (x : Standing) (role : Role) : Verdict :=
  x.game.rules.verdict x.game.turn.node role (x.game.choices role) (x.source role)

def next (x : Standing) : Standing :=
  match x.game.phase.toMove? with
  | none => x
  | some role =>
    ⟨x.game.decided role (x.verdict role).move,
      Function.update x.source role (x.verdict role).source⟩

/-- What a number of decisions make of a game and the sources. -/
def after (x : Standing) (n : Nat) : Standing := next^[n] x

@[simp] theorem after_zero (x : Standing) : x.after 0 = x := rfl

theorem after_succ (x : Standing) (n : Nat) : x.after (n + 1) = (x.after n).next :=
  Function.iterate_succ_apply' next n x

theorem next_of_toMove?_eq_none (h : x.game.phase.toMove? = none) : x.next = x := by
  rw [next, h]

theorem next_of_phase_eq {role : Role} (h : x.game.phase = .toMove role) :
    x.next = ⟨x.game.decided role (x.verdict role).move,
      Function.update x.source role (x.verdict role).source⟩ := by
  rw [next, h]
  rfl

theorem after_induction {motive : Game → Prop} (n : Nat) (hfirst : motive x.game)
    (hdecided : ∀ game role decision, motive game → motive (game.decided role decision)) :
    motive (x.after n).game := by
  induction n with
  | zero => exact hfirst
  | succ n ih =>
      rw [after_succ, next]
      split
      · exact ih
      · exact hdecided _ _ _ ih

variable (rules : Rules) (source : Role → RandomSource)

theorem stopped_after_first (n : Nat) : ((first rules source).after n).game.stopped = false :=
  after_induction (motive := fun game => game.stopped = false) n (Game.stopped_handOver _ _)
    fun game role decision h => (game.stopped_decided role decision).trans h

theorem phase_after_first_ne_unstarted (n : Nat) :
    ((first rules source).after n).game.phase ≠ .unstarted :=
  after_induction (motive := fun game => game.phase ≠ .unstarted) n
    (Game.phase_handOver_ne_unstarted _ _)
    fun game role decision _ => game.phase_decided_ne_unstarted role decision

theorem plays_first : (first rules source).game.record.plays = [] :=
  Game.plays_handOver _ _

theorem plays_isPrefix_after (x : Standing) {n m : Nat} (h : n ≤ m) :
    (x.after n).game.record.plays <+: (x.after m).game.record.plays := by
  induction h with
  | refl => exact List.prefix_rfl
  | step _ ih =>
      refine ih.trans ?_
      rw [Nat.succ_eq_add_one, after_succ, next]
      split
      · exact List.prefix_rfl
      · exact Game.plays_isPrefix_decided _ _ _

theorem after_eq_of_toMove?_eq_none {n m : Nat} (h : n ≤ m)
    (hclosed : (x.after n).game.phase.toMove? = none) : x.after m = x.after n := by
  induction h with
  | refl => rfl
  | step _ ih =>
      rw [Nat.succ_eq_add_one, after_succ, ih]
      exact next_of_toMove?_eq_none hclosed

theorem after_eq_after {n m : Nat} (hn : (x.after n).game.phase.toMove? = none)
    (hm : (x.after m).game.phase.toMove? = none) : x.after n = x.after m :=
  (Nat.le_total n m).elim (fun h => (after_eq_of_toMove?_eq_none h hn).symm)
    fun h => after_eq_of_toMove?_eq_none h hm

end Standing

end BisimPlay
