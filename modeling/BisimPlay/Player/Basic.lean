import BisimPlay.Game.Basic
import BisimPlay.Player.Color
import BisimPlay.Random.Source

/-!
# Players

A player has a role for life and a way to come to its moves. A person holds the
choices it was told last, and picks one when asked from outside. An automated player
thinks for a while: its decision is pending until it falls due. A scripted player
acts at once, by the next line of a script written in advance.

An automated player has at most one decision pending, whichever game it is for; a
new one takes the place of the old one.
-/

namespace BisimPlay

/-- A decision that falls due at some time: the game it is for and the choices. -/
structure Decision where
  due : Nat
  game : GameId
  choices : List Move
deriving DecidableEq, Inhabited

/-- Something that a scripted player does when it is told to move. -/
inductive Act
  /-- Play the choice at a position, counted round and round the choices. -/
  | play (position : Nat)
  /-- Play the first choice for the opponent. -/
  | playForOpponent
  /-- Stop the game. -/
  | stop
  /-- Break the game off. -/
  | abort
  /-- Start the game. -/
  | start
deriving DecidableEq, Inhabited

/-- How a player comes to its moves. -/
inductive Conduct
  /-- A person, with the choices it was told last. -/
  | human (choices : List Move)
  /-- An automated player: its thinking time, its source of random choices, and the
  decision that is pending. -/
  | automated (delay : UInt64) (source : RandomSource) (pending : Option Decision)
  /-- A scripted player: the lines of its script that are left, each of several acts,
  and how often it was dismissed. -/
  | scripted (script : List (List Act)) (dismissals : Nat)
deriving DecidableEq, Inhabited

/-- A player. -/
structure Player where
  role : Role
  color : Color
  conduct : Conduct
deriving DecidableEq, Inhabited

namespace Player

def human (role : Role) (color : Color) : Player := ⟨role, color, .human []⟩

/-- An automated player with nothing pending. -/
def automated (role : Role) (color : Color) (delay : UInt64) (source : RandomSource) :
    Player :=
  ⟨role, color, .automated delay source none⟩

/-- A scripted player that was not dismissed yet. -/
def scripted (role : Role) (color : Color) (script : List (List Act)) : Player :=
  ⟨role, color, .scripted script 0⟩

/-- Whether a player is a person. -/
def isHuman (player : Player) : Bool :=
  match player.conduct with
  | .human _ => true
  | _ => false

/-- The kind of a player in messages. -/
def kindText (player : Player) : String :=
  if player.isHuman then "human" else "automated"

/-- The choices that a person holds; nobody else holds any. -/
def heldChoices (player : Player) : List Move :=
  match player.conduct with
  | .human choices => choices
  | _ => []

/-- The decision that is pending. -/
def pending? (player : Player) : Option Decision :=
  match player.conduct with
  | .automated _ _ pending => pending
  | _ => none

/-- How many lines of its script a player has left. -/
def scriptLength (player : Player) : Nat :=
  match player.conduct with
  | .scripted script _ => script.length
  | _ => 0

/-- A person with other choices in hand. -/
def holding (player : Player) (choices : List Move) : Player :=
  match player.conduct with
  | .human _ => { player with conduct := .human choices }
  | _ => player

/-- A player without its pending decision. -/
def withoutDecision (player : Player) : Player :=
  match player.conduct with
  | .automated delay source _ => { player with conduct := .automated delay source none }
  | _ => player

/-- A player that has drawn random choices. -/
def withSource (player : Player) (source : RandomSource) : Player :=
  match player.conduct with
  | .automated delay _ pending =>
    { player with conduct := .automated delay source pending }
  | _ => player

@[simp] theorem role_holding (player : Player) (choices : List Move) :
    (player.holding choices).role = player.role := by
  unfold holding
  split <;> rfl

@[simp] theorem role_withoutDecision (player : Player) :
    player.withoutDecision.role = player.role := by
  unfold withoutDecision
  split <;> rfl

@[simp] theorem pending?_withoutDecision (player : Player) :
    player.withoutDecision.pending? = none := by
  unfold withoutDecision pending?
  cases h : player.conduct <;> simp [h]

end Player

end BisimPlay
