import BisimPlay.Game.Phase
import BisimPlay.Game.Record
import BisimPlay.Game.Turn
import BisimPlay.Hypergraph.Ranking
import BisimPlay.Json.Codec
import BisimPlay.Settings

/-!
# Written forms of the game's types

Numbers of processes, nodes and levels are written as numbers, and so is the step
count of a turn; each has to fit its word. An action is written as its label. The
other types are records and choices.
-/

namespace BisimPlay

open Json

/-- A word of 32 bits. -/
instance writtenWord : Written UInt32 where
  toJson word := .natural word.toNat
  ofJson? value := (natBelow? 0x100000000 value).map UInt32.ofNat

/-- A word of 64 bits. -/
instance writtenLongWord : Written UInt64 where
  toJson word := .natural word.toNat
  ofJson? value := (natBelow? 0x10000000000000000 value).map UInt64.ofNat

instance writtenBool : Written Bool where
  toJson b := .bool b
  ofJson?
    | .bool b => some b
    | _ => none

instance writtenString : Written String where
  toJson s := ofString s
  ofJson? value := value.text?

instance writtenProcessId : Written ProcessId where
  toJson p := Written.toJson p.word
  ofJson? value := (Written.ofJson? value).map ProcessId.mk

instance writtenNodeId : Written NodeId where
  toJson n := Written.toJson n.word
  ofJson? value := (Written.ofJson? value).map NodeId.mk

instance writtenLevel : Written Level where
  toJson level := Written.toJson level.word
  ofJson? value := (Written.ofJson? value).map Level.mk

instance writtenAction : Written Action where
  toJson a := Written.toJson a.label
  ofJson? value := (Written.ofJson? value).map Action.mk

instance writtenRole : Written Role where
  toJson
    | .attacker => ofString "Attacker"
    | .defender => ofString "Defender"
  ofJson? := Written.caseNamed? [("Attacker", .attacker), ("Defender", .defender)]

instance writtenSide : Written Side where
  toJson
    | .left => ofString "Left"
    | .right => ofString "Right"
  ofJson? := Written.caseNamed? [("Left", .left), ("Right", .right)]

instance writtenSemantics : Written Semantics where
  toJson
    | .strong => ofString "Strong"
    | .weak => ofString "Weak"
  ofJson? := Written.caseNamed? [("Strong", .strong), ("Weak", .weak)]

instance writtenMarking : Written Marking where
  toJson
    | .zero => ofString "Zero"
    | .one => ofString "One"
  ofJson? := Written.caseNamed? [("Zero", .zero), ("One", .one)]

instance writtenTransition : Written Transition where
  toJson step :=
    ofFields [("action", Written.toJson step.action), ("target", Written.toJson step.target)]
  ofJson? value :=
    match fields? ["action", "target"] value with
    | some [action, target] => do
      let action ← required? Written.ofJson? action
      let target ← required? Written.ofJson? target
      pure ⟨action, target⟩
    | _ => none

instance writtenMove : Written Move where
  toJson move :=
    ofFields [("target_process", Written.toJson move.target),
      ("next_node", Written.toJson move.next), ("action", Written.toJson move.action),
      ("side", Written.toJson move.side)]
  ofJson? value :=
    match fields? ["target_process", "next_node", "action", "side"] value with
    | some [target, next, action, side] => do
      let target ← required? Written.ofJson? target
      let next ← required? Written.ofJson? next
      let action ← required? Written.ofJson? action
      let side ← required? Written.ofJson? side
      pure ⟨target, next, action, side⟩
    | _ => none

instance writtenRanking : Written Ranking where
  toJson ranking :=
    ofFields [("levels", .array (ranking.levels.toList.map Written.toJson))]
  ofJson? value :=
    match fields? ["levels"] value with
    | some [levels] =>
      (required? (list? Written.ofJson?) levels).map fun levels => ⟨levels.toArray⟩
    | _ => none

instance writtenPhase : Written Phase where
  toJson
    | .unstarted => ofString "Unstarted"
    | .toMove role => tagged "ToMove" (Written.toJson role)
    | .finished winner => tagged "Finished" (ofFields [("winner", Written.toJson winner)])
    | .aborted reason => tagged "Aborted" (ofString reason)
  ofJson? value :=
    match case? value with
    | some ("Unstarted", content) =>
      if isEmptyContent content then some .unstarted else none
    | some ("ToMove", some content) => (Written.ofJson? content).map Phase.toMove
    | some ("Finished", some content) =>
      match fields? ["winner"] content with
      | some [winner] => (required? Written.ofJson? winner).map Phase.finished
      | _ => none
    | some ("Aborted", some content) => content.text?.map Phase.aborted
    | _ => none

instance writtenTurn : Written Turn where
  toJson turn :=
    ofFields [("node", Written.toJson turn.node), ("step", Written.toJson turn.step),
      ("last_action", ofOption Written.toJson turn.lastAction),
      ("last_side", ofOption Written.toJson turn.lastSide)]
  ofJson? value :=
    match fields? ["node", "step", "last_action", "last_side"] value with
    | some [node, step, lastAction, lastSide] => do
      let node ← required? Written.ofJson? node
      let step ← required? Written.ofJson? step
      let lastAction ← omissible? Written.ofJson? lastAction
      let lastSide ← omissible? Written.ofJson? lastSide
      pure ⟨node, step, lastAction, lastSide⟩
    | _ => none

instance writtenEntry : Written Entry where
  toJson
    | .round number => tagged "Round" (Written.toJson number)
    | .play role move destination =>
      tagged "Play" (ofFields [("role", Written.toJson role),
        ("mv", Written.toJson move), ("destination", ofString destination)])
    | .winner role => tagged "Winner" (Written.toJson role)
  ofJson? value :=
    match case? value with
    | some ("Round", some content) => (Written.ofJson? content).map Entry.round
    | some ("Play", some content) =>
      match fields? ["role", "mv", "destination"] content with
      | some [role, move, destination] => do
        let role ← required? Written.ofJson? role
        let move ← required? Written.ofJson? move
        let destination ← required? Json.text? destination
        pure (.play role move destination)
      | _ => none
    | some ("Winner", some content) => (Written.ofJson? content).map Entry.winner
    | _ => none

instance writtenSettings : Written Settings where
  toJson settings :=
    ofFields [("thinking_delay_ms", Written.toJson settings.thinkingDelay),
      ("seed", ofOption Written.toJson settings.seed),
      ("echo_log", Written.toJson settings.echo),
      ("defender_semantics", Written.toJson settings.semantics)]
  ofJson? value :=
    match fields? ["thinking_delay_ms", "seed", "echo_log", "defender_semantics"] value with
    | some [delay, seed, echo, semantics] => do
      let delay ← required? Written.ofJson? delay
      let seed ← omissible? Written.ofJson? seed
      let echo ← required? Written.ofJson? echo
      let semantics ← required? Written.ofJson? semantics
      pure ⟨delay, seed, echo, semantics⟩
    | _ => none

end BisimPlay
