import BisimPlay.CommandLine.Options
import BisimPlay.Process.Listing
import BisimPlay.Session
import BisimPlay.Text.Plain

/-!
# What the command does

The command reads a transition system, tells whether two of its processes are
bisimilar, has two automated players play the game, and shows the record of the game.
A game is given up when its round exceeds a limit; this is looked at after every
move.

Everything but the reading of the file and the showing is here, as a function from
the arguments and the contents of the file to a report.
-/

namespace BisimPlay

namespace CommandLine

/-- Where a notice comes from: the command itself or the games it has played. -/
inductive Origin
  | command
  | games
deriving DecidableEq, Inhabited

/-- A notice with its origin. -/
structure Remark where
  origin : Origin
  notice : Notice
deriving DecidableEq, Inhabited

/-- A text whose lines are indented, all but the first. -/
def hang (text : List Char) : List Char :=
  text.flatMap fun c => if c = '\n' then ['\n', ' ', ' ', ' ', ' '] else [c]

/-- A remark as it is shown: in plain text, and only its first line begins at the
margin, so that a name of several lines is not taken for several remarks. -/
def Remark.shown (remark : Remark) : String :=
  .ofList (Text.plain (hang remark.notice.line.toList))

/-- Which notices are shown: a threshold for each origin. -/
structure Filter where
  command : Severity
  games : Severity
deriving DecidableEq, Inhabited

namespace Filter

def uniform (severity : Severity) : Filter := ⟨severity, severity⟩

/-- Whether a remark is shown. -/
def admits (filter : Filter) (remark : Remark) : Bool :=
  match remark.origin with
  | .command => filter.command.admits remark.notice.severity
  | .games => filter.games.admits remark.notice.severity

end Filter

/-- What the command comes to: its exit code, the lines that it shows, its remarks,
and how long the players took, in milliseconds. -/
structure Report where
  exit : Nat
  lines : List String
  remarks : List Remark
  duration : Nat
deriving DecidableEq, Inhabited

namespace Report

/-- The remarks that a filter admits, as they are shown. -/
def log (report : Report) (filter : Filter) : List String :=
  (report.remarks.filter filter.admits).map Remark.shown

def misuse : Report := ⟨2, [], [], 0⟩

/-- The report on a failure, with the remarks made before it. -/
def failure (remarks : List Remark) (fault : Fault) : Report :=
  ⟨1, [], remarks ++ [⟨.command, ⟨.error, fault.message⟩⟩], 0⟩

end Report

/-- The text of a file's contents. -/
def decode (contents : ByteArray) : Except Fault String :=
  match String.fromUTF8? contents with
  | some text => .ok text
  | none => .error (.unreadable "stream did not contain valid UTF-8")

/-- The settings that the options ask for. -/
def Options.settings (options : Options) : Settings where
  thinkingDelay := options.delay
  seed := options.seed
  echo := false
  semantics := if options.weak then .weak else .strong

/-- The two processes to compare. The pair that the session offers stands in for
names that are not given, and is looked at only when one is missing. -/
def pair (options : Options) (session : Session) : Except Fault (String × String) :=
  match options.left, options.right with
  | some left, some right => .ok (left, right)
  | left, right =>
    match session.defaultPair with
    | none => .error (.unknownProcess "<none declared>")
    | some (first, second) => .ok (left.getD first, right.getD second)

/-- The remarks on what is reached from a process: one for each step. -/
def stepRemarks (lts : TransitionSystem) (name : String) (reached : List Reached) :
    List Remark :=
  reached.flatMap fun place => place.steps.map fun step =>
    ⟨.command, ⟨.debug, name ++ ": " ++ lts.label place.process ++ " --" ++
      step.action.label ++ "--> " ++ lts.label step.target⟩⟩

/-- Take decisions one by one until the game is over or its round exceeds the limit;
the number bounds the decisions. -/
def playOut (g : GameId) (maxRounds : UInt32) : Nat → Tournament → Tournament
  | 0, t => t
  | n + 1, t =>
    match t.game? g with
    | none => t
    | some game =>
      if game.phase.isOver ∨ maxRounds < game.turn.round then t
      else
        match t.next? with
        | none => t
        | some (p, decision) => playOut g maxRounds n (t.take p decision)

/-- The line that tells whether the processes are bisimilar. -/
def verdictLine (left right : String) (contest : Contest) : String :=
  left ++ " and " ++ right ++ " are " ++
    (if contest.isBisimilar then "" else "not ") ++ "bisimilar"

/-- The line that tells how a game ended that was not won. -/
def endLine (maxRounds : UInt32) : Phase → List String
  | .finished _ => []
  | .aborted reason => ["game aborted: " ++ reason]
  | _ => ["no winner after " ++ Decimal.render maxRounds.toNat ++ " rounds"]

/-- Play the game of two processes in a session and report on it. A round has two
moves, so a game within the limit has at most twice as many moves. -/
def playGame (options : Options) (session : Session) (left right : String)
    (remarks : List Remark) : Report :=
  match session.newGame left right with
  | (.error fault, _) => .failure remarks fault
  | (.ok live, session) =>
    let played :=
      playOut live.game options.maxRounds (2 * options.maxRounds.toNat) session.tournament
    let session := (session.withTournament played).hide
    let ending :=
      match session.tournament.game? live.game with
      | none => []
      | some game => game.record.lines ++ endLine options.maxRounds game.phase
    { exit := 0
      lines := verdictLine left right live.contest :: ending
      remarks := remarks ++ session.tournament.notices.toList.map fun notice =>
        ⟨.games, notice⟩
      duration := session.tournament.now }

/-- The report on a listing: both processes are explored and then play. -/
def reportOn (options : Options) (otherSeed : UInt64) (listing : String) : Report :=
  match Listing.read listing with
  | .error fault => .failure [] fault
  | .ok lts =>
    let session := Session.new lts options.settings otherSeed
    match pair options session with
    | .error fault => .failure [] fault
    | .ok (left, right) =>
      match session.explore left with
      | .error fault => .failure [] fault
      | .ok fromLeft =>
        let remarks := stepRemarks lts left fromLeft
        match session.explore right with
        | .error fault => .failure remarks fault
        | .ok fromRight =>
          playGame options session left right (remarks ++ stepRemarks lts right fromRight)

/-- The report on the contents of the file that the options name. -/
def report (options : Options) (otherSeed : UInt64)
    (contents : Except String ByteArray) : Report :=
  match contents with
  | .error reason => .failure [] (.unreadable reason)
  | .ok bytes =>
    match decode bytes with
    | .error fault => .failure [] fault
    | .ok listing => reportOn options otherSeed listing

end CommandLine

end BisimPlay
