import BisimPlay.Text.Decimal

/-!
# Options of the command line

The command takes options by name only. A value stands in the argument after the
option, or in the same argument after an equals sign. In the first form it may not
begin with a hyphen, unless a hyphen is all there is. No option is given twice, and
the option that names the file is required. Two hyphens alone end the options, after
which nothing may follow.
-/

namespace BisimPlay

namespace CommandLine

/-- The options of the command. -/
structure Options where
  /-- The file that holds the transition system. -/
  file : String
  left : Option String
  right : Option String
  /-- Whether the defender answers under weak semantics. -/
  weak : Bool
  /-- The thinking time of the players in milliseconds. -/
  delay : UInt64
  seed : Option UInt64
  /-- The number of rounds after which a game is given up. -/
  maxRounds : UInt32
deriving DecidableEq

/-- The name of an option. -/
inductive OptionName
  | file
  | left
  | right
  | weak
  | delay
  | seed
  | maxRounds
deriving DecidableEq, Inhabited

namespace OptionName

/-- The option that a name, given after two hyphens, stands for. -/
def ofString? : String → Option OptionName
  | "lts" => some file
  | "left" => some left
  | "right" => some right
  | "weak" => some weak
  | "delay-ms" => some delay
  | "seed" => some seed
  | "max-rounds" => some maxRounds
  | _ => none

def isFlag (name : OptionName) : Bool := name = weak

end OptionName

/-- An option as it was given; a flag has no value. -/
structure Given where
  name : OptionName
  value : Option String
deriving DecidableEq, Inhabited

/-- An argument without its two leading hyphens: the name before the first equals
sign, and the value after it if there is one. -/
def splitArgument (text : List Char) : String × Option String :=
  let name := text.takeWhile (· ≠ '=')
  match text.dropWhile (· ≠ '=') with
  | [] => (.ofList name, none)
  | _ :: value => (.ofList name, some (.ofList value))

/-- Whether an argument may be a value of the option before it. -/
def isValue (argument : String) : Bool :=
  match argument.toList with
  | '-' :: _ :: _ => false
  | _ => true

/-- The options given by a list of arguments, in order; `none` when the list is not
made of options. -/
def scan : List String → Option (List Given)
  | [] => some []
  | argument :: rest =>
    match argument.toList with
    | ['-', '-'] => if rest.isEmpty then some [] else none
    | '-' :: '-' :: text =>
      let (name, value) := splitArgument text
      match OptionName.ofString? name with
      | none => none
      | some name =>
        if name.isFlag then
          if value.isNone then (scan rest).map (⟨name, none⟩ :: ·) else none
        else
          match value, rest with
          | some value, rest => (scan rest).map (⟨name, some value⟩ :: ·)
          | none, [] => none
          | none, value :: rest =>
            if isValue value then (scan rest).map (⟨name, some value⟩ :: ·) else none
    | _ => none

/-- A number that may have a plus sign in front. -/
def signedNumber? (text : String) : Option Nat :=
  match text.toList with
  | '+' :: digits => Decimal.read? digits
  | digits => Decimal.read? digits

/-- A word of 64 bits. -/
def word64? (text : String) : Option UInt64 :=
  (signedNumber? text).bind fun n =>
    if n < 0x10000000000000000 then some (.ofNat n) else none

/-- A word of 32 bits. Zero may have a minus sign. -/
def word32? (text : String) : Option UInt32 :=
  let n :=
    match text.toList with
    | '-' :: digits => (Decimal.read? digits).filter (· = 0)
    | _ => signedNumber? text
  n.bind fun n => if n < 0x100000000 then some (.ofNat n) else none

/-- The value given for an option, if it was given. -/
def valueOf? (given : List Given) (name : OptionName) : Option String :=
  (given.find? (·.name = name)).bind (·.value)

/-- The value given for an option, read in some way; `none` when it cannot be read,
and a value of its own when the option was not given. -/
def readOr {α : Type} (given : List Given) (name : OptionName) (absent : α)
    (read : String → Option α) : Option α :=
  match valueOf? given name with
  | none => some absent
  | some value => read value

def Options.parse? (arguments : List String) : Option Options := do
  let given ← scan arguments
  if ¬ (given.map (·.name)).Nodup then none
  else
    let file ← valueOf? given .file
    if file = "" then none
    else
      let delay ← readOr given .delay 2000 word64?
      let seed ← readOr given .seed none fun value => (word64? value).map some
      let maxRounds ← readOr given .maxRounds 100 word32?
      pure {
        file
        left := valueOf? given .left
        right := valueOf? given .right
        weak := given.any (·.name = .weak)
        delay
        seed
        maxRounds }

end CommandLine

end BisimPlay
