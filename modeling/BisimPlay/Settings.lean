import BisimPlay.Process.Steps

/-!
# Settings

What is fixed before games are played: how long automated players think, from which
seed they choose at random, whether records echo, and under which semantics the
defender answers. The attacker always moves under strong semantics.
-/

namespace BisimPlay

/-- A span of time in nanoseconds. -/
structure Duration where
  nanoseconds : Nat
deriving DecidableEq, Inhabited

namespace Duration

/-- A span of whole seconds and nanoseconds. -/
def ofParts (seconds nanoseconds : Nat) : Duration :=
  ⟨seconds * 1000000000 + nanoseconds⟩

def ofMilliseconds (n : Nat) : Duration := ⟨n * 1000000⟩

def milliseconds (d : Duration) : Nat := d.nanoseconds / 1000000

def seconds (d : Duration) : Nat := d.nanoseconds / 1000000000

def remainder (d : Duration) : Nat := d.nanoseconds % 1000000000

@[simp] theorem milliseconds_ofMilliseconds (n : Nat) :
    (ofMilliseconds n).milliseconds = n := by
  simp [ofMilliseconds, milliseconds]

theorem ofParts_seconds_remainder (d : Duration) :
    ofParts d.seconds d.remainder = d := by
  have h := Nat.div_add_mod' d.nanoseconds 1000000000
  cases d
  simpa [ofParts, seconds, remainder] using h

end Duration

/-- The settings of a session. -/
structure Settings where
  /-- How long an automated player thinks, in milliseconds. -/
  thinkingDelay : UInt64
  /-- The seed of random choices; without one, the seed is taken from outside. -/
  seed : Option UInt64
  /-- Whether records echo. -/
  echo : Bool
  /-- The semantics of the defender's answers. -/
  semantics : Semantics
deriving DecidableEq

namespace Settings

/-- The settings in the absence of others: two seconds to think, no seed, echoing
records, strong answers. -/
def standard : Settings := ⟨2000, none, true, .strong⟩

instance : Inhabited Settings := ⟨standard⟩

/-- Settings with another thinking time. It is cut to whole milliseconds, which are
counted modulo the size of a word. -/
def withThinkingTime (settings : Settings) (time : Duration) : Settings :=
  { settings with thinkingDelay := .ofNat time.milliseconds }

/-- Settings with a seed. -/
def withSeed (settings : Settings) (seed : UInt64) : Settings :=
  { settings with seed := some seed }

/-- Settings with echoing on or off. -/
def withEcho (settings : Settings) (echo : Bool) : Settings :=
  { settings with echo }

/-- Settings with another semantics for the defender. -/
def withSemantics (settings : Settings) (semantics : Semantics) : Settings :=
  { settings with semantics }

/-- The thinking time as a span. -/
def thinkingTime (settings : Settings) : Duration :=
  .ofMilliseconds settings.thinkingDelay.toNat

end Settings

end BisimPlay
