/-!
# Notices

While games are played, remarks for whoever watches accumulate: a game starts, a
move is turned down, a strategy is at a loss. A notice is such a remark as data;
where it is shown, if anywhere, is the business of the outer layer.
-/

namespace BisimPlay

/-- How serious a notice is. -/
inductive Severity
  | error
  | warn
  | info
  | debug
deriving DecidableEq, Inhabited

namespace Severity

/-- Severities by urgency: the most urgent has rank zero. -/
def rank : Severity → Nat
  | error => 0
  | warn => 1
  | info => 2
  | debug => 3

/-- A threshold admits everything that is at least as urgent as itself. -/
def admits (threshold severity : Severity) : Bool :=
  severity.rank ≤ threshold.rank

/-- The word that stands for a severity in a shown notice. -/
def word : Severity → String
  | error => "ERROR"
  | warn => "WARN"
  | info => "INFO"
  | debug => "DEBUG"

/-- The severity that a lower-case word names as a threshold. -/
def ofThreshold? : String → Option Severity
  | "error" => some error
  | "warn" => some warn
  | "info" => some info
  | "debug" => some debug
  | _ => none

end Severity

/-- A remark with its severity. -/
structure Notice where
  severity : Severity
  text : String
deriving DecidableEq, Inhabited

/-- A notice as one line: the word of its severity, a blank, its text. -/
def Notice.line (notice : Notice) : String :=
  notice.severity.word ++ " " ++ notice.text

end BisimPlay
