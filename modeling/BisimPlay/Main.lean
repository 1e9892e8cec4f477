import BisimPlay.CommandLine.Report

/-!
# The command

The outer layer of the command: it fetches the file, has the report made, and shows
it. Notices go to standard error, as far as the threshold in the environment variable
`BISIM_LOG` admits them.
-/

namespace BisimPlay

namespace CommandLine

def environmentFilter : IO Filter := do
  let word ← IO.getEnv "BISIM_LOG"
  pure (.uniform ((word.bind Severity.ofThreshold?).getD .info))

def fetch (file : String) : IO (Except String ByteArray) := do
  try
    pure (.ok (← IO.FS.readBinFile file))
  catch problem =>
    pure (.error (
      match problem with
      | .noFileOrDirectory .. => "No such file or directory (os error 2)"
      | other => toString other))

/-- Show a report: its remarks, its first line, and the other lines once the players
have had their time. -/
def showReport (report : Report) : IO Unit := do
  for remark in report.log (← environmentFilter) do
    IO.eprintln remark
  for line in report.lines.take 1 do
    IO.println line
  (← IO.getStdout).flush
  IO.sleep (.ofNat report.duration)
  for line in report.lines.drop 1 do
    IO.println line

end CommandLine

end BisimPlay

open BisimPlay.CommandLine in
def main (arguments : List String) : IO UInt32 := do
  match Options.parse? arguments with
  | none =>
    IO.eprintln ("usage: bisim --lts FILE [--left NAME] [--right NAME] [--weak]" ++
      " [--delay-ms N] [--seed N] [--max-rounds N]")
    pure 2
  | some options =>
    let otherSeed ← IO.rand 0 0xFFFFFFFFFFFFFFFF
    let made := report options (.ofNat otherSeed) (← fetch options.file)
    showReport made
    pure (.ofNat made.exit)
