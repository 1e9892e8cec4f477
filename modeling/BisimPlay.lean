import BisimPlay.Main
import BisimPlay.Process.StepTable
import BisimPlay.Proofs.Arena.Moves
import BisimPlay.Proofs.CommandLine.Outcome
import BisimPlay.Proofs.Contest.Equivalence
import BisimPlay.Proofs.Contest.Monotonicity
import BisimPlay.Proofs.Contest.Records
import BisimPlay.Proofs.Contest.Renaming
import BisimPlay.Proofs.Contest.Strata
import BisimPlay.Proofs.Hypergraph.Dangling
import BisimPlay.Proofs.Hypergraph.Fixpoint
import BisimPlay.Proofs.Json.Records
import BisimPlay.Proofs.Process.Answers
import BisimPlay.Proofs.Process.Declarations
import BisimPlay.Proofs.Process.Exploration
import BisimPlay.Proofs.Process.Listings
import BisimPlay.Proofs.Session.Faults
import BisimPlay.Proofs.Session.Seeds
import BisimPlay.Proofs.Tournament.Schedule
import BisimPlay.Proofs.Tournament.Stopping
import BisimPlay.Tournament.Watcher
