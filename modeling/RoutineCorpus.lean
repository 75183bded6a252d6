import RoutineCorpus.Agreement
import RoutineCorpus.Command
import RoutineCorpus.CommandLine.Execute
import RoutineCorpus.CommandLine.Options
import RoutineCorpus.Error
import RoutineCorpus.Input
import RoutineCorpus.Int128
import RoutineCorpus.Json
import RoutineCorpus.Main
import RoutineCorpus.Numeral.Integer
import RoutineCorpus.Numeral.Real
import RoutineCorpus.Numeral.Shortest
import RoutineCorpus.Output
import RoutineCorpus.Proofs.Agreement
import RoutineCorpus.Proofs.CheckDocument
import RoutineCorpus.Proofs.Comparison
import RoutineCorpus.Proofs.Decimal
import RoutineCorpus.Proofs.Decoding
import RoutineCorpus.Proofs.Delivery
import RoutineCorpus.Proofs.Discrete
import RoutineCorpus.Proofs.DistinctKeys
import RoutineCorpus.Proofs.EvaluationFailure
import RoutineCorpus.Proofs.Factorial
import RoutineCorpus.Proofs.Fibonacci
import RoutineCorpus.Proofs.History
import RoutineCorpus.Proofs.InputGrammar
import RoutineCorpus.Proofs.Layering
import RoutineCorpus.Proofs.Manifest
import RoutineCorpus.Proofs.OverflowGuard
import RoutineCorpus.Proofs.Overrides
import RoutineCorpus.Proofs.Prelude
import RoutineCorpus.Proofs.ReportLines
import RoutineCorpus.Proofs.Rerun
import RoutineCorpus.Proofs.RunOutcome
import RoutineCorpus.Proofs.Sequence
import RoutineCorpus.Proofs.SequenceArithmetic
import RoutineCorpus.Proofs.SequenceRun
import RoutineCorpus.Proofs.Surroundings
import RoutineCorpus.Proofs.UniqueReading
import RoutineCorpus.Proofs.Verdict
import RoutineCorpus.Proofs.WellFormed
import RoutineCorpus.Proofs.Widening
import RoutineCorpus.Report.Structured
import RoutineCorpus.Report.Text
import RoutineCorpus.Routine.Basic
import RoutineCorpus.Routine.Scalar
import RoutineCorpus.Routine.Sequence
import RoutineCorpus.Session
import RoutineCorpus.Settings.Basic
import RoutineCorpus.Settings.Decode
import RoutineCorpus.Settings.Load
import RoutineCorpus.Toml.Document
import RoutineCorpus.Toml.Scalar
import RoutineCorpus.Toml.Table
import RoutineCorpus.Toml.Text
import RoutineCorpus.Toml.Value
import RoutineCorpus.Value
import RoutineCorpus.Workspace
