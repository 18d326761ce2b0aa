import FilterQuery.Main
import FilterQuery.Proofs.Nesting
import FilterQuery.Proofs.Matching
import FilterQuery.Proofs.Scanning
import FilterQuery.Proofs.OnePass
import FilterQuery.Proofs.Grammar
import FilterQuery.Proofs.Traversal
import FilterQuery.Proofs.Literal
import FilterQuery.Proofs.CanonicalText
import FilterQuery.Proofs.Recompiling
import FilterQuery.Proofs.SchemaLocality
import FilterQuery.Proofs.TextOutcome
import FilterQuery.Proofs.Composition
import FilterQuery.Proofs.DocumentIdentity
import FilterQuery.Proofs.Culprit
import FilterQuery.Proofs.Bounds
import FilterQuery.Proofs.DocumentShape
import FilterQuery.Proofs.RunLaw
import FilterQuery.Proofs.PerfectMatching
import FilterQuery.Proofs.RunningDepth
import FilterQuery.Proofs.CombinatorLimit
import FilterQuery.Proofs.Regrouping
import FilterQuery.Proofs.DurationGrammar
import FilterQuery.Proofs.DurationWords
import FilterQuery.Proofs.Rereading
import FilterQuery.Proofs.AddressPattern
import FilterQuery.Proofs.AddressShape
import FilterQuery.Proofs.ByteScan
import FilterQuery.Proofs.Tiling
import FilterQuery.Proofs.BatchLines
import FilterQuery.Proofs.OutputLines
import FilterQuery.Proofs.SchemaChoice
import FilterQuery.Proofs.RegistryHistory
import FilterQuery.Proofs.Flattening
import FilterQuery.Proofs.Trimming
import FilterQuery.Proofs.ReportedOffset
import FilterQuery.Proofs.FractionTruncation
import FilterQuery.Proofs.ScanTermination
import FilterQuery.Proofs.ReadingLog
import FilterQuery.Proofs.CompleteLog
import FilterQuery.Proofs.SettingsFile
