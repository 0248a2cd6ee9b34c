import Interpolation.Circuit.Basic
import Interpolation.Circuit.Edge
import Interpolation.Circuit.Extract
import Interpolation.Circuit.Table
import Interpolation.Clause
import Interpolation.Conclusion
import Interpolation.Cone
import Interpolation.Config
import Interpolation.Encoding
import Interpolation.Error
import Interpolation.Event
import Interpolation.Interpolant
import Interpolation.Journal
import Interpolation.Labelling
import Interpolation.Literal
import Interpolation.Mode
import Interpolation.NatMap
import Interpolation.Observer.Basic
import Interpolation.Observer.Channel
import Interpolation.Observer.Nested
import Interpolation.Observer.Recorder
import Interpolation.Observer.Relay
import Interpolation.Observer.Roster
import Interpolation.Phase
import Interpolation.Proof.Basic
import Interpolation.Proof.Record
import Interpolation.Proof.Update
import Interpolation.Replay
import Interpolation.Resolution
import Interpolation.Session
import Interpolation.Setting
import Interpolation.Text.Printable
import Interpolation.Text.Quoted
import Interpolation.Topic
import Interpolation.Proofs.CircuitCones
import Interpolation.Proofs.Extraction
import Interpolation.Proofs.CircuitReading
import Interpolation.Proofs.CircuitSteps
import Interpolation.Proofs.CircuitCalls
import Interpolation.Proofs.CircuitIndex
import Interpolation.Proofs.ConeCopies
import Interpolation.Proofs.Naming
import Interpolation.Proofs.EncodingExactness
import Interpolation.Proofs.Operations
import Interpolation.Proofs.ReachableProofs
import Interpolation.Proofs.Replays
import Interpolation.Proofs.ReplaySizes
import Interpolation.Proofs.InterpolantSoundness
import Interpolation.Proofs.ReplayFaults
import Interpolation.Proofs.PropagationChains
import Interpolation.Proofs.RecordMaps
import Interpolation.Proofs.Ancestry
import Interpolation.Proofs.JournalSteps
import Interpolation.Proofs.InterpolantVocabulary
import Interpolation.Proofs.EncodingOutcomes
import Interpolation.Proofs.RelayAnswers
import Interpolation.Proofs.ForwardedLogs
import Interpolation.Proofs.SessionRuns
import Interpolation.Proofs.ConsumerIndependence
import Interpolation.Proofs.SolveReports
import Interpolation.Proofs.RefusedEvents
import Interpolation.Proofs.RecordRenaming
import Interpolation.Proofs.FinalRefutations
import Interpolation.Proofs.Deletions
import Interpolation.Proofs.LiteralOrder
import Interpolation.Proofs.PendingLabels
import Interpolation.Proofs.ClauseLabels
import Interpolation.Proofs.SessionConclusions
import Interpolation.Proofs.AssumptionClauses
import Interpolation.Proofs.FanOut
import Interpolation.Proofs.Restorations
import Interpolation.Proofs.RelaxedSettings
import Interpolation.Proofs.NestedAnswers
import Interpolation.Proofs.WordArithmetic
import Interpolation.Proofs.DimacsReading
import Interpolation.Proofs.ScribeAccounts
import Interpolation.Proofs.PrefixReplays
import Interpolation.Proofs.ConeSearches
import Interpolation.Proofs.NodeLimit
