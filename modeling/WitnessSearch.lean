import WitnessSearch.Archive.Basic
import WitnessSearch.Archive.Record
import WitnessSearch.Chromosome
import WitnessSearch.CommandLine.Basic
import WitnessSearch.CommandLine.FileTree
import WitnessSearch.CommandLine.Path
import WitnessSearch.CommandLine.Session
import WitnessSearch.Config
import WitnessSearch.Diversity
import WitnessSearch.Document.Archive
import WitnessSearch.Document.Config
import WitnessSearch.Document.Execution
import WitnessSearch.Document.InputVector
import WitnessSearch.Document.Search
import WitnessSearch.Duration
import WitnessSearch.Evaluator
import WitnessSearch.Execution
import WitnessSearch.Fault
import WitnessSearch.FileContent
import WitnessSearch.Goal
import WitnessSearch.InputVector.Basic
import WitnessSearch.InputVector.Factory
import WitnessSearch.Json.Decode
import WitnessSearch.Json.Numeral
import WitnessSearch.Json.Reader
import WitnessSearch.Json.Token
import WitnessSearch.Json.Value
import WitnessSearch.Json.Writer
import WitnessSearch.Main
import WitnessSearch.Memo
import WitnessSearch.Number.Binary64
import WitnessSearch.Number.Checked
import WitnessSearch.Number.Decimal
import WitnessSearch.Observation
import WitnessSearch.Proofs.Archive.Entries
import WitnessSearch.Proofs.Archive.Growth
import WitnessSearch.Proofs.Archive.Offers
import WitnessSearch.Proofs.Archive.Signals
import WitnessSearch.Proofs.Archive.Soundness
import WitnessSearch.Proofs.Archive.Suite
import WitnessSearch.Proofs.Archive.Tally
import WitnessSearch.Proofs.Archive.Views
import WitnessSearch.Proofs.Checked
import WitnessSearch.Proofs.Config
import WitnessSearch.Proofs.Diversity
import WitnessSearch.Proofs.Diversity.Order
import WitnessSearch.Proofs.Diversity.Rounds
import WitnessSearch.Proofs.Document.Archive
import WitnessSearch.Proofs.Document.Config
import WitnessSearch.Proofs.Document.Settings
import WitnessSearch.Proofs.Effects
import WitnessSearch.Proofs.Evaluation
import WitnessSearch.Proofs.Evaluation.Accounting
import WitnessSearch.Proofs.Evaluation.Batches
import WitnessSearch.Proofs.Evaluation.Books
import WitnessSearch.Proofs.Evaluation.Faults
import WitnessSearch.Proofs.Evaluation.Histories
import WitnessSearch.Proofs.Evaluation.Judges
import WitnessSearch.Proofs.Evaluation.Records
import WitnessSearch.Proofs.Evaluation.Requests
import WitnessSearch.Proofs.Evaluation.Rounds
import WitnessSearch.Proofs.Evaluation.Transparency
import WitnessSearch.Proofs.Evaluation.Works
import WitnessSearch.Proofs.Faults
import WitnessSearch.Proofs.Fingerprints
import WitnessSearch.Proofs.Float.Arithmetic
import WitnessSearch.Proofs.Float.Identity
import WitnessSearch.Proofs.Float.Integers
import WitnessSearch.Proofs.Float.Rounding
import WitnessSearch.Proofs.Float.Signs
import WitnessSearch.Proofs.Float.Values
import WitnessSearch.Proofs.FloatOrder
import WitnessSearch.Proofs.GoalOrder
import WitnessSearch.Proofs.InputVectors
import WitnessSearch.Proofs.InputVectors.Codes
import WitnessSearch.Proofs.InputVectors.Crossover
import WitnessSearch.Proofs.InputVectors.Mutation
import WitnessSearch.Proofs.Json.Decoding
import WitnessSearch.Proofs.Json.Documents
import WitnessSearch.Proofs.Json.Grammar
import WitnessSearch.Proofs.Json.Lexemes
import WitnessSearch.Proofs.Json.Members
import WitnessSearch.Proofs.Json.Numerals
import WitnessSearch.Proofs.Lists
import WitnessSearch.Proofs.Memo
import WitnessSearch.Proofs.Random.Draws
import WitnessSearch.Proofs.Random.Uniform
import WitnessSearch.Proofs.Ranking.Crowding
import WitnessSearch.Proofs.Ranking.Cycles
import WitnessSearch.Proofs.Ranking.Demotion
import WitnessSearch.Proofs.Ranking.Distances
import WitnessSearch.Proofs.Ranking.Dominance
import WitnessSearch.Proofs.Ranking.Exactness
import WitnessSearch.Proofs.Ranking.Extremes
import WitnessSearch.Proofs.Ranking.Layers
import WitnessSearch.Proofs.Ranking.Peeling
import WitnessSearch.Proofs.Ranking.Preference
import WitnessSearch.Proofs.Ranking.Regrouping
import WitnessSearch.Proofs.Ranking.Selection
import WitnessSearch.Proofs.Ranking.Sorting
import WitnessSearch.Proofs.Search.Accounts
import WitnessSearch.Proofs.Search.Advance
import WitnessSearch.Proofs.Search.Breeding
import WitnessSearch.Proofs.Search.Commands
import WitnessSearch.Proofs.Search.Course
import WitnessSearch.Proofs.Search.Dates
import WitnessSearch.Proofs.Search.Dealings
import WitnessSearch.Proofs.Search.Displacement
import WitnessSearch.Proofs.Search.Endurance
import WitnessSearch.Proofs.Search.Independence
import WitnessSearch.Proofs.Search.Inductions
import WitnessSearch.Proofs.Search.Invariant
import WitnessSearch.Proofs.Search.Offspring
import WitnessSearch.Proofs.Search.Operations
import WitnessSearch.Proofs.Search.Pass
import WitnessSearch.Proofs.Search.Reachable
import WitnessSearch.Proofs.Search.Renewal
import WitnessSearch.Proofs.Search.Safety
import WitnessSearch.Proofs.Search.Selection
import WitnessSearch.Proofs.Search.Stages
import WitnessSearch.Proofs.Search.Steady
import WitnessSearch.Proofs.Search.Stopping
import WitnessSearch.Proofs.Search.Substitution
import WitnessSearch.Proofs.Search.Survivors
import WitnessSearch.Proofs.Search.Tournaments
import WitnessSearch.Proofs.Subject.Domain
import WitnessSearch.Proofs.Subject.Executions
import WitnessSearch.Proofs.Subject.Points
import WitnessSearch.Proofs.Subject.Reports
import WitnessSearch.Proofs.Subject.Suites
import WitnessSearch.Proofs.Subject.Traces
import WitnessSearch.Random.Keystream
import WitnessSearch.Random.Normal
import WitnessSearch.Random.NormalLayers
import WitnessSearch.Random.Replay
import WitnessSearch.Random.Source
import WitnessSearch.Ranking.Basic
import WitnessSearch.Ranking.Crowding
import WitnessSearch.Ranking.Dominance
import WitnessSearch.Ranking.Fronts
import WitnessSearch.Ranking.Sorting
import WitnessSearch.Search.Fresh
import WitnessSearch.Search.Generation
import WitnessSearch.Search.Parents
import WitnessSearch.Search.Run
import WitnessSearch.Search.State
import WitnessSearch.Subject.Basic
import WitnessSearch.Subject.Catalogue
import WitnessSearch.Subject.Executor
import WitnessSearch.Subject.Trace
