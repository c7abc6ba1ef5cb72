import CommitReveal.Agent.Commit
import CommitReveal.Agent.Dispatch
import CommitReveal.Agent.Error
import CommitReveal.Agent.Interface
import CommitReveal.Agent.Launch
import CommitReveal.Agent.Lifecycle
import CommitReveal.Agent.Memory
import CommitReveal.Agent.Reconcile
import CommitReveal.Agent.Reveal
import CommitReveal.Agent.Routine
import CommitReveal.Agent.Scan
import CommitReveal.Agent.Sending
import CommitReveal.Agent.Settings
import CommitReveal.Amount
import CommitReveal.Api.Form
import CommitReveal.Api.Router
import CommitReveal.Api.SeedLookup
import CommitReveal.Backoff
import CommitReveal.Bytes
import CommitReveal.Bytes.Order
import CommitReveal.Chain.Address
import CommitReveal.Chain.Call
import CommitReveal.Chain.Error
import CommitReveal.CommandLine.Arguments
import CommitReveal.CommandLine.Help
import CommitReveal.Commitment.Record
import CommitReveal.Commitment.Status
import CommitReveal.Config.Basic
import CommitReveal.Config.Fault
import CommitReveal.Config.Field
import CommitReveal.Config.Load
import CommitReveal.Config.Reader
import CommitReveal.Contract.Answer
import CommitReveal.Contract.Function
import CommitReveal.Crypto.KeyText
import CommitReveal.Crypto.Rlp
import CommitReveal.Crypto.Secp256k1
import CommitReveal.Crypto.Sha256
import CommitReveal.Decimal.Double
import CommitReveal.Decimal.Shortest
import CommitReveal.Duration
import CommitReveal.Fault
import CommitReveal.Files.Fault
import CommitReveal.Files.Tree
import CommitReveal.FixedBytes
import CommitReveal.Hex
import CommitReveal.Json.Fault
import CommitReveal.Json.Lexeme
import CommitReveal.Json.Number
import CommitReveal.Json.Reader
import CommitReveal.Json.Skip
import CommitReveal.Json.Value
import CommitReveal.Json.Writer
import CommitReveal.Keccak
import CommitReveal.Machine.Exchange
import CommitReveal.Machine.Home
import CommitReveal.Main
import CommitReveal.Net.Http
import CommitReveal.Net.SocketAddress
import CommitReveal.Net.Url
import CommitReveal.Node.Client
import CommitReveal.Node.HexText
import CommitReveal.Node.Reading
import CommitReveal.Node.Record
import CommitReveal.Node.Reply
import CommitReveal.Node.Request
import CommitReveal.Node.Transaction
import CommitReveal.Nonce
import CommitReveal.Notice
import CommitReveal.Oracle.Event
import CommitReveal.Program
import CommitReveal.Proofs.Announcement
import CommitReveal.Proofs.Asking
import CommitReveal.Proofs.AwaitingReceipt
import CommitReveal.Proofs.Backlog
import CommitReveal.Proofs.Calls
import CommitReveal.Proofs.Cards
import CommitReveal.Proofs.CatchingUp
import CommitReveal.Proofs.ChainOrder
import CommitReveal.Proofs.Clause
import CommitReveal.Proofs.CommitSeeds
import CommitReveal.Proofs.Completion
import CommitReveal.Proofs.Conditions
import CommitReveal.Proofs.Conduct
import CommitReveal.Proofs.Contract
import CommitReveal.Proofs.Course
import CommitReveal.Proofs.Coverage
import CommitReveal.Proofs.Desk
import CommitReveal.Proofs.Draining
import CommitReveal.Proofs.Fallible
import CommitReveal.Proofs.Fetching
import CommitReveal.Proofs.Finished
import CommitReveal.Proofs.Habits
import CommitReveal.Proofs.HalfFinished
import CommitReveal.Proofs.HandlerCalls
import CommitReveal.Proofs.Handling
import CommitReveal.Proofs.Hearing
import CommitReveal.Proofs.HexText
import CommitReveal.Proofs.History
import CommitReveal.Proofs.Holdings
import CommitReveal.Proofs.Interleaving
import CommitReveal.Proofs.Issuing
import CommitReveal.Proofs.KeyText
import CommitReveal.Proofs.LeastBound
import CommitReveal.Proofs.Ledger
import CommitReveal.Proofs.Legible
import CommitReveal.Proofs.Liabilities
import CommitReveal.Proofs.LogLayout
import CommitReveal.Proofs.Lookup
import CommitReveal.Proofs.Marking
import CommitReveal.Proofs.MatchingSeeds
import CommitReveal.Proofs.Minding
import CommitReveal.Proofs.MinedReveals
import CommitReveal.Proofs.NonceRun
import CommitReveal.Proofs.Obligation
import CommitReveal.Proofs.Observation
import CommitReveal.Proofs.Outbox
import CommitReveal.Proofs.Passage
import CommitReveal.Proofs.PendingReveals
import CommitReveal.Proofs.PendingSet
import CommitReveal.Proofs.Play
import CommitReveal.Proofs.Polls
import CommitReveal.Proofs.ProgressLines
import CommitReveal.Proofs.ProgressRun
import CommitReveal.Proofs.Prompt
import CommitReveal.Proofs.Races
import CommitReveal.Proofs.ReconcilePass
import CommitReveal.Proofs.Reconciliation
import CommitReveal.Proofs.RecordLayout
import CommitReveal.Proofs.Register
import CommitReveal.Proofs.Replay
import CommitReveal.Proofs.RepositoryRules
import CommitReveal.Proofs.RevealRules
import CommitReveal.Proofs.RevealedOnce
import CommitReveal.Proofs.Revising
import CommitReveal.Proofs.ScanModes
import CommitReveal.Proofs.ScanOrder
import CommitReveal.Proofs.ScanRun
import CommitReveal.Proofs.ScanSessions
import CommitReveal.Proofs.ScanStep
import CommitReveal.Proofs.SeedAnswers
import CommitReveal.Proofs.SeedDurability
import CommitReveal.Proofs.SeedExposure
import CommitReveal.Proofs.SeedOrigins
import CommitReveal.Proofs.Solo
import CommitReveal.Proofs.StatusOrder
import CommitReveal.Proofs.StatusRun
import CommitReveal.Proofs.Strangers
import CommitReveal.Proofs.TaskRules
import CommitReveal.Proofs.Tending
import CommitReveal.Proofs.Tidiness
import CommitReveal.Proofs.ToReveal
import CommitReveal.Proofs.Transcript
import CommitReveal.Proofs.Turns
import CommitReveal.Proofs.Validation
import CommitReveal.Proofs.WholeStep
import CommitReveal.Proofs.Windows
import CommitReveal.ReceiptWait
import CommitReveal.Repository.Action
import CommitReveal.Repository.Key
import CommitReveal.Repository.Run
import CommitReveal.RevealQueue
import CommitReveal.Scan.EventSync
import CommitReveal.Scan.Progress
import CommitReveal.Scan.Stats
import CommitReveal.Scan.Window
import CommitReveal.Session
import CommitReveal.Simulation.ChainSource
import CommitReveal.Simulation.FallibleStore
import CommitReveal.Simulation.Probe
import CommitReveal.Simulation.Scenario
import CommitReveal.Simulation.Schedule
import CommitReveal.Simulation.ScriptedChain
import CommitReveal.Simulation.Session
import CommitReveal.Simulation.World
import CommitReveal.Store.Backend
import CommitReveal.Store.Call
import CommitReveal.Store.Error
import CommitReveal.Store.Journal
import CommitReveal.Store.OrderedMap
import CommitReveal.Store.Table
import CommitReveal.Text.Blank
import CommitReveal.Text.Percent
import CommitReveal.Text.Quoted
import CommitReveal.Text.Shown
import CommitReveal.Text.Utf8
import CommitReveal.Ticker
import CommitReveal.Word
