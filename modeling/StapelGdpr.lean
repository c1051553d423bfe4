import StapelGdpr.AllOrNothing
import StapelGdpr.BootCheck
import StapelGdpr.BusinessDays
import StapelGdpr.Capture
import StapelGdpr.Certificate
import StapelGdpr.Checks
import StapelGdpr.CloseEndpoints
import StapelGdpr.ClosureToken
import StapelGdpr.Completion
import StapelGdpr.Concurrent
import StapelGdpr.Conf
import StapelGdpr.Confluence
import StapelGdpr.Coverage
import StapelGdpr.Deadlines
import StapelGdpr.Dsar
import StapelGdpr.DsarWiring
import StapelGdpr.Exclusion
import StapelGdpr.Export.Archives
import StapelGdpr.Export.Availability
import StapelGdpr.Export.BucketPaths
import StapelGdpr.Export.Completeness
import StapelGdpr.Export.Cooldown
import StapelGdpr.Export.Download
import StapelGdpr.Export.Forfeit
import StapelGdpr.Export.Keys
import StapelGdpr.Export.Lingering
import StapelGdpr.Export.Machine
import StapelGdpr.Export.Models
import StapelGdpr.Export.Orchestrator
import StapelGdpr.Export.Parts
import StapelGdpr.Export.Protocol
import StapelGdpr.Export.Publication
import StapelGdpr.Export.Slices
import StapelGdpr.Export.Statements
import StapelGdpr.Export.Sweep
import StapelGdpr.Finalization
import StapelGdpr.Gate
import StapelGdpr.Grace
import StapelGdpr.Hold
import StapelGdpr.Idempotency
import StapelGdpr.IdentityRetry
import StapelGdpr.Inactivity
import StapelGdpr.Interference
import StapelGdpr.Invariants
import StapelGdpr.Jobs
import StapelGdpr.KeyReuse
import StapelGdpr.Lib.Counting
import StapelGdpr.Lib.Journal
import StapelGdpr.Lib.Keyed
import StapelGdpr.Lib.Lexical
import StapelGdpr.Lib.Phased
import StapelGdpr.Lib.Pool
import StapelGdpr.Lib.Prog
import StapelGdpr.Lib.Recall
import StapelGdpr.Lib.Rolling
import StapelGdpr.Lib.Table
import StapelGdpr.Lifecycle
import StapelGdpr.LiveClosures
import StapelGdpr.Liveness
import StapelGdpr.LocalReceipts
import StapelGdpr.Machine
import StapelGdpr.Memory
import StapelGdpr.Migration
import StapelGdpr.Models
import StapelGdpr.OneErasure
import StapelGdpr.Orchestrator
import StapelGdpr.Outbox
import StapelGdpr.OwnerClient
import StapelGdpr.Owners
import StapelGdpr.Poison
import StapelGdpr.Promises
import StapelGdpr.Reactivation
import StapelGdpr.Receipts
import StapelGdpr.Redelivery
import StapelGdpr.Refinement
import StapelGdpr.Registry
import StapelGdpr.Remembering
import StapelGdpr.Reregistration
import StapelGdpr.Restore
import StapelGdpr.Retry
import StapelGdpr.Run
import StapelGdpr.ServedRoots
import StapelGdpr.Statements
import StapelGdpr.Store
import StapelGdpr.Subprocessors
import StapelGdpr.SweepRace
import StapelGdpr.Tasks
import StapelGdpr.Throttling
import StapelGdpr.Timeout
import StapelGdpr.TokenScope
import StapelGdpr.Watching
import StapelGdpr.Windows
