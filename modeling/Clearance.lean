import Clearance.Analysis.Changes
import Clearance.Analysis.Conflicts
import Clearance.Binary64
import Clearance.Cache
import Clearance.Codec.Delegation
import Clearance.Codec.Policy
import Clearance.Codec.Request
import Clearance.Combining
import Clearance.Delegation.Backend
import Clearance.Delegation.Basic
import Clearance.Delegation.Chain
import Clearance.Delegation.Memory
import Clearance.Delegation.Refusal
import Clearance.Delegation.Service
import Clearance.Delegation.Store
import Clearance.Delegation.Validation
import Clearance.Evaluator
import Clearance.Fault
import Clearance.Glob
import Clearance.Journal
import Clearance.Json.Basic
import Clearance.Json.Decode
import Clearance.Json.Numeral
import Clearance.Json.Reader
import Clearance.Json.Writer
import Clearance.Matching
import Clearance.Matching.Path
import Clearance.Policy
import Clearance.PolicyStore
import Clearance.Register
import Clearance.Request
import Clearance.Retention
import Clearance.Rule
import Clearance.Scope
import Clearance.Settings
import Clearance.Settings.Codec
import Clearance.Settings.Load
import Clearance.Settings.Placeholder
import Clearance.Sha256
import Clearance.Stable
import Clearance.Table
import Clearance.Table.Digest
import Clearance.Table.ModuleName
import Clearance.Table.Source
import Clearance.Text.Blank
import Clearance.Text.Quoted
import Clearance.Text.Shown
import Clearance.Text.Split
import Clearance.Time.Calendar
import Clearance.Time.Instant
import Clearance.Time.Timestamp
import Clearance.Toml.Reader
import Clearance.Toml.Scalar
import Clearance.Toml.Text
import Clearance.Toml.Tree
import Clearance.Uuid
import Clearance.Proofs.Glob.Language
import Clearance.Proofs.Glob.Scan
import Clearance.Proofs.Evaluator
import Clearance.Proofs.Table
import Clearance.Proofs.Delegation.Attempt
import Clearance.Proofs.Glob.Overlap
import Clearance.Proofs.PolicyStore
import Clearance.Proofs.Delegation.Validation
import Clearance.Proofs.Delegation.Withheld
import Clearance.Proofs.Delegation.Chain
import Clearance.Proofs.Delegation.Store
import Clearance.Proofs.Delegation.Run
import Clearance.Proofs.Delegation.Acyclic
import Clearance.Proofs.Glob.Widened
import Clearance.Proofs.Scope
import Clearance.Proofs.Decision
import Clearance.Proofs.Decision.Grown
import Clearance.Proofs.Stable
import Clearance.Proofs.Cache
import Clearance.Proofs.Delegation.Caching
import Clearance.Proofs.Delegation.Grounded
import Clearance.Proofs.Delegation.Index
import Clearance.Proofs.Delegation.Granting
import Clearance.Proofs.Time.Calendar
import Clearance.Proofs.Time.Timestamp
import Clearance.Proofs.Reading
import Clearance.Proofs.Json.Text
import Clearance.Proofs.Json.Numeral
import Clearance.Proofs.Json.Echo
import Clearance.Proofs.Json.Kept
import Clearance.Proofs.Json.RoundTrip
import Clearance.Proofs.Uuid
import Clearance.Proofs.Codec.Delegation
import Clearance.Proofs.Codec.Form
import Clearance.Proofs.Codec.RoundTrip
import Clearance.Proofs.Delegation.Fate
import Clearance.Proofs.Delegation.Ended
import Clearance.Proofs.Analysis.Unreachable
import Clearance.Proofs.Analysis.Clean
import Clearance.Proofs.PolicyStore.Loading
import Clearance.Proofs.PolicyStore.Trash
import Clearance.Proofs.Delegation.Concrete
import Clearance.Proofs.Source.Token
import Clearance.Proofs.Source.Literal
import Clearance.Proofs.Source.Routine
import Clearance.Proofs.Source.Matcher
import Clearance.Proofs.Source.Spelling
import Clearance.Proofs.Source.Meaning
import Clearance.Proofs.Cache.Room
import Clearance.Proofs.Cache.Run
import Clearance.Proofs.Delegation.Accounts
import Clearance.Proofs.Delegation.Depth
import Clearance.Proofs.Retention
import Clearance.Proofs.Delegation.Distance
import Clearance.Proofs.PolicyStore.Extends
import Clearance.Proofs.Delegation.Cleanup
import Clearance.Proofs.Decision.Inherited
import Clearance.Proofs.Decision.Order
import Clearance.Proofs.Table.Order
import Clearance.Proofs.Json.Distinct
import Clearance.Proofs.Table.Digest
import Clearance.Proofs.Table.ModuleName
import Clearance.Proofs.Analysis.Report
import Clearance.Proofs.Table.Places
import Clearance.Proofs.Analysis.Changes
import Clearance.Proofs.Cache.Eviction
import Clearance.Proofs.Text.Split
import Clearance.Proofs.Settings.Placeholder
import Clearance.Proofs.Settings.Expansion
import Clearance.Proofs.Matching.Path
import Clearance.Proofs.Matching.Context
import Clearance.Proofs.Decision.Consulted
import Clearance.Proofs.Time.Year
import Clearance.Proofs.Time.Span
import Clearance.Proofs.Settings.Limits
import Clearance.Proofs.Source.Safety
