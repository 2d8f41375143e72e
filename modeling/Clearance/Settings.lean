import Clearance.Cache
import Clearance.Evaluator
import Clearance.Retention

/-!
# Settings

What can be set from outside: how requests are decided, how far delegation goes, what is cached,
and what is logged. Everything has a default. `Settings.check` says which settings make no sense
together; where several do not, the first in a fixed order is named.
-/

namespace Clearance

/-- How far delegation goes and how long it is remembered. -/
structure DelegationSettings where
  maxChainDepth : Nat := 16
  retentionDays : Nat := 30
  cacheSeconds : Nat := 300
  deriving DecidableEq, Repr

/-- What stands between look-ups and the store. -/
inductive CacheSettings where
  | none
  | memory (limits : CacheLimits)
  deriving DecidableEq, Repr

namespace CacheSettings

def kind : CacheSettings → String
  | none => "none"
  | memory _ => "memory"

def isNone (c : CacheSettings) : Bool := c == none

end CacheSettings

inductive LogLevel where
  | trace
  | debug
  | info
  | warn
  | error
  deriving DecidableEq, Repr

namespace LogLevel

def name : LogLevel → String
  | trace => "trace"
  | debug => "debug"
  | info => "info"
  | warn => "warn"
  | error => "error"

/-- The levels by name. -/
def names : List (String × LogLevel) :=
  [("trace", trace), ("debug", debug), ("info", info), ("warn", warn), ("error", error)]

/-- The name as it stands in a log. -/
def label (l : LogLevel) : String := l.name.map Char.toUpper

end LogLevel

inductive LogFormat where
  | pretty
  | compact
  | json
  deriving DecidableEq, Repr

namespace LogFormat

def name : LogFormat → String
  | pretty => "pretty"
  | compact => "compact"
  | json => "json"

/-- The formats by name. -/
def names : List (String × LogFormat) := [("pretty", pretty), ("compact", compact), ("json", json)]

end LogFormat

structure Logging where
  level : LogLevel := .info
  format : LogFormat := .compact
  timestamps : Bool := true
  fileLine : Bool := false
  includeSpans : Bool := true
  /-- Directives that say what is logged at which level. -/
  directives : Option String := none
  deriving DecidableEq, Repr

structure Settings where
  evaluation : Evaluator := {}
  delegation : DelegationSettings := {}
  /-- The module name for tables that are printed without one. -/
  defaultNamespace : String := "compiled_policies"
  cache : CacheSettings := .none
  retention : Retention := {}
  logging : Logging := {}
  deriving DecidableEq

/-- Why a text cannot be used as settings. -/
inductive SettingsError where
  /-- A placeholder names a variable that is not defined. -/
  | undefinedVariable (name : String)
  /-- The text is no document of settings. -/
  | unreadable
  | noChainDepth
  | badNamespace (name : String)
  | noCacheEntries
  | batchTooLarge (batch entries : Nat)
  | noInterval
  deriving DecidableEq, Repr

namespace SettingsError

/-- What is wrong with settings that can be read. -/
def complaint : SettingsError → String
  | noChainDepth => "delegation.max_chain_depth must be greater than 0"
  | badNamespace name => "compiler.default_namespace '" ++ name ++ "' is not a valid module name"
  | noCacheEntries => "Memory cache max_entries must be greater than 0"
  | batchTooLarge batch entries =>
    "Memory cache eviction_batch_size (" ++ toString batch ++ ") cannot exceed max_entries (" ++
      toString entries ++ ")"
  | noInterval => "retention.interval_hours must be greater than 0"
  | undefinedVariable _ | unreadable => ""

def message : SettingsError → String
  | undefinedVariable name => "Environment variable not found: " ++ name
  | unreadable => "Failed to parse config"
  | e => "Configuration validation error: " ++ e.complaint

end SettingsError

namespace Settings

/-- Whether a name begins with a letter or an underscore and has only those and digits. -/
def isNamespaceOk (name : String) : Bool :=
  (name.toList.head?.any fun c => c.isAlpha || c == '_') &&
    name.toList.all fun c => c.isAlphanum || c == '_'

def checkCache : CacheSettings → Except SettingsError Unit
  | .none => .ok ()
  | .memory limits =>
    if limits.maxEntries = 0 then .error .noCacheEntries
    else if limits.evictionBatch > limits.maxEntries then
      .error (.batchTooLarge limits.evictionBatch limits.maxEntries)
    else .ok ()

/-- Whether the settings make sense together. -/
def check (s : Settings) : Except SettingsError Unit := do
  if s.delegation.maxChainDepth = 0 then throw .noChainDepth
  if !isNamespaceOk s.defaultNamespace then throw (.badNamespace s.defaultNamespace)
  checkCache s.cache
  if s.retention.enabled ∧ s.retention.intervalHours = 0 then throw .noInterval

/-- What there is to say about settings that make sense. -/
def record (s : Settings) : Journal :=
  if s.retention.enabled ∧ s.delegation.retentionDays = 0 then [.event .immediateRetention] else []

end Settings

end Clearance
