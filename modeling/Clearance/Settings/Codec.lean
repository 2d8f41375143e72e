import Clearance.Codec.Policy
import Clearance.Settings

/-!
# Forms of settings

How settings are written as JSON, and what documents are accepted for them. Every section and
every entry may be left out, and none may be there that is not known. The one exception is a
cache section of the type `none`, where other entries are passed over.
-/

namespace Clearance

open Json

def maxNat64 : Nat := Nat.pow 2 64 - 1

def maxNat32 : Nat := Nat.pow 2 32 - 1

namespace Audit

def toJson (a : Audit) : Json :=
  .obj [("log_allowed", .bool a.logAllowed), ("log_denied", .bool a.logDenied)]

def shape : Shape := { names := ["log_allowed", "log_denied"], strict := true }

def decode (conv : Convention) : Decoder Audit := fun levels j => do
  let (levels, fields) ← shape.fields? conv levels j
  match fields with
  | [allowed, denied] =>
    some
      { logAllowed := ← withDefault ({} : Audit).logAllowed decodeBool levels allowed
        logDenied := ← withDefault ({} : Audit).logDenied decodeBool levels denied }
  | _ => none

end Audit

namespace Evaluator

def toJson (e : Evaluator) : Json :=
  .obj [("matcher", .str e.matching.name), ("resolver", .str e.combining.name),
    ("audit", e.audit.toJson)]

def shape : Shape := { names := ["matcher", "resolver", "audit"], strict := true }

def decode (conv : Convention) : Decoder Evaluator := fun levels j => do
  let (levels, fields) ← shape.fields? conv levels j
  match fields with
  | [matching, combining, audit] =>
    some
      { matching := ← withDefault ({} : Evaluator).matching (Matching.decode conv) levels matching
        combining := ←
          withDefault ({} : Evaluator).combining (Combining.decode conv) levels combining
        audit := ← withDefault ({} : Evaluator).audit (Audit.decode conv) levels audit }
  | _ => none

end Evaluator

namespace DelegationSettings

def toJson (d : DelegationSettings) : Json :=
  .obj [("max_chain_depth", .int d.maxChainDepth), ("retention_days", .int d.retentionDays),
    ("cache_ttl_secs", .int d.cacheSeconds)]

def shape : Shape :=
  { names := ["max_chain_depth", "retention_days", "cache_ttl_secs"], strict := true }

def decode (conv : Convention) : Decoder DelegationSettings := fun levels j => do
  let (levels, fields) ← shape.fields? conv levels j
  let usual : DelegationSettings := {}
  match fields with
  | [depth, days, seconds] =>
    some
      { maxChainDepth := ← withDefault usual.maxChainDepth (decodeNat maxNat64) levels depth
        retentionDays := ← withDefault usual.retentionDays (decodeNat maxNat32) levels days
        cacheSeconds := ← withDefault usual.cacheSeconds (decodeNat maxNat64) levels seconds }
  | _ => none

end DelegationSettings

namespace CacheLimits

def shape : Shape := { names := ["max_entries", "eviction_batch_size"], strict := true }

def decode (conv : Convention) : Decoder CacheLimits := fun levels j => do
  let (levels, fields) ← shape.fields? conv levels j
  let usual : CacheLimits := {}
  match fields with
  | [entries, batch] =>
    some
      { maxEntries := ← withDefault usual.maxEntries (decodeNat maxNat64) levels entries
        evictionBatch := ← withDefault usual.evictionBatch (decodeNat maxNat64) levels batch }
  | _ => none

end CacheLimits

namespace CacheSettings

def toJson : CacheSettings → Json
  | none => .obj [("type", .str "none")]
  | memory limits =>
    .obj [("type", .str "memory"), ("max_entries", .int limits.maxEntries),
      ("eviction_batch_size", .int limits.evictionBatch)]

/-- The entry that says what kind of cache there is. -/
def typeEntry : String := "type"

/-- What the entries beside the type give for a type. They are taken as they are, so a list of
them has no item too many whatever the format. -/
def ofType (type : Json) (levels : Nat) (rest : Json) : Option CacheSettings :=
  match type with
  | .str "none" =>
    match rest with
    | .arr (_ :: _) => Option.none
    | _ => some none
  | .str "memory" => (CacheLimits.decode .json levels rest).map memory
  | _ => Option.none

/-- The type comes first in a list, and anywhere in an object. -/
def decode : Decoder CacheSettings
  | levels, .obj members => do
    let type ← (member? typeEntry members).join
    let inner ← enter levels
    let rest := members.filter (·.1 != typeEntry)
    let _ ← rest.mapM fun m => decodeValue inner m.2
    ofType type levels (.obj rest)
  | levels, .arr (type :: rest) => do
    let inner ← enter levels
    let _ ← rest.mapM (decodeValue inner)
    ofType type levels (.arr rest)
  | _, _ => Option.none

end CacheSettings

namespace Retention

def toJson (r : Retention) : Json :=
  .obj [("enabled", .bool r.enabled), ("interval_hours", .int r.intervalHours)]

def shape : Shape := { names := ["enabled", "interval_hours"], strict := true }

def decode (conv : Convention) : Decoder Retention := fun levels j => do
  let (levels, fields) ← shape.fields? conv levels j
  let usual : Retention := {}
  match fields with
  | [enabled, hours] =>
    some
      { enabled := ← withDefault usual.enabled decodeBool levels enabled
        intervalHours := ← withDefault usual.intervalHours (decodeNat maxNat64) levels hours }
  | _ => none

end Retention

namespace Logging

def toJson (l : Logging) : Json :=
  .obj [("level", .str l.level.name), ("format", .str l.format.name),
    ("timestamps", .bool l.timestamps), ("file_line", .bool l.fileLine),
    ("include_spans", .bool l.includeSpans), ("filter", textOrNull l.directives)]

def shape : Shape :=
  { names := ["level", "format", "timestamps", "file_line", "include_spans", "filter"]
    strict := true }

def decode (conv : Convention) : Decoder Logging := fun levels j => do
  let (levels, fields) ← shape.fields? conv levels j
  let usual : Logging := {}
  match fields with
  | [level, format, timestamps, fileLine, includeSpans, directives] =>
    some
      { level := ← withDefault usual.level (decodeVariant conv LogLevel.names) levels level
        format := ← withDefault usual.format (decodeVariant conv LogFormat.names) levels format
        timestamps := ← withDefault usual.timestamps decodeBool levels timestamps
        fileLine := ← withDefault usual.fileLine decodeBool levels fileLine
        includeSpans := ← withDefault usual.includeSpans decodeBool levels includeSpans
        directives := ←
          withDefault usual.directives (decodeOption decodeText) levels directives }
  | _ => none

end Logging

namespace Settings

def toJson (s : Settings) : Json :=
  .obj [("evaluation", s.evaluation.toJson), ("delegation", s.delegation.toJson),
    ("compiler", .obj [("default_namespace", .str s.defaultNamespace)]),
    ("cache", s.cache.toJson), ("retention", s.retention.toJson),
    ("observability", .obj [("logging", s.logging.toJson)])]

/-- A record of a single field, which may be left out. -/
def decodeSingle {α : Type} (conv : Convention) (name : String) (default : α) (d : Decoder α) :
    Decoder α := fun levels j => do
  let (levels, fields) ← Shape.fields? { names := [name], strict := true } conv levels j
  match fields with
  | [field] => withDefault default d levels field
  | _ => none

def shape : Shape :=
  { names := ["evaluation", "delegation", "compiler", "cache", "retention", "observability"]
    strict := true }

def decode (conv : Convention) : Decoder Settings := fun levels j => do
  let (levels, fields) ← shape.fields? conv levels j
  let usual : Settings := {}
  match fields with
  | [evaluation, delegation, compiler, cache, retention, observability] =>
    some
      { evaluation := ← withDefault usual.evaluation (Evaluator.decode conv) levels evaluation
        delegation := ←
          withDefault usual.delegation (DelegationSettings.decode conv) levels delegation
        defaultNamespace := ←
          withDefault usual.defaultNamespace
            (decodeSingle conv "default_namespace" usual.defaultNamespace decodeText) levels compiler
        cache := ← withDefault usual.cache CacheSettings.decode levels cache
        retention := ← withDefault usual.retention (Retention.decode conv) levels retention
        logging := ←
          withDefault usual.logging
            (decodeSingle conv "logging" usual.logging (Logging.decode conv)) levels observability }
  | _ => none

end Settings

end Clearance
