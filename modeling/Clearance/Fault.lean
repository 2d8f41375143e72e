/-!
# What can go wrong in stores and caches
-/

namespace Clearance

/-- Why a store did not do what it was asked. -/
inductive StoreError where
  | notFound
  | conflict (what : String)
  | invalid (what : String)
  | internal (what : String)
  deriving DecidableEq, Repr

def StoreError.message : StoreError → String
  | notFound => "Not found"
  | conflict what => "Conflict: " ++ what
  | invalid what => "Validation error: " ++ what
  | internal what => "Internal error: " ++ what

/-- Why a cache did not do what it was asked. -/
inductive CacheError where
  | serialization (what : String)
  | deserialization (what : String)
  | internal (what : String)
  deriving DecidableEq, Repr

def CacheError.message : CacheError → String
  | serialization what => "Serialization error: " ++ what
  | deserialization what => "Deserialization error: " ++ what
  | internal what => "Internal error: " ++ what

end Clearance
