import Clearance.Register
import Clearance.Stable

/-!
# The cache

Values of any kind, filed under keys for a limited time. A full cache makes room before it takes in
another value: what has expired goes first, and if that is not enough, what has not been used for
longest.

Times are nanoseconds of uptime. The caller says what time it is, and what the last time is that the
clock can show: a value that would have to go later than that is not filed.
-/

namespace Clearance

/-- A cached value, until when it may be read, and when it was last used. -/
structure CacheSlot (α : Type) where
  value : α
  expiresAt : Option Nat
  lastUsed : Nat
  deriving DecidableEq, Repr

variable {α : Type}

def CacheSlot.isExpired (s : CacheSlot α) (now : Nat) : Bool := s.expiresAt.any (· < now)

/-- How large a cache may grow, and how many values make room when it is full. -/
structure CacheLimits where
  maxEntries : Nat := 10000
  evictionBatch : Nat := 100
  deriving DecidableEq, Repr

structure Cache (α : Type) where
  limits : CacheLimits
  slots : Register (CacheSlot α) := .empty
  deriving DecidableEq

namespace Cache

/-- An empty cache. No limit counts as less than one. -/
def ofLimits (l : CacheLimits) : Cache α :=
  { limits := ⟨max l.maxEntries 1, max l.evictionBatch 1⟩ }

def size (c : Cache α) : Nat := c.slots.size

/-- Look up a key. A value that is found counts as used, and one that has expired is removed. -/
def get (c : Cache α) (now : Nat) (key : String) : Option α × Cache α :=
  match c.slots.get? key with
  | none => (none, c)
  | some slot =>
    if slot.isExpired now then (none, { c with slots := c.slots.erase key })
    else (some slot.value, { c with slots := c.slots.insert key { slot with lastUsed := now } })

/-- The keys, those unused for longest first. -/
def byLastUse (slots : Register (CacheSlot α)) : List String :=
  (Stable.sort (fun a b => decide (a.2.lastUsed ≤ b.2.lastUsed)) slots.entries).map (·.1)

/-- Remove the entries that have been unused for longest. -/
def dropUnused (slots : Register (CacheSlot α)) (count : Nat) : Register (CacheSlot α) :=
  let gone := (byLastUse slots).take count
  slots.filter fun key _ => !gone.contains key

/-- Make room in a full cache. -/
def makeRoom (c : Cache α) (now : Nat) : Cache α :=
  if c.size < c.limits.maxEntries then c
  else
    let fresh := c.slots.filter fun _ slot => !slot.isExpired now
    if fresh.size < c.limits.maxEntries then { c with slots := fresh }
    else
      let target := c.limits.maxEntries - c.limits.evictionBatch
      { c with slots := dropUnused fresh (fresh.size - target) }

/-- Until when a value may be read that is filed at a time for a number of nanoseconds; for none it
never expires. -/
def endOf (now lifetime : Nat) : Option Nat := if lifetime = 0 then none else some (now + lifetime)

/-- File a value for a number of nanoseconds or for good, and say whether that came to its end. Room
is made first: where the end of the value is after `last`, which is the last time that the clock can
show, there is room afterwards, but the value is not filed. -/
def set (c : Cache α) (last now : Nat) (key : String) (value : α) (lifetime : Nat) : Bool × Cache α :=
  let room := c.makeRoom now
  let expiresAt := endOf now lifetime
  let fits := expiresAt.all (· ≤ last)
  (fits,
    if fits then { room with slots := room.slots.insert key { value, expiresAt, lastUsed := now } }
    else room)

def delete (c : Cache α) (key : String) : Cache α := { c with slots := c.slots.erase key }

end Cache

end Clearance
