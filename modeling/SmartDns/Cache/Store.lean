import SmartDns.Cache.Threads

/-!
# Completed operations on the cache

One caller after the other, each operation from its first section to its last.
The hash table is seen bucket by bucket: an entry stands in the bucket that the
hash of its key named when it was linked, and a search looks into the bucket of
the key it is given.  A lookup hands out a handle, which its caller may keep.
-/

namespace SmartDns.Cache

/-- `dns_cache_head` with the bucket of every entry, and the handles of callers. -/
structure CacheStore where
  head : CacheHead
  bucket : Nat → Nat
  held : List Nat

/-- The operations of the cache.  An insertion is told whether memory can be had, and
turn by turn whether the memory of the cache is above its limit; an expiry is told
what the callback answers. -/
inductive Operation
  | lookup (k : CacheKey)
  | release (e : Nat)
  | update (e : Nat)
  | delete (e : Nat)
  | flush
  | insert (k : CacheKey) (timeout : UInt64) (alloc : Bool) (memFull : List Bool)
  | replace (k : CacheKey) (timeout : UInt64)
  | updateTimer (k : CacheKey) (timeout : UInt64)
  | tick
  | expire (e : Nat) (act : TmoutAction)

namespace CacheHead

/-- `dns_timer_mod` of `dns_cache_expired`, and its release if the timer was not there. -/
def expiredMod (s : CacheHead) (e : Nat) (timeout : UInt64) : CacheHead :=
  let (s, pending) := s.dnsTimerMod e timeout
  if pending then s else s.dnsCacheRelease e

/-- `dns_cache_expired`, after the timer has left the wheel. -/
def dnsCacheExpired (s : CacheHead) (e : Nat) : TmoutAction → CacheHead
  | .ok => s.dnsCacheRelease e
  | .del => (s.dnsCacheRemove e).dnsCacheRelease e
  | .retry => s.expiredMod e failTimeout
  | .update => s.expiredMod e (s.entries e).timeout

end CacheHead

namespace CacheStore

variable (hash : CacheKey → Nat)

section

variable (s : CacheStore)

/-- The entries of a bucket, the last one that was linked first. -/
def bucketList (b : Nat) : List Nat :=
  s.head.cacheHash.filter (fun e => s.bucket e = b)

/-- The search of `_dns_cache_lookup` in the bucket of the key. -/
def find (k : CacheKey) : Option Nat :=
  (s.bucketList (hash k)).find? fun e => (s.head.entries e).key.compared = k.compared

def dnsCacheRemoveByDomain (k : CacheKey) : CacheStore :=
  match s.find hash k with
  | some e => { s with head := s.head.dnsCacheRemove e }
  | none => s

/-- `_dns_cache_insert` of a key that fits into the entry. -/
def dnsCacheInsert (k : CacheKey) (timeout : UInt64) (alloc : Bool)
    (memFull : List Bool) : CacheStore :=
  let s := s.dnsCacheRemoveByDomain hash k
  if alloc then
    { s with
      head := s.head.dnsCacheInsert k timeout memFull
      bucket := Function.update s.bucket s.head.next (hash k) }
  else s

/-- A call that looks an entry up, works on it and releases it. -/
def withFound (k : CacheKey) (work : CacheHead → Nat → CacheHead) : CacheStore :=
  match s.find hash k with
  | some e => { s with head := (work (s.head.dnsCacheGet e) e).dnsCacheRelease e }
  | none => s

/-- An operation.  A caller passes only handles that it holds. -/
def perform : Operation → CacheStore
  | .lookup k =>
    if s.head.size ≤ 0 then s else
    match s.find hash k with
    | some e => { s with head := s.head.dnsCacheGet e, held := e :: s.held }
    | none => s
  | .release e =>
    if e ∈ s.held then { s with head := s.head.dnsCacheRelease e, held := s.held.erase e }
    else s
  | .update e => if e ∈ s.held then { s with head := s.head.dnsCacheUpdate e } else s
  | .delete e => if e ∈ s.held then { s with head := s.head.dnsCacheRemove e } else s
  | .flush => { s with head := s.head.dnsCacheFlush }
  | .insert k timeout alloc memFull =>
    if s.head.size ≤ 0 then s else s.dnsCacheInsert hash k.copied timeout alloc memFull
  | .replace k timeout =>
    if s.head.size ≤ 0 then s
    else s.withFound hash k fun head e => head.dnsCacheReplace e k timeout
  | .updateTimer k timeout => s.withFound hash k fun head e => head.dnsCacheUpdateTimer e timeout
  | .tick => { s with head := { s.head with jiffies := s.head.jiffies + 1 } }
  | .expire e act =>
    if (s.head.entries e).timerPending then
      { s with head := (s.head.detachTimer e).dnsCacheExpired e act }
    else s

end

/-- The size that `dns_cache_init` sets: a memory limit lifts the configured one. -/
def initSize (size memSize : ℤ) : ℤ :=
  if 0 < memSize then 2 ^ 31 - 1 else size

/-- `dns_cache_init`. -/
def init (size memSize : ℤ) (jiffies : UInt64) : CacheStore where
  head := (CacheSystem.init 0 (initSize size memSize) jiffies).head
  bucket := fun _ => 0
  held := []

end CacheStore

end SmartDns.Cache
