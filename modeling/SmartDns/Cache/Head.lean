import Mathlib.Logic.Relation
import SmartDns.Lib.Bytes
import SmartDns.Lib.RefCount

/-!
# The answer cache

The data of `dns_cache.c` and the sections of code it runs under its lock.  An
entry stands in the hash table and in the list together, is counted, and has a
timer of `lib/timer_wheel.c`.

The packet data, the hit counters and the times of an entry, which no
decision here reads, are left out.  A freed entry keeps its number, so that a
use after the release can be seen.
-/

namespace SmartDns.Cache

/-- `struct dns_cache_key`. -/
structure CacheKey where
  domain : CStr
  qtype : Nat
  dnsGroupName : CStr
  queryFlag : Nat
deriving DecidableEq

namespace CacheKey

/--
What the comparisons of `_dns_cache_lookup` look at: the name without its
letter case up to `DNS_MAX_CNAME_LEN` characters, the group up to
`DNS_GROUP_NAME_LEN` characters, the query type and the query flags.
-/
def compared (k : CacheKey) : Bytes × Nat × Bytes × Nat :=
  ((k.domain.bytes.take 256).map toLower, k.qtype,
    k.dnsGroupName.bytes.take 32, k.queryFlag)

/-- `safe_strncpy` into a buffer of `n` bytes. -/
def clip (n : Nat) (s : CStr) : CStr where
  bytes := s.bytes.take (n - 1)
  noNul := fun b hb => s.noNul b (List.mem_of_mem_take hb)

/-- The key as `dns_cache_insert` copies it to the entry. -/
def copied (k : CacheKey) : CacheKey :=
  { k with domain := clip 256 k.domain, dnsGroupName := clip 32 k.dnsGroupName }

end CacheKey

/-- `struct dns_cache`; `timerPending` says that the timer stands in the wheel. -/
structure CacheEntry where
  key : CacheKey
  timeout : UInt64
  ref : ℤ
  timerPending : Bool
  timerExpires : UInt64
  freed : Bool

/-- `dns_cache_head`, with the clock of the timer wheel. -/
structure CacheHead where
  entries : Nat → CacheEntry
  next : Nat
  cacheList : List Nat
  cacheHash : List Nat
  num : ℤ
  size : ℤ
  jiffies : UInt64

/-- `DNS_CACHE_FAIL_TIMEOUT`. -/
def failTimeout : UInt64 := 300

namespace CacheHead

section

variable (s : CacheHead)

def modify (e : Nat) (f : CacheEntry → CacheEntry) : CacheHead :=
  { s with entries := Function.update s.entries e (f (s.entries e)) }

@[simp] theorem modify_self (e : Nat) (f : CacheEntry → CacheEntry) :
    (s.modify e f).entries e = f (s.entries e) := by
  simp [modify]

@[simp] theorem modify_of_ne {e x : Nat} (f : CacheEntry → CacheEntry) (h : x ≠ e) :
    (s.modify e f).entries x = s.entries x := by
  simp [modify, h]

@[simp] theorem modify_cacheList (e : Nat) (f : CacheEntry → CacheEntry) :
    (s.modify e f).cacheList = s.cacheList := by
  rfl

@[simp] theorem modify_cacheHash (e : Nat) (f : CacheEntry → CacheEntry) :
    (s.modify e f).cacheHash = s.cacheHash := by
  rfl

@[simp] theorem modify_next (e : Nat) (f : CacheEntry → CacheEntry) :
    (s.modify e f).next = s.next := by
  rfl

def live (e : Nat) : Prop :=
  e < s.next ∧ (s.entries e).freed = false

def dnsTimerAdd (e : Nat) : CacheHead :=
  s.modify e fun c =>
    { c with timerPending := true, timerExpires := c.timerExpires + s.jiffies - 1 }

/-- The timer leaves the wheel. -/
def detachTimer (e : Nat) : CacheHead :=
  s.modify e fun c => { c with timerPending := false }

/--
`dns_timer_mod`, which is `tw_mod_timer_pending`: the time of expiry is set in
any case, the timer stays in the wheel only if it was there, and the return
value tells which.
-/
def dnsTimerMod (e : Nat) (timeout : UInt64) : CacheHead × Bool :=
  (s.modify e fun c => { c with timerExpires := timeout + s.jiffies - 1 },
    (s.entries e).timerPending)

def dnsCacheGet (e : Nat) : CacheHead :=
  s.modify e fun c => { c with ref := c.ref + 1 }

/-- The entry leaves the hash table and the list. -/
def unlink (e : Nat) : CacheHead :=
  { s with
    cacheHash := s.cacheHash.filter (fun x => x ≠ e)
    cacheList := s.cacheList.filter (fun x => x ≠ e) }

def dnsCacheDelete (e : Nat) : CacheHead :=
  let s := (s.unlink e).detachTimer e
  { s.modify e (fun c => { c with freed := true }) with num := s.num - 1 }

/-- The decrement of `dns_cache_release`. -/
def dropRef (e : Nat) : CacheHead :=
  s.modify e fun c => { c with ref := c.ref - 1 }

/-- The decrement has reached zero: `_dns_cache_delete` comes next. -/
def exhausted (e : Nat) : Bool :=
  ((s.dropRef e).entries e).ref = 0

/-- `dns_cache_release` by a thread that holds the lock. -/
def dnsCacheRelease (e : Nat) : CacheHead :=
  if s.exhausted e then (s.dropRef e).dnsCacheDelete e else s.dropRef e

def dnsCacheRemove (e : Nat) : CacheHead :=
  if e ∈ s.cacheList then
    let s := s.unlink e
    let s := if (s.entries e).timerPending then (s.detachTimer e).dnsCacheRelease e else s
    s.dnsCacheRelease e
  else s

/-- The search of `_dns_cache_lookup` and of `_dns_cache_remove_by_domain`. -/
def find (k : CacheKey) : Option Nat :=
  s.cacheHash.find? fun e => (s.entries e).key.compared = k.compared

def dnsCacheRemoveByDomain (k : CacheKey) : CacheHead :=
  match s.find k with
  | some e => s.dnsCacheRemove e
  | none => s

end

/--
The eviction loop of `_dns_cache_insert`.  `memFull` tells, turn by turn,
whether the memory of the cache is found above its limit.
-/
def evict : Nat → List Bool → CacheHead → CacheHead
  | 0, _, s => s
  | turns + 1, memFull, s =>
    if memFull.headD false ∨ s.size < s.num then
      match s.cacheList with
      | [] => s
      | e :: _ => evict turns memFull.tail (s.dnsCacheRemove e)
    else s

/-- The new entry of `_dns_cache_insert`, before it is linked. -/
def allocate (s : CacheHead) (k : CacheKey) (timeout : UInt64) : CacheHead :=
  { s with
    entries := Function.update s.entries s.next
      { key := k, timeout := timeout, ref := 1, timerPending := false,
        timerExpires := timeout, freed := false }
    next := s.next + 1
    num := s.num + 1 }

/-- `hash_table_add` and `list_add_tail`. -/
def link (s : CacheHead) (e : Nat) : CacheHead :=
  { s with cacheHash := e :: s.cacheHash, cacheList := s.cacheList ++ [e] }

/--
The second section of `_dns_cache_insert`, after the old entry of the key has
been removed; the loop of evictions makes at most 33 turns.
-/
def dnsCacheInsert (s : CacheHead) (k : CacheKey) (timeout : UInt64)
    (memFull : List Bool) : CacheHead :=
  let e := s.next
  let s := evict 33 memFull (s.allocate k timeout)
  ((s.link e).dnsCacheGet e).dnsTimerAdd e

/-- The common end of `_dns_cache_replace` and `dns_cache_update_timer`. -/
def rearm (s : CacheHead) (e : Nat) (timeout : UInt64) : CacheHead :=
  let (s, pending) := s.dnsTimerMod e timeout
  if pending then s
  else ((s.dnsCacheGet e).modify e fun c => { c with timerExpires := timeout }).dnsTimerAdd e

/-- `list_del` and `list_add_tail` of a linked entry. -/
def moveToTail (s : CacheHead) (e : Nat) : CacheHead :=
  { s with cacheList := s.cacheList.filter (fun x => x ≠ e) ++ [e] }

theorem mem_moveToTail {s : CacheHead} {e : Nat} (hmem : e ∈ s.cacheList) (x : Nat) :
    x ∈ (s.moveToTail e).cacheList ↔ x ∈ s.cacheList := by
  by_cases hx : x = e
  · simp [moveToTail, hx, hmem]
  · simp [moveToTail, hx]

/-- What `_dns_cache_replace` writes to `info`. -/
def replaceInfo (s : CacheHead) (e : Nat) (k : CacheKey) (timeout : UInt64) : CacheHead :=
  s.modify e fun c =>
    { c with
      key := { c.key with qtype := k.qtype, queryFlag := k.queryFlag }
      timeout := timeout }

/-- The locked section of `_dns_cache_replace`. -/
def dnsCacheReplace (s : CacheHead) (e : Nat) (k : CacheKey) (timeout : UInt64) : CacheHead :=
  if e ∈ s.cacheList then ((s.replaceInfo e k timeout).moveToTail e).rearm e timeout
  else s

/-- The locked section of `dns_cache_update_timer`. -/
def dnsCacheUpdateTimer (s : CacheHead) (e : Nat) (timeout : UInt64) : CacheHead :=
  if e ∈ s.cacheList then s.rearm e timeout else s

def dnsCacheUpdate (s : CacheHead) (e : Nat) : CacheHead :=
  if e ∈ s.cacheList then s.moveToTail e else s

def dnsCacheFlush (s : CacheHead) : CacheHead :=
  s.cacheList.foldl dnsCacheRemove s

/--
One change of the cache, with the references that others are owed before and
after it.  It starts a timer only where `arms`, reorders the list only where
`moves`, and writes a key only where `writes`.
-/
inductive Touch (arms moves writes : Prop) :
    CacheHead × (Nat → ℕ) → CacheHead × (Nat → ℕ) → Prop
  | edit {s owed e} {f : CacheEntry → CacheEntry} (href : (f (s.entries e)).ref = (s.entries e).ref)
      (htimer : (f (s.entries e)).timerPending = (s.entries e).timerPending)
      (hfreed : (f (s.entries e)).freed = (s.entries e).freed)
      (hkey : (f (s.entries e)).key = (s.entries e).key ∨ writes) :
      Touch arms moves writes (s, owed) (s.modify e f, owed)
  | get {s owed e} (hmem : e ∈ s.cacheList) :
      Touch arms moves writes (s, owed) (s.dnsCacheGet e, oneMore owed e)
  | add {s owed e} (harms : arms) (hmem : e ∈ s.cacheList)
      (hoff : (s.entries e).timerPending = false) :
      Touch arms moves writes (s, oneMore owed e) (s.dnsTimerAdd e, owed)
  | move {s owed e} (hmoves : moves) (hmem : e ∈ s.cacheList) :
      Touch arms moves writes (s, owed) (s.moveToTail e, owed)
  | remove {s owed} (e) : Touch arms moves writes (s, owed) (s.dnsCacheRemove e, owed)
  | release {s owed e} :
      Touch arms moves writes (s, oneMore owed e) (s.dnsCacheRelease e, owed)

/-- What a section does, change by change. -/
def Touches (arms moves writes : Prop) : CacheHead × (Nat → ℕ) → CacheHead × (Nat → ℕ) → Prop :=
  Relation.ReflTransGen (Touch arms moves writes)

section Touches

variable {arms moves writes : Prop} {s : CacheHead} (owed : Nat → ℕ) {e : Nat}

theorem Touches.any {x y : CacheHead × (Nat → ℕ)} (ht : Touches arms moves writes x y) :
    Touches True True True x y := by
  refine Relation.ReflTransGen.mono (fun x y hstep => ?_) x y ht
  cases hstep with
  | edit href htimer hfreed _ => exact .edit href htimer hfreed (.inr trivial)
  | get hmem => exact .get hmem
  | add _ hmem hoff => exact .add trivial hmem hoff
  | move _ hmem => exact .move trivial hmem
  | remove e => exact .remove e
  | release => exact .release

theorem touches_removeByDomain (k : CacheKey) :
    Touches arms moves writes (s, owed) (s.dnsCacheRemoveByDomain k, owed) := by
  rw [dnsCacheRemoveByDomain]
  split
  · exact .single (.remove _)
  · exact .refl

theorem touches_evict (turns : Nat) (memFull : List Bool) :
    Touches arms moves writes (s, owed) (evict turns memFull s, owed) := by
  induction turns generalizing memFull s with
  | zero => exact .refl
  | succ turns ih =>
  rw [evict]
  split
  · split
    · exact .refl
    · exact .head (.remove _) (ih _)
  · exact .refl

theorem touches_flush : Touches arms moves writes (s, owed) (s.dnsCacheFlush, owed) := by
  rw [dnsCacheFlush]
  generalize s.cacheList = es
  induction es generalizing s with
  | nil => exact .refl
  | cons e es ih => exact .head (.remove e) ih

theorem touch_timerMod (timeout : UInt64) :
    Touch arms moves writes (s, owed) ((s.dnsTimerMod e timeout).1, owed) := by
  dsimp only [dnsTimerMod]
  exact .edit rfl rfl rfl (.inl rfl)

/-- A timer that is started takes a reference. -/
theorem touches_rearm (hmem : e ∈ s.cacheList) (timeout : UInt64) :
    Touches True moves writes (s, owed) (s.rearm e timeout, owed) := by
  rw [rearm]
  dsimp only
  split
  next => exact .single (touch_timerMod owed timeout)
  next hoff =>
    refine .head (touch_timerMod owed timeout) (.head (.get hmem) (.head (.edit rfl rfl rfl (.inl rfl))
      (.single (.add trivial hmem ?_))))
    simpa [dnsTimerMod, dnsCacheGet] using hoff

/-- A replacement writes the query type and the flags, which an entry of the key has. -/
theorem touches_replace {k : CacheKey} (hkey : (s.entries e).key.compared = k.compared ∨ writes)
    (timeout : UInt64) :
    Touches True True writes (s, owed) (s.dnsCacheReplace e k timeout, owed) := by
  rw [dnsCacheReplace]
  split
  next hmem =>
    have hinfo : Touch True True writes (s, owed) (s.replaceInfo e k timeout, owed) := by
      refine .edit rfl rfl rfl (hkey.imp_left fun hkey => ?_)
      simp only [CacheKey.compared, Prod.mk.injEq] at hkey
      obtain ⟨-, hqtype, -, hflag⟩ := hkey
      rw [← hqtype, ← hflag]
    exact .head hinfo (.head (.move trivial hmem) (touches_rearm owed (by simp [moveToTail]) timeout))
  next => exact .refl

theorem touches_updateTimer (timeout : UInt64) :
    Touches True moves writes (s, owed) (s.dnsCacheUpdateTimer e timeout, owed) := by
  rw [dnsCacheUpdateTimer]
  split
  next hmem => exact touches_rearm owed hmem timeout
  next => exact .refl

theorem touches_update : Touches arms True writes (s, owed) (s.dnsCacheUpdate e, owed) := by
  rw [dnsCacheUpdate]
  split
  next hmem => exact .single (.move trivial hmem)
  next => exact .refl

end Touches

end CacheHead

end SmartDns.Cache
