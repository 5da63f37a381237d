import Mathlib.Data.BitVec
import SmartDns.Cache.Capacity
import SmartDns.Cache.File

/-!
# The memory of the cache

`mem_size` counts the bytes of the entries and of their packet data.  It is
charged when a data block or an entry is made and credited when one is freed.

`Metered` says by how much the counter differs from the sizes.  No call changes
that, but the end of a load whose last data block could not be read in full:
the block is credited without having been charged.
-/

namespace SmartDns.Cache

open CacheHead CacheHead Function

/-- `sizeof(struct dns_cache)`. -/
def sizeofDnsCache : Nat := 448

/-- The cache with its packet data and its memory counter, an `int`. -/
structure CacheMemory where
  store : CacheStore
  info : Nat → CacheInfo
  data : Nat → Bytes
  memSize : BitVec 32
  maxMemSize : ℤ

open CacheMemory

/-- What a caller stores: the answer of an upstream server, at some time. -/
structure Answer where
  rcode : BitVec 32
  ttl : BitVec 32
  speed : BitVec 32
  timeout : BitVec 32
  packet : Bytes
  now : BitVec 64

/-- `DNS_CACHE_TTL_MIN`. -/
def Answer.cacheTtl (a : Answer) : BitVec 32 :=
  if a.ttl.slt 1 then 1 else a.ttl

/-- An `int` that is passed as the time of a timer. -/
def timerTime (timeout : BitVec 32) : UInt64 :=
  ⟨timeout.signExtend 64⟩

/-- The calls.  Storing an answer is told whether memory can be had for the block and
for the entry; a load is told what stands in the file, if there is one, how much the
read of its head delivers, and what the turns of the reader meet. -/
inductive MemoryCall
  | lookup (k : CacheKey)
  | release (e : Nat)
  | update (e : Nat)
  | delete (e : Nat)
  | flush
  | insert (k : CacheKey) (a : Answer) (blockAlloc entryAlloc : Bool)
  | replace (k : CacheKey) (a : Answer) (updateTime blockAlloc : Bool)
  | updateTimer (k : CacheKey) (timeout : UInt64)
  | tick
  | expire (e : Nat) (act : TmoutAction)
  | load (file : Option Bytes) (limit : Nat) (turns : Nat → ReadTurn)

namespace CacheMemory

section

variable (m : CacheMemory)

def head : CacheHead :=
  m.store.head

def setHead (head : CacheHead) : CacheMemory :=
  { m with store := { m.store with head := head } }

def setHeld (held : List Nat) : CacheMemory :=
  { m with store := { m.store with held := held } }

/-- `atomic_add` to the counter. -/
def charge (n : Nat) : CacheMemory :=
  { m with memSize := m.memSize + BitVec.ofNat 32 n }

/-- `atomic_sub` from the counter. -/
def credit (n : Nat) : CacheMemory :=
  { m with memSize := m.memSize - BitVec.ofNat 32 n }

def blockSize (size : Nat) : Nat :=
  size + sizeofDataHead

/-- `_dns_cache_delete`, with the last `dns_cache_data_put`. -/
def dnsCacheDelete (e : Nat) : CacheMemory :=
  ((m.setHead (m.head.dnsCacheDelete e)).credit sizeofDnsCache).credit
    (blockSize (m.data e).length)

def dnsCacheRelease (e : Nat) : CacheMemory :=
  if m.head.exhausted e then (m.setHead (m.head.dropRef e)).dnsCacheDelete e
  else m.setHead (m.head.dropRef e)

def dnsCacheRemove (e : Nat) : CacheMemory :=
  if e ∈ m.head.cacheList then
    let m := m.setHead (m.head.unlink e)
    let m :=
      if (m.head.entries e).timerPending then (m.setHead (m.head.detachTimer e)).dnsCacheRelease e
      else m
    m.dnsCacheRelease e
  else m

/-- The memory is above its limit. -/
def full : Prop :=
  0 < m.maxMemSize ∧ m.maxMemSize < m.memSize.toInt

end

instance (m : CacheMemory) : Decidable m.full :=
  inferInstanceAs (Decidable (_ ∧ _))

/-- The eviction loop of `_dns_cache_insert`. -/
def evict : Nat → CacheMemory → CacheMemory
  | 0, m => m
  | turns + 1, m =>
    if m.full ∨ m.head.size < m.head.num then
      match m.head.cacheList with
      | [] => m
      | e :: _ => evict turns (m.dnsCacheRemove e)
    else m

variable (hash : CacheKey → Nat)

section

variable (m : CacheMemory)

def dnsCacheRemoveByDomain (k : CacheKey) : CacheMemory :=
  match m.store.find hash k with
  | some e => m.dnsCacheRemove e
  | none => m

/-- A new entry of `_dns_cache_insert`, with its data and its bucket. -/
def allocate (k : CacheKey) (info : CacheInfo) (data : Bytes) (timer : UInt64) : CacheMemory :=
  { m with
    store :=
      { m.store with
        head := m.head.allocate k timer
        bucket := update m.store.bucket m.head.next (hash k) }
    info := update m.info m.head.next info
    data := update m.data m.head.next data }

/-- `_dns_cache_insert`, of a data block that has been charged. -/
def dnsCacheInsert (k : CacheKey) (info : CacheInfo) (data : Bytes)
    (timer : UInt64) (alloc : Bool) : CacheMemory × Bool :=
  let m := m.dnsCacheRemoveByDomain hash k
  if alloc then
    let e := m.head.next
    let m := evict 33 (m.allocate hash k info data timer)
    let head := ((m.head.link e).dnsCacheGet e).dnsTimerAdd e
    ((m.setHead (head.modify e fun c => { c with timeout := timerTime info.timeout })).charge
      sizeofDnsCache, true)
  else (m, false)

/-- `dns_cache_new_data_packet` and `dns_cache_insert`, as `dns_server/cache.c` calls them:
a block that is not taken over is put back. -/
def insertAnswer (k : CacheKey) (a : Answer) (entryAlloc : Bool) : CacheMemory :=
  let m := m.charge (blockSize a.packet.length)
  if m.head.size ≤ 0 then m.credit (blockSize a.packet.length)
  else
    match m.dnsCacheInsert hash k.copied
        { ttl := a.cacheTtl, rcode := a.rcode, hitnum := 3, speed := a.speed,
          timeout := a.timeout, hitnumUpdateAdd := 3, isVisited := 1,
          insertTime := a.now, replaceTime := a.now }
        a.packet (timerTime a.timeout) entryAlloc with
    | (m, true) => m
    | (m, false) => m.credit (blockSize a.packet.length)

/-- What `_dns_cache_replace` writes to an entry: the old data block is put back. -/
def replaceAt (e : Nat) (k : CacheKey) (a : Answer) (updateTime : Bool) : CacheMemory :=
  { (m.setHead (m.head.dnsCacheReplace e k (timerTime a.timeout))).credit
      (blockSize (m.data e).length) with
    info := update m.info e
      { m.info e with
        ttl := a.cacheTtl
        rcode := a.rcode
        speed := a.speed
        timeout := a.timeout
        isVisited := 1
        insertTime := if updateTime then a.now else (m.info e).insertTime
        replaceTime := a.now }
    data := update m.data e a.packet }

/-- `dns_cache_new_data_packet` and `dns_cache_replace`.  The entry that is found is linked,
as nothing happens between the search and the work. -/
def replaceAnswer (k : CacheKey) (a : Answer) (updateTime : Bool) : CacheMemory :=
  let m := m.charge (blockSize a.packet.length)
  if m.head.size ≤ 0 then m.credit (blockSize a.packet.length)
  else
    match m.store.find hash k with
    | some e => ((m.setHead (m.head.dnsCacheGet e)).replaceAt e k a updateTime).dnsCacheRelease e
    | none => m.credit (blockSize a.packet.length)

/-- `dns_cache_update`: `DNS_CACHE_MAX_HITNUM`, `DNS_CACHE_HITNUM_STEP_MAX`. -/
def hit (info : CacheInfo) : CacheInfo :=
  let hitnum := info.hitnum + info.hitnumUpdateAdd
  { info with
    hitnum := if (6000 : BitVec 32).slt hitnum then 6000 else hitnum
    hitnumUpdateAdd :=
      if info.hitnumUpdateAdd.slt 6 then info.hitnumUpdateAdd + 1 else info.hitnumUpdateAdd
    isVisited := 1 }

/-- `dns_timer_mod` of `dns_cache_expired`, and its release if the timer was not there. -/
def expiredMod (e : Nat) (timeout : UInt64) : CacheMemory :=
  let (head, pending) := m.head.dnsTimerMod e timeout
  if pending then m.setHead head else (m.setHead head).dnsCacheRelease e

/-- `dns_cache_expired`, after the timer has left the wheel. -/
def dnsCacheExpired (e : Nat) : TmoutAction → CacheMemory
  | .ok => m.dnsCacheRelease e
  | .del => (m.dnsCacheRemove e).dnsCacheRelease e
  | .retry => m.expiredMod e failTimeout
  | .update => m.expiredMod e (m.head.entries e).timeout

end

/-- `_dns_cache_read_record`: each record is charged, inserted by `_dns_cache_read_to_cache`
and, if that fails, put back. -/
def readRecords : Nat → Bytes → (Nat → ReadTurn) → CacheMemory → CacheMemory
  | 0, _, _, m => m
  | number + 1, rest, turns, m =>
    match readRecord rest (turns 0) with
    | .invalid => m
    | .cut size => m.credit (blockSize size)
    | .record k info data rest =>
      let m := m.charge (blockSize data.length)
      let info :=
        if (turns 0).now.slt info.replaceTime then { info with replaceTime := (turns 0).now }
        else info
      match m.dnsCacheInsert hash k info data (turns 0).timer (turns 0).entryAlloc with
      | (m, true) => readRecords number rest (fun i => turns (i + 1)) m
      | (m, false) => m.credit (blockSize data.length)

def dnsCacheLoad (m : CacheMemory) (file : Option Bytes) (limit : Nat)
    (turns : Nat → ReadTurn) : CacheMemory :=
  match file with
  | none => m
  | some file =>
    match readFile file limit with
    | some number => readRecords hash number (file.drop sizeofFile) turns m
    | none => m

/-- A call.  A caller passes only handles that it holds. -/
def perform (m : CacheMemory) : MemoryCall → CacheMemory
  | .lookup k =>
    if m.head.size ≤ 0 then m else
    match m.store.find hash k with
    | some e => (m.setHead (m.head.dnsCacheGet e)).setHeld (e :: m.store.held)
    | none => m
  | .release e =>
    if e ∈ m.store.held then (m.dnsCacheRelease e).setHeld (m.store.held.erase e) else m
  | .update e =>
    if e ∈ m.store.held then
      { m.setHead (m.head.dnsCacheUpdate e) with
        info := if e ∈ m.head.cacheList then update m.info e (hit (m.info e))
          else m.info }
    else m
  | .delete e => if e ∈ m.store.held then m.dnsCacheRemove e else m
  | .flush => m.head.cacheList.foldl dnsCacheRemove m
  | .insert k a blockAlloc entryAlloc =>
    if a.packet = [] ∨ blockAlloc = false then m else m.insertAnswer hash k a entryAlloc
  | .replace k a updateTime blockAlloc =>
    if a.packet = [] ∨ blockAlloc = false then m else m.replaceAnswer hash k a updateTime
  | .updateTimer k timeout =>
    match m.store.find hash k with
    | some e => (m.setHead ((m.head.dnsCacheGet e).dnsCacheUpdateTimer e timeout)).dnsCacheRelease e
    | none => m
  | .tick => m.setHead { m.head with jiffies := m.head.jiffies + 1 }
  | .expire e act =>
    if (m.head.entries e).timerPending then (m.setHead (m.head.detachTimer e)).dnsCacheExpired e act
    else m
  | .load file limit turns => m.dnsCacheLoad hash file limit turns

/-- `dns_cache_init`. -/
def init (size maxMemSize : ℤ) (jiffies : UInt64) : CacheMemory where
  store := CacheStore.init size maxMemSize jiffies
  info := fun _ => ⟨0, 0, 0, 0, 0, 0, 0, 0, 0⟩
  data := fun _ => []
  memSize := 0
  maxMemSize := maxMemSize

/-! ## The counter and the sizes -/

/-- The sizes of the allocated entries and of their data blocks. -/
def total (m : CacheMemory) : Nat :=
  ∑ e ∈ m.head.allocated, (sizeofDnsCache + blockSize (m.data e).length)

/-- The counter is the sum of the sizes, and zero when nothing is allocated. -/
def Exact (m : CacheMemory) : Prop :=
  m.memSize = BitVec.ofNat 32 m.total ∧ (m.head.allocated = ∅ → m.memSize = 0)

/-- The size of the data block in whose read the load of records ends. -/
def shortRead : Nat → Bytes → (Nat → ReadTurn) → Option Nat
  | 0, _, _ => none
  | number + 1, rest, turns =>
    match readRecord rest (turns 0) with
    | .invalid => none
    | .cut size => some size
    | .record _ _ _ rest =>
      if (turns 0).entryAlloc then shortRead number rest (fun i => turns (i + 1)) else none

/-- No load ends in a data read that delivers less than its record announces. -/
def ReadsWhole : MemoryCall → Prop
  | .load (some file) limit turns =>
    ∀ number ∈ readFile file limit, shortRead number (file.drop sizeofFile) turns = none
  | _ => True

/-- The bytes that are credited without having been charged. -/
def lost : MemoryCall → Nat
  | .load (some file) limit turns =>
    match readFile file limit with
    | some number => (shortRead number (file.drop sizeofFile) turns).elim 0 blockSize
    | none => 0
  | _ => 0

/-- Callers hold `held`, the index is right, and the counter is off by `drift`. -/
structure Metered (m : CacheMemory) (held : List Nat) (owed : Nat → ℕ) (drift : BitVec 32) :
    Prop where
  held : m.store.held = held
  indexed : m.head.Indexed owed
  memSize : m.memSize = BitVec.ofNat 32 m.total + drift

variable {m : CacheMemory} {held : List Nat} {owed owed' : Nat → ℕ} {drift : BitVec 32} {e : Nat}

theorem Metered.setHead
    (h : Metered m held owed drift) {head : CacheHead} (hindexed : head.Indexed owed')
    (hallocated : head.allocated = m.head.allocated) :
    Metered (m.setHead head) held owed' drift := by
  refine ⟨h.held, hindexed, ?_⟩
  have htotal : (m.setHead head).total = m.total := by
    simp only [total, CacheMemory.head, CacheMemory.setHead] at hallocated ⊢
    rw [hallocated]
  rw [htotal]
  exact h.memSize

theorem Metered.charge (h : Metered m held owed drift) (n : Nat) :
    Metered (m.charge n) held owed (drift + BitVec.ofNat 32 n) := by
  refine ⟨h.held, h.indexed, ?_⟩
  rw [← add_assoc]
  exact congrArg (· + BitVec.ofNat 32 n) h.memSize

theorem Metered.credit (h : Metered m held owed drift) (n : Nat) :
    Metered (m.credit n) held owed (drift - BitVec.ofNat 32 n) := by
  refine ⟨h.held, h.indexed, ?_⟩
  rw [← add_sub_assoc]
  exact congrArg (· - BitVec.ofNat 32 n) h.memSize

theorem Metered.putBack {n : Nat} (h : Metered m held owed (drift + BitVec.ofNat 32 n)) :
    Metered (m.credit n) held owed drift := by
  have hcredit := h.credit n
  rwa [add_sub_cancel_right] at hcredit

theorem total_eq_add (he : e ∈ m.head.allocated) :
    m.total = sizeofDnsCache + blockSize (m.data e).length +
      ∑ x ∈ m.head.allocated.erase e, (sizeofDnsCache + blockSize (m.data x).length) :=
  (Finset.add_sum_erase _ _ he).symm

theorem Metered.dnsCacheRelease (h : Metered m held (oneMore owed e) drift) :
    Metered (m.dnsCacheRelease e) held owed drift := by
  have hindexed := h.indexed.dnsCacheRelease
  have hlive : m.head.live e := (h.indexed.balanced e).live_of_uses (by rw [oneMore_self]; omega)
  have hdropped : (m.head.dropRef e).allocated = m.head.allocated := allocated_modify rfl
  rw [CacheMemory.dnsCacheRelease]
  rw [CacheHead.dnsCacheRelease] at hindexed
  split
  next hzero =>
    rw [if_pos hzero] at hindexed
    refine ⟨h.held, hindexed, ?_⟩
    have hfreed : ((m.head.dropRef e).dnsCacheDelete e).allocated = m.head.allocated.erase e := by
      rw [allocated_dnsCacheDelete, hdropped]
    have hmem := h.memSize
    rw [total_eq_add (mem_allocated.mpr hlive), ← hfreed, BitVec.ofNat_add,
      BitVec.ofNat_add] at hmem
    generalize hsum : (∑ x ∈ ((m.head.dropRef e).dnsCacheDelete e).allocated,
      (sizeofDnsCache + blockSize (m.data x).length)) = sum at hmem
    have hcredited : m.memSize - BitVec.ofNat 32 sizeofDnsCache -
        BitVec.ofNat 32 (blockSize (m.data e).length) = BitVec.ofNat 32 sum + drift := by
      rw [hmem]
      ring
    rw [← hsum] at hcredited
    exact hcredited
  next hzero =>
    rw [if_neg hzero] at hindexed
    exact h.setHead hindexed hdropped

theorem Metered.dnsCacheRemove (h : Metered m held owed drift) (e : Nat) :
    Metered (m.dnsCacheRemove e) held owed drift := by
  rw [CacheMemory.dnsCacheRemove]
  split
  next hmem =>
    have hunlinked := h.setHead (h.indexed.unlink hmem) rfl
    apply Metered.dnsCacheRelease
    split
    next hpending =>
      exact (hunlinked.setHead (hunlinked.indexed.detachTimer hpending)
        (allocated_modify rfl)).dnsCacheRelease
    next => exact hunlinked
  next => exact h

theorem Metered.evict (turns : Nat) (h : Metered m held owed drift) :
    Metered (evict turns m) held owed drift := by
  induction turns generalizing m with
  | zero => exact h
  | succ turns ih =>
  rw [evict]
  split
  · split
    · exact h
    · exact ih (h.dnsCacheRemove _)
  · exact h

theorem head_dnsCacheRelease (m : CacheMemory) (e : Nat) :
    (m.dnsCacheRelease e).head = m.head.dnsCacheRelease e := by
  rw [dnsCacheRelease, CacheHead.dnsCacheRelease]
  split <;> rfl

theorem head_dnsCacheRemove (m : CacheMemory) (e : Nat) :
    (m.dnsCacheRemove e).head = m.head.dnsCacheRemove e := by
  rw [dnsCacheRemove, CacheHead.dnsCacheRemove]
  split
  · rw [head_dnsCacheRelease]
    rw [apply_ite head, head_dnsCacheRelease]
    rfl
  · rfl

/-- The eviction is one of the loops of the cache without its memory. -/
theorem head_evict (turns : Nat) (m : CacheMemory) :
    ∃ memFull, (evict turns m).head = CacheHead.evict turns memFull m.head := by
  induction turns generalizing m with
  | zero => exact ⟨[], rfl⟩
  | succ turns ih =>
  rw [evict]
  split
  next hover =>
    cases hlist : m.head.cacheList with
    | nil =>
      refine ⟨[], ?_⟩
      simp [CacheHead.evict, hlist]
    | cons e rest =>
      obtain ⟨memFull, hrest⟩ := ih (m.dnsCacheRemove e)
      refine ⟨true :: memFull, ?_⟩
      simp [CacheHead.evict, hlist, hrest, head_dnsCacheRemove]
  next hover =>
    refine ⟨[], ?_⟩
    rw [CacheHead.evict, if_neg]
    simpa using fun hsize => hover (Or.inr hsize)

theorem Metered.removeByDomain (h : Metered m held owed drift) (k : CacheKey) :
    Metered (m.dnsCacheRemoveByDomain hash k) held owed drift := by
  rw [dnsCacheRemoveByDomain]
  split
  · exact h.dnsCacheRemove _
  · exact h

theorem Metered.allocate
    {data : Bytes} (h : Metered m held owed (drift + BitVec.ofNat 32 (blockSize data.length)))
    (k : CacheKey) (info : CacheInfo) (timer : UInt64) :
    Metered (m.allocate hash k info data timer) held (oneMore owed m.head.next)
      (drift - BitVec.ofNat 32 sizeofDnsCache) := by
  have hnew : m.head.next ∉ m.head.allocated := by simp [allocated]
  have htotal : (m.allocate hash k info data timer).total =
      sizeofDnsCache + blockSize data.length + m.total := by
    change ∑ x ∈ (m.head.allocate k timer).allocated,
      (sizeofDnsCache + blockSize (update m.data m.head.next data x).length) = _
    rw [allocated_allocate, Finset.sum_insert hnew, update_self, total]
    congr 1
    refine Finset.sum_congr rfl fun x hx => ?_
    have hne : x ≠ m.head.next := fun hxe => hnew (by rwa [hxe] at hx)
    rw [update_of_ne hne]
  refine ⟨h.held, h.indexed.allocate k timer, ?_⟩
  change m.memSize = _
  rw [h.memSize, htotal, BitVec.ofNat_add, BitVec.ofNat_add]
  ring

/-- A block that has been charged is taken over, or stays charged. -/
theorem Metered.dnsCacheInsert
    {data : Bytes} (h : Metered m held owed (drift + BitVec.ofNat 32 (blockSize data.length)))
    {k : CacheKey} {info : CacheInfo} {timer : UInt64} {alloc : Bool} {r : CacheMemory × Bool}
    (heq : m.dnsCacheInsert hash k info data timer alloc = r) :
    Metered r.1 held owed
      (if r.2 then drift else drift + BitVec.ofNat 32 (blockSize data.length)) := by
  subst heq
  have hremoved := h.removeByDomain hash k
  rw [CacheMemory.dnsCacheInsert]
  cases alloc with
  | false => exact hremoved
  | true =>
  dsimp only
  generalize m.dnsCacheRemoveByDomain hash k = m at hremoved ⊢
  have hallocated := hremoved.allocate hash k info timer
  obtain ⟨memFull, hhead⟩ := head_evict 33 (m.allocate hash k info data timer)
  have hevicted := hallocated.evict 33
  have hinserted := hremoved.indexed.dnsCacheInsert k timer memFull
  rw [CacheHead.dnsCacheInsert] at hinserted
  change ((((CacheHead.evict 33 memFull (m.allocate hash k info data timer).head).link
    m.head.next).dnsCacheGet m.head.next).dnsTimerAdd m.head.next).Indexed owed at hinserted
  rw [← hhead] at hinserted
  have hlinked := hevicted.setHead (hinserted.modify (e := m.head.next)
    (f := fun c => { c with timeout := timerTime info.timeout }) rfl rfl rfl) (by
      rw [allocated_modify rfl, CacheHead.dnsTimerAdd, allocated_modify rfl,
        CacheHead.dnsCacheGet, allocated_modify rfl]
      rfl)
  have hcharged := hlinked.charge sizeofDnsCache
  rwa [sub_add_cancel] at hcharged

theorem dnsCacheInsert_snd
    {k : CacheKey} {info : CacheInfo} {data : Bytes} {timer : UInt64} {alloc : Bool}
    {r : CacheMemory × Bool} (heq : m.dnsCacheInsert hash k info data timer alloc = r) :
    alloc = r.2 := by
  subst heq
  cases alloc <;> rfl

theorem Metered.insertAnswer
    (h : Metered m held owed drift) (k : CacheKey) (a : Answer) (entryAlloc : Bool) :
    Metered (m.insertAnswer hash k a entryAlloc) held owed drift := by
  have hcharged := h.charge (blockSize a.packet.length)
  rw [CacheMemory.insertAnswer]
  split
  · exact hcharged.putBack
  · split
    next heq => exact hcharged.dnsCacheInsert hash heq
    next heq => exact (hcharged.dnsCacheInsert hash heq).putBack

theorem allocated_rearm (s : CacheHead) (e : Nat) (timeout : UInt64) :
    (s.rearm e timeout).allocated = s.allocated := by
  rw [rearm]
  dsimp only [dnsTimerMod]
  split
  · exact allocated_modify rfl
  · rw [dnsTimerAdd, allocated_modify rfl, allocated_modify rfl,
      dnsCacheGet, allocated_modify rfl, allocated_modify rfl]

theorem allocated_dnsCacheReplace (s : CacheHead) (e : Nat) (k : CacheKey) (timeout : UInt64) :
    (s.dnsCacheReplace e k timeout).allocated = s.allocated := by
  rw [dnsCacheReplace]
  split
  · have hinfo : (s.replaceInfo e k timeout).allocated = s.allocated := allocated_modify rfl
    rw [allocated_rearm]
    exact hinfo
  · rfl

theorem Metered.get
    (h : Metered m held owed drift) {k : CacheKey} (hfind : m.store.find hash k = some e) :
    Metered (m.setHead (m.head.dnsCacheGet e)) held (oneMore owed e) drift := by
  have hmem : e ∈ m.head.cacheList :=
    ((CacheStore.mem_bucketList h.indexed.perm).mp (List.mem_of_find?_eq_some hfind)).1
  refine h.setHead (h.indexed.dnsCacheGet ?_) (by rw [dnsCacheGet, allocated_modify rfl])
  rw [listRef, if_pos hmem]
  omega

theorem Metered.replaceAt
    {a : Answer} (h : Metered m held owed (drift + BitVec.ofNat 32 (blockSize a.packet.length)))
    (he : e ∈ m.head.allocated) (k : CacheKey) (updateTime : Bool) :
    Metered (m.replaceAt e k a updateTime) held owed drift := by
  refine ⟨h.held, (touches_replace _ (.inr trivial) _).indexed h.indexed, ?_⟩
  have hallocated : (m.replaceAt e k a updateTime).head.allocated = m.head.allocated :=
    allocated_dnsCacheReplace _ e k _
  have hothers : ∑ x ∈ m.head.allocated.erase e,
      (sizeofDnsCache + blockSize (update m.data e a.packet x).length) =
      ∑ x ∈ m.head.allocated.erase e, (sizeofDnsCache + blockSize (m.data x).length) := by
    refine Finset.sum_congr rfl fun x hx => ?_
    rw [update_of_ne (Finset.ne_of_mem_erase hx)]
  have htotal : (m.replaceAt e k a updateTime).total = sizeofDnsCache + blockSize a.packet.length +
      ∑ x ∈ m.head.allocated.erase e, (sizeofDnsCache + blockSize (m.data x).length) := by
    rw [total_eq_add (e := e) (by rwa [hallocated]), hallocated, ← hothers]
    change sizeofDnsCache + blockSize (update m.data e a.packet e).length + _ = _
    rw [update_self]
    rfl
  change m.memSize - BitVec.ofNat 32 (blockSize (m.data e).length) = _
  rw [h.memSize, htotal, total_eq_add he]
  simp only [BitVec.ofNat_add]
  ring

theorem Metered.replaceAnswer
    (h : Metered m held owed drift) (k : CacheKey) (a : Answer) (updateTime : Bool) :
    Metered (m.replaceAnswer hash k a updateTime) held owed drift := by
  have hcharged := h.charge (blockSize a.packet.length)
  rw [CacheMemory.replaceAnswer]
  split
  · exact hcharged.putBack
  · split
    next e hfind =>
      have hget := hcharged.get hash hfind
      have hlive := (hget.indexed.balanced e).live_of_uses (by rw [oneMore_self]; omega)
      exact (hget.replaceAt (mem_allocated.mpr hlive) k updateTime).dnsCacheRelease
    next => exact hcharged.putBack

theorem Metered.dnsCacheExpired
    (h : Metered m held owed drift) (hpending : (m.head.entries e).timerPending = true)
    (act : TmoutAction) :
    Metered ((m.setHead (m.head.detachTimer e)).dnsCacheExpired e act) held owed drift := by
  have hfired := h.setHead (h.indexed.detachTimer hpending) (allocated_modify rfl)
  have hmod : ∀ timeout, Metered ((m.setHead (m.head.detachTimer e)).expiredMod e timeout) held
      owed drift := by
    intro timeout
    have hoff : ((m.setHead (m.head.detachTimer e)).head.dnsTimerMod e timeout).2 = false := by
      simp [dnsTimerMod, detachTimer, CacheMemory.setHead, CacheMemory.head]
    rw [CacheMemory.expiredMod]
    dsimp only
    rw [hoff]
    exact (hfired.setHead ((touch_timerMod _ timeout).indexed hfired.indexed)
      (allocated_modify rfl)).dnsCacheRelease
  cases act with
  | ok => exact hfired.dnsCacheRelease
  | del => exact (hfired.dnsCacheRemove e).dnsCacheRelease
  | retry => exact hmod failTimeout
  | update => exact hmod _

/-- A load: what it loses is what it credits without having charged it. -/
theorem Metered.readRecords
    (number : Nat) (rest : Bytes) (turns : Nat → ReadTurn) (h : Metered m held owed drift) :
    Metered (readRecords hash number rest turns m) held owed
      (drift - BitVec.ofNat 32 ((shortRead number rest turns).elim 0 blockSize)) := by
  induction number generalizing rest turns m with
  | zero => simpa [readRecords, shortRead] using h
  | succ number ih =>
  rw [readRecords, shortRead]
  split
  next => simpa using h
  next size _ => exact h.credit _
  next k info data rest' _ =>
  have hcharged := h.charge (blockSize data.length)
  dsimp only
  split
  next heq =>
    have halloc := dnsCacheInsert_snd hash heq
    rw [if_pos halloc]
    exact ih _ _ (hcharged.dnsCacheInsert hash heq)
  next heq =>
    have halloc := dnsCacheInsert_snd hash heq
    rw [halloc]
    simpa using (hcharged.dnsCacheInsert hash heq).putBack

/-- What the callers hold is what they owe. -/
def Sound (m : CacheMemory) (drift : BitVec 32) : Prop :=
  Metered m m.store.held (fun e => m.store.held.count e) drift

theorem Metered.sound (h : Metered m held (fun e => held.count e) drift) : Sound m drift := by
  rw [Sound, h.held]
  exact h

theorem Metered.dnsCacheLoad (file : Option Bytes) (limit : Nat) (turns : Nat → ReadTurn)
    (h : Metered m held owed drift) :
    Metered (m.dnsCacheLoad hash file limit turns) held owed
      (drift - BitVec.ofNat 32 (lost (.load file limit turns))) := by
  cases file with
  | none => simpa [CacheMemory.dnsCacheLoad, lost] using h
  | some file =>
    rw [lost]
    dsimp only [CacheMemory.dnsCacheLoad]
    split
    · exact Metered.readRecords hash _ _ _ h
    · simpa using h

theorem Metered.dnsCacheFlush (es : List Nat) (h : Metered m held owed drift) :
    Metered (es.foldl CacheMemory.dnsCacheRemove m) held owed drift := by
  induction es generalizing m with
  | nil => exact h
  | cons e es ih => exact ih (h.dnsCacheRemove e)

/-- **What a call does to the counter.** -/
theorem Sound.perform (h : Sound m drift) (call : MemoryCall) :
    Sound (m.perform hash call) (drift - BitVec.ofNat 32 (lost call)) := by
  have hzero : drift - BitVec.ofNat 32 0 = drift := by simp
  cases call with
  | load file limit turns => exact (Metered.dnsCacheLoad hash file limit turns h).sound
  | lookup k =>
    simp only [lost, hzero, CacheMemory.perform]
    split
    · exact h
    · split
      next e hfind =>
        have hget := h.get hash hfind
        rw [← CacheStore.count_cons_eq] at hget
        exact ⟨rfl, hget.indexed, hget.memSize⟩
      next => exact h
  | release e =>
    simp only [lost, hzero, CacheMemory.perform]
    split
    next hmem =>
      rw [Sound, CacheStore.count_erase_eq hmem] at h
      have hreleased := h.dnsCacheRelease
      exact ⟨rfl, hreleased.indexed, hreleased.memSize⟩
    next => exact h
  | update e =>
    simp only [lost, hzero, CacheMemory.perform]
    split
    next =>
      have hmoved := h.setHead (Touches.indexed (touches_update (e := e) _) h.indexed) (by
        rw [dnsCacheUpdate]
        split <;> rfl)
      exact ⟨rfl, hmoved.indexed, hmoved.memSize⟩
    next => exact h
  | delete e =>
    simp only [lost, hzero, CacheMemory.perform]
    split
    next => exact (h.dnsCacheRemove e).sound
    next => exact h
  | flush =>
    simp only [lost, hzero]
    exact (Metered.dnsCacheFlush m.head.cacheList h).sound
  | insert k a blockAlloc entryAlloc =>
    simp only [lost, hzero, CacheMemory.perform]
    split
    · exact h
    · exact (h.insertAnswer hash k a entryAlloc).sound
  | replace k a updateTime blockAlloc =>
    simp only [lost, hzero, CacheMemory.perform]
    split
    · exact h
    · exact (h.replaceAnswer hash k a updateTime).sound
  | updateTimer k timeout =>
    simp only [lost, hzero, CacheMemory.perform]
    split
    next e hfind =>
      have hget := h.get hash hfind
      exact (hget.setHead (Touches.indexed (touches_updateTimer _ timeout) hget.indexed) (by
        rw [dnsCacheUpdateTimer]
        split
        · exact allocated_rearm _ e timeout
        · rfl)).dnsCacheRelease.sound
    next => exact h
  | tick =>
    simp only [lost, hzero]
    exact ⟨rfl, ⟨h.indexed.balanced, h.indexed.perm, h.indexed.nodup, h.indexed.num⟩, h.memSize⟩
  | expire e act =>
    simp only [lost, hzero, CacheMemory.perform]
    split
    next hpending => exact (h.dnsCacheExpired hpending act).sound
    next => exact h

theorem shortRead_le {number size : Nat} {rest : Bytes} {turns : Nat → ReadTurn}
    (h : shortRead number rest turns = some size) : size ≤ 1024 * 8 := by
  induction number generalizing rest turns with
  | zero => cases h
  | succ number ih =>
  rw [shortRead] at h
  split at h
  next => cases h
  next size hcut =>
    cases h
    unfold readRecord at hcut
    split at hcut
    next =>
      dsimp only at hcut
      split at hcut
      next => cases hcut
      next hvalid =>
      split at hcut
      next => cases hcut
      next =>
        cases hcut
        simp only [not_or, not_lt] at hvalid
        exact hvalid.2.2.2.1
    next => cases hcut
  next =>
    split at h
    · exact ih h
    · cases h

theorem lost_eq_zero_iff (call : MemoryCall) :
    BitVec.ofNat 32 (lost call) = 0 ↔ ReadsWhole call := by
  unfold lost ReadsWhole
  split
  next file limit turns =>
    cases readFile file limit with
    | none => simp
    | some number =>
      cases hread : shortRead number (file.drop sizeofFile) turns with
      | none => simp [hread]
      | some size =>
        have hle := shortRead_le hread
        have hhead : sizeofDataHead = 24 := by decide
        simp [hread, ← BitVec.toNat_inj, blockSize, hhead]
        omega
  next => simp

theorem sound_perform_iff (h : Sound m 0) (call : MemoryCall) :
    Sound (m.perform hash call) 0 ↔ ReadsWhole call := by
  have hnext := h.perform hash call
  rw [← lost_eq_zero_iff]
  constructor
  · intro hexact
    have hdrift := add_left_cancel (hnext.memSize.symm.trans hexact.memSize)
    rwa [zero_sub, neg_eq_zero] at hdrift
  · intro hzero
    rwa [hzero, sub_zero] at hnext

theorem Sound.exact_iff (h : Sound m drift) : m.Exact ↔ Sound m 0 := by
  constructor
  · intro hexact
    exact ⟨rfl, h.indexed, by rw [hexact.1, add_zero]⟩
  · intro hsound
    have hmem : m.memSize = BitVec.ofNat 32 m.total := by rw [hsound.memSize, add_zero]
    refine ⟨hmem, fun hnone => ?_⟩
    rw [hmem, total, hnone]
    rfl

/-- **The memory counter is exact in exactly the runs in which no load ends while it fills
a data block.** -/
theorem memory_exact_iff (size maxMemSize : ℤ) (jiffies : UInt64) (calls : List MemoryCall) :
    (∀ seen, seen <+: calls → (run (perform hash) (init size maxMemSize jiffies) seen).Exact) ↔
      Admissible (perform hash) (fun _ => ReadsWhole) (init size maxMemSize jiffies) calls := by
  have hinit : Sound (init size maxMemSize jiffies) 0 :=
    ⟨rfl, CacheStore.indexed_init _ _ jiffies, rfl⟩
  have hsound : ∀ seen, ∃ drift, Sound (run (perform hash) (init size maxMemSize jiffies) seen)
      drift := by
    intro seen
    refine run_invariant _ (fun m => ∃ drift, Sound m drift) ?_ ⟨0, hinit⟩
      (admissible_true _ _ seen)
    rintro m call ⟨drift, h⟩ -
    exact ⟨_, h.perform hash call⟩
  rw [← holds_throughout_iff (perform hash) (P := fun m => Sound m 0)
    (fun m call h (_ : True) => sound_perform_iff hash h call) hinit (fun _ _ => trivial)]
  refine forall₂_congr fun seen _ => ?_
  obtain ⟨drift, h⟩ := hsound seen
  exact h.exact_iff

/-- A file with one record of one byte. -/
def oneRecord : Bytes :=
  leBytes 8 magicNumber ++ ascii "cache ver 1.3" ++ List.replicate 19 0 ++ leBytes 4 1 ++
    List.replicate 4 0 ++ leBytes 4 magicRecord ++ List.replicate 356 0 ++ leBytes 8 1 ++
    leBytes 4 magicCacheData ++ List.replicate 4 0 ++ [7]

/-- The last read of the load fails: 25 bytes are credited that were never charged. -/
theorem failed_read_miscounts :
    ¬ (run (perform fun _ => 0) (init 10 0 0)
      [.load (some oneRecord) 48 (fun _ => ⟨352, 24, 0, true, true, 0, 0⟩)]).Exact := by
  intro hexact
  exact absurd (hexact.2 (by decide +kernel)) (by decide +kernel)

end CacheMemory

end SmartDns.Cache
