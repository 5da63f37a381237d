import SmartDns.Cache.Balance
import SmartDns.Cache.Linked
import SmartDns.Lib.Runs

/-!
# Threads that share the cache

Any number of threads call the cache, and the thread of the timer wheel runs
the expiry callbacks one after the other.  A call is cut where it gives up the
lock.  The decrement of a release, which is atomic and not under the lock, is a
section of its own, and so is the deletion after it.
-/

namespace SmartDns.Cache

/-- `dns_cache_tmout_action_t`. -/
inductive TmoutAction
  | ok
  | del
  | retry
  | update
deriving DecidableEq

inductive Op
  /-- outside of any call -/
  | idle
  /-- `_dns_cache_insert`, after `_dns_cache_remove_by_domain` -/
  | inserting (k : CacheKey) (timeout : UInt64)
  /-- `_dns_cache_replace`, after `_dns_cache_lookup` -/
  | replacing (k : CacheKey) (timeout : UInt64) (e : Nat)
  /-- `dns_cache_update_timer`, after `_dns_cache_lookup` -/
  | updatingTimer (timeout : UInt64) (e : Nat)
  /-- before the `dns_cache_release` at the end of a call -/
  | releasing (e : Nat)
  /-- `dns_cache_release`, between the decrement and `_dns_cache_delete` -/
  | deleting (e : Nat)
deriving DecidableEq

/-- A thread: its call, and the handles its callers hold. -/
structure Thread where
  held : List Nat
  op : Op

/-- Where the timer thread stands. -/
inductive TimerOp
  | idle
  /-- `dns_cache_expired`: the callback of the entry runs -/
  | expired (e : Nat)
  /-- `dns_cache_expired`, before its `dns_cache_release` -/
  | releasing (e : Nat)
  /-- `dns_cache_release`, between the decrement and `_dns_cache_delete` -/
  | deleting (e : Nat)
deriving DecidableEq

/-- The calls of the cache. -/
inductive Call
  | lookup (k : CacheKey)
  | release (e : Nat)
  | update (e : Nat)
  | delete (e : Nat)
  | flush
  | insert (k : CacheKey) (timeout : UInt64)
  | replace (k : CacheKey) (timeout : UInt64)
  | updateTimer (k : CacheKey) (timeout : UInt64)

/-- `dns_cache_release` outside of the lock: where the thread stands next. -/
def Op.afterRelease (s : CacheHead) (e : Nat) : Op :=
  if s.exhausted e then .deleting e else .idle

/-- The first section of a call.  A caller passes only handles that it holds. -/
def Call.start (s : CacheHead) (th : Thread) : Call → CacheHead × Thread
  | lookup k =>
    if s.size ≤ 0 then (s, th) else
    match s.find k with
    | none => (s, th)
    | some e => (s.dnsCacheGet e, { th with held := e :: th.held })
  | release e =>
    if e ∈ th.held then (s.dropRef e, { held := th.held.erase e, op := .afterRelease s e })
    else (s, th)
  | update e => if e ∈ th.held then (s.dnsCacheUpdate e, th) else (s, th)
  | delete e => if e ∈ th.held then (s.dnsCacheRemove e, th) else (s, th)
  | flush => (s.dnsCacheFlush, th)
  | insert k timeout =>
    if s.size ≤ 0 then (s, th) else
    (s.dnsCacheRemoveByDomain k.copied, { th with op := .inserting k.copied timeout })
  | replace k timeout =>
    if s.size ≤ 0 then (s, th) else
    match s.find k with
    | none => (s, th)
    | some e => (s.dnsCacheGet e, { th with op := .replacing k timeout e })
  | updateTimer k timeout =>
    match s.find k with
    | none => (s, th)
    | some e => (s.dnsCacheGet e, { th with op := .updatingTimer timeout e })

/--
The next section of the call in which the thread stands.  `alloc` says that
`zalloc` gives memory to an insertion, `memFull` is for its evictions.
-/
def Thread.advance (s : CacheHead) (th : Thread) (alloc : Bool) (memFull : List Bool) :
    CacheHead × Thread :=
  match th.op with
  | .idle => (s, th)
  | .inserting k timeout =>
    (if alloc then s.dnsCacheInsert k timeout memFull else s, { th with op := .idle })
  | .replacing k timeout e => (s.dnsCacheReplace e k timeout, { th with op := .releasing e })
  | .updatingTimer timeout e => (s.dnsCacheUpdateTimer e timeout, { th with op := .releasing e })
  | .releasing e => (s.dropRef e, { th with op := .afterRelease s e })
  | .deleting e => (s.dnsCacheDelete e, { th with op := .idle })

/-- The cache, its threads, and the answer of the last callback of each entry. -/
structure CacheSystem (n : ℕ) where
  head : CacheHead
  threads : Fin n → Thread
  timer : TimerOp
  answers : Nat → Option TmoutAction

inductive Event (n : ℕ)
  | call (t : Fin n) (c : Call)
  | advance (t : Fin n) (alloc : Bool) (memFull : List Bool)
  | tick
  | fire (e : Nat)
  | answer (act : TmoutAction)
  | advanceTimer

namespace CacheSystem

variable {n : ℕ}

def put (s : CacheSystem n) (t : Fin n) (r : CacheHead × Thread) : CacheSystem n :=
  { s with head := r.1, threads := Function.update s.threads t r.2 }

/-- `run_timers` takes a timer out of the wheel and calls `dns_cache_expired`. -/
def fire (s : CacheSystem n) (e : Nat) : CacheSystem n :=
  if s.timer = .idle ∧ (s.head.entries e).timerPending then
    { s with head := s.head.detachTimer e, timer := .expired e }
  else s

/--
`dns_cache_expired`, once the callback has answered for the entry `e`.  An
answer that asks for a new timeout ends the function at once if `dns_timer_mod`
tells that the timer is pending; otherwise the release comes next.
-/
def dnsCacheExpired (s : CacheSystem n) (e : Nat) (act : TmoutAction) : CacheSystem n :=
  let s := { s with answers := Function.update s.answers e (some act) }
  let modified (timeout : UInt64) : CacheSystem n :=
    let (head, pending) := s.head.dnsTimerMod e timeout
    { s with head := head, timer := if pending then .idle else .releasing e }
  match act with
  | .ok => { s with timer := .releasing e }
  | .del => { s with head := s.head.dnsCacheRemove e, timer := .releasing e }
  | .retry => modified failTimeout
  | .update => modified (s.head.entries e).timeout

/-- The release at the end of `dns_cache_expired`. -/
def advanceTimer (s : CacheSystem n) : CacheSystem n :=
  match s.timer with
  | .releasing e =>
    { s with
      head := s.head.dropRef e
      timer := if s.head.exhausted e then .deleting e else .idle }
  | .deleting e => { s with head := s.head.dnsCacheDelete e, timer := .idle }
  | _ => s

def step (s : CacheSystem n) : Event n → CacheSystem n
  | .call t c => if (s.threads t).op = .idle then s.put t (c.start s.head (s.threads t)) else s
  | .advance t alloc memFull => s.put t ((s.threads t).advance s.head alloc memFull)
  | .tick => { s with head := { s.head with jiffies := s.head.jiffies + 1 } }
  | .fire e => s.fire e
  | .answer act =>
    match s.timer with
    | .expired e => s.dnsCacheExpired e act
    | _ => s
  | .advanceTimer => s.advanceTimer

/-- `dns_cache_init`, with threads outside of any call. -/
def init (n : ℕ) (size : ℤ) (jiffies : UInt64) : CacheSystem n where
  head :=
    { entries := fun _ =>
        { key := ⟨default, 0, default, 0⟩, timeout := 0, ref := 0,
          timerPending := false, timerExpires := 0, freed := false }
      next := 0
      cacheList := []
      cacheHash := []
      num := 0
      size := size
      jiffies := jiffies }
  threads := fun _ => { held := [], op := .idle }
  timer := .idle
  answers := fun _ => none

/-- The key of the examples. -/
def exampleKey : CacheKey :=
  ⟨CStr.ofString "a.example", 1, CStr.ofString "default", 0⟩

end CacheSystem

open CacheHead

section Sections

variable {s : CacheHead} {th : Thread}

/-- The first section of a call links nothing and starts no timer. -/
theorem Call.start_calms (c : Call) : Calms s (c.start s th).1 := by
  cases c with
  | lookup k =>
    rw [Call.start]
    split
    · exact Calms.refl s
    · split
      · exact Calms.refl s
      · exact Calms.dnsCacheGet s _
  | release e =>
    rw [Call.start]
    split
    · exact Calms.dropRef s e
    · exact Calms.refl s
  | update e =>
    rw [Call.start]
    split
    · exact (touches_update fun _ => 0).calms
    · exact Calms.refl s
  | delete e =>
    rw [Call.start]
    split
    · exact Calms.dnsCacheRemove s e
    · exact Calms.refl s
  | flush => exact (touches_flush fun _ => 0).calms
  | insert k timeout =>
    rw [Call.start]
    split
    · exact Calms.refl s
    · exact (touches_removeByDomain (fun _ => 0) _).calms
  | replace k timeout =>
    rw [Call.start]
    split
    · exact Calms.refl s
    · split
      · exact Calms.refl s
      · exact Calms.dnsCacheGet s _
  | updateTimer k timeout =>
    rw [Call.start]
    split
    · exact Calms.refl s
    · exact Calms.dnsCacheGet s _

theorem Call.start_op (c : Call) (hidle : th.op = .idle) :
    (c.start s th).2.op = .idle ∨ (∃ e, (c.start s th).2.op = .deleting e) ∨
      (∃ k timeout, c = .insert k timeout ∧ (c.start s th).2.op = .inserting k.copied timeout ∧
        (c.start s th).1 = s.dnsCacheRemoveByDomain k.copied) ∨
      (∃ k timeout e, s.find k = some e ∧ (c.start s th).2.op = .replacing k timeout e) ∨
      ∃ timeout e, (c.start s th).2.op = .updatingTimer timeout e := by
  cases c with
  | lookup k =>
    left
    rw [Call.start]
    split
    · exact hidle
    · split <;> exact hidle
  | release e =>
    rw [Call.start, Op.afterRelease]
    split
    · dsimp only
      split
      · exact .inr (.inl ⟨e, rfl⟩)
      · exact .inl rfl
    · exact .inl hidle
  | update | delete =>
    left
    rw [Call.start]
    split <;> exact hidle
  | flush => exact .inl hidle
  | insert k timeout =>
    rw [Call.start]
    split
    · exact .inl hidle
    · exact .inr (.inr (.inl ⟨k, timeout, rfl, rfl, rfl⟩))
  | replace k timeout =>
    rw [Call.start]
    split
    · exact .inl hidle
    · split
      next => exact .inl hidle
      next e hfind => exact .inr (.inr (.inr (.inl ⟨k, timeout, e, hfind, rfl⟩)))
  | updateTimer k timeout =>
    rw [Call.start]
    split
    next => exact .inl hidle
    next e hfind => exact .inr (.inr (.inr (.inr ⟨timeout, e, rfl⟩)))

/-- Only a replacement remembers a key, that of the entry it has found. -/
theorem Call.start_replacing {c : Call} (hhash : s.HashOk) (hidle : th.op = .idle)
    {k : CacheKey} {timeout : UInt64} {e : Nat} (h : (c.start s th).2.op = .replacing k timeout e) :
    e ∈ s.cacheList ∧ (s.entries e).key.compared = k.compared := by
  rcases Call.start_op (s := s) c hidle with hop | ⟨e', hop⟩ | ⟨k', timeout', -, hop, -⟩ |
    ⟨k', timeout', e', hfind, hop⟩ | ⟨timeout', e', hop⟩
  · simp [hop] at h
  · simp [hop] at h
  · simp [hop] at h
  · rw [hop, Op.replacing.injEq] at h
    obtain ⟨rfl, -, rfl⟩ := h
    exact find_some hhash hfind
  · simp [hop] at h

/-- The following sections of a call, an insertion apart, link nothing. -/
theorem Thread.advance_keeps (alloc : Bool) (memFull : List Bool)
    (hinsert : ∀ k timeout, th.op ≠ .inserting k timeout)
    (hmatched : ∀ k timeout e, th.op = .replacing k timeout e →
      (s.entries e).key.compared = k.compared) :
    Keeps s (th.advance s alloc memFull).1 := by
  rw [Thread.advance]
  split
  next => exact Keeps.refl s
  next k timeout hop => exact absurd hop (hinsert k timeout)
  next k timeout e hop =>
    exact (touches_replace (fun _ => 0) (.inl (hmatched k timeout e hop)) timeout).keeps
  next timeout e hop => exact (touches_updateTimer (fun _ => 0) timeout).keeps
  next e hop => exact (Calms.dropRef s e).toKeeps
  next e hop => exact (Calms.dnsCacheDelete s e).toKeeps

/-- A thread enters a replacement or an insertion only by a call. -/
theorem Thread.advance_op (alloc : Bool) (memFull : List Bool) :
    (∀ k timeout e, (th.advance s alloc memFull).2.op ≠ .replacing k timeout e) ∧
      ∀ k timeout, (th.advance s alloc memFull).2.op ≠ .inserting k timeout := by
  rw [Thread.advance]
  split
  next hop => simp [hop]
  next => simp
  next => simp
  next => simp
  next e hop =>
    dsimp only
    rw [Op.afterRelease]
    split <;> simp
  next => simp

end Sections

section WellFormed

variable {n : ℕ}

namespace CacheSystem

/-- What holds in every state, whatever the threads do. -/
structure WellFormed (s : CacheSystem n) : Prop where
  hash : s.head.HashOk
  bound : ∀ x ∈ s.head.cacheList, x < s.head.next
  matched : ∀ t k timeout e, (s.threads t).op = .replacing k timeout e →
    (s.head.entries e).key.compared = k.compared ∧ e < s.head.next

/--
What one step does to the cache.  Either it links nothing and stops no timer
of an entry that stays linked, or it is the second section of an insertion, or
it takes a timer out of the wheel.
-/
inductive HeadStep (s : CacheSystem n) : Event n → CacheHead → Prop
  | keeps {ev : Event n} {head : CacheHead} (h : Keeps s.head head) : HeadStep s ev head
  | insert {t : Fin n} {k : CacheKey} {timeout : UInt64} (memFull : List Bool)
      (hop : (s.threads t).op = .inserting k timeout) :
      HeadStep s (.advance t true memFull) (s.head.dnsCacheInsert k timeout memFull)
  | fire {e : Nat} (hidle : s.timer = .idle)
      (hpending : (s.head.entries e).timerPending = true) :
      HeadStep s (.fire e) (s.head.detachTimer e)

theorem calms_dnsCacheExpired (s : CacheSystem n) (e : Nat) (act : TmoutAction) :
    Calms s.head (s.dnsCacheExpired e act).head := by
  cases act with
  | ok => exact Calms.refl _
  | del => exact Calms.dnsCacheRemove s.head e
  | retry | update => exact Touches.calms (.single (touch_timerMod (fun _ => 0) _))

theorem calms_advanceTimer (s : CacheSystem n) : Calms s.head s.advanceTimer.head := by
  rw [advanceTimer]
  split
  · exact Calms.dropRef s.head _
  · exact Calms.dnsCacheDelete s.head _
  · exact Calms.refl _

theorem headStep_step {s : CacheSystem n} (hw : s.WellFormed) (ev : Event n) :
    HeadStep s ev (s.step ev).head := by
  cases ev with
  | call t c =>
    rw [step]
    split
    · exact .keeps c.start_calms.toKeeps
    · exact .keeps (Keeps.refl _)
  | advance t alloc memFull =>
    by_cases hop : ∃ k timeout, (s.threads t).op = .inserting k timeout
    · obtain ⟨k, timeout, hop⟩ := hop
      cases alloc with
      | true =>
        have hhead : (s.step (.advance t true memFull)).head
            = s.head.dnsCacheInsert k timeout memFull := by
          simp [step, put, Thread.advance, hop]
        rw [hhead]
        exact .insert memFull hop
      | false =>
        have hhead : (s.step (.advance t false memFull)).head = s.head := by
          simp [step, put, Thread.advance, hop]
        rw [hhead]
        exact .keeps (Keeps.refl _)
    · push Not at hop
      exact .keeps (Thread.advance_keeps alloc memFull hop
        (fun k timeout e h => (hw.matched t k timeout e h).1))
  | tick =>
    have hrefl := Keeps.refl s.head
    exact .keeps ⟨hrefl.linked, hrefl.timer, hrefl.key, hrefl.hash, hrefl.next⟩
  | fire e =>
    rw [step, CacheSystem.fire]
    split
    next h => exact .fire h.1 h.2
    next => exact .keeps (Keeps.refl _)
  | answer act =>
    rw [step]
    split
    · exact .keeps (calms_dnsCacheExpired s _ act).toKeeps
    · exact .keeps (Keeps.refl _)
  | advanceTimer => exact .keeps (calms_advanceTimer s).toKeeps

/-- Outside of the steps of a thread its call stays where it is. -/
theorem step_threads (s : CacheSystem n) (ev : Event n) (t : Fin n) :
    (s.step ev).threads t = s.threads t ∨ (∃ c, ev = .call t c ∧ (s.threads t).op = .idle ∧
        (s.step ev).threads t = (c.start s.head (s.threads t)).2) ∨
      (∃ alloc memFull, ev = .advance t alloc memFull ∧
        (s.step ev).threads t = ((s.threads t).advance s.head alloc memFull).2) := by
  cases ev with
  | call t' c =>
    rw [step]
    split
    next hidle =>
      by_cases ht : t = t'
      · subst ht
        exact .inr (.inl ⟨c, rfl, hidle, by simp [put]⟩)
      · exact .inl (by simp [put, ht])
    next => exact .inl rfl
  | advance t' alloc memFull =>
    by_cases ht : t = t'
    · subst ht
      exact .inr (.inr ⟨alloc, memFull, rfl, by simp [step, put]⟩)
    · exact .inl (by simp [step, put, ht])
  | tick => exact .inl rfl
  | fire e =>
    left
    rw [step, CacheSystem.fire]
    split <;> rfl
  | answer act =>
    left
    rw [step]
    split
    · cases act <;> rfl
    · rfl
  | advanceTimer =>
    left
    rw [step, CacheSystem.advanceTimer]
    split <;> rfl

theorem HeadStep.key {s : CacheSystem n} {ev : Event n} {head : CacheHead} (h : HeadStep s ev head)
    {x : Nat} (hx : x < s.head.next) :
    (head.entries x).key.compared = (s.head.entries x).key.compared ∧ x < head.next := by
  cases h with
  | keeps h => exact ⟨h.key x, by rw [h.next]; exact hx⟩
  | insert memFull hop =>
    rw [key_dnsCacheInsert, if_neg hx.ne, next_dnsCacheInsert]
    exact ⟨rfl, by omega⟩
  | @fire e hidle hpending =>
    refine ⟨?_, hx⟩
    by_cases hxe : x = e
    · subst hxe
      simp [detachTimer]
    · simp [detachTimer, hxe]

theorem wellFormed_step {s : CacheSystem n} (hw : s.WellFormed) (ev : Event n) :
    (s.step ev).WellFormed := by
  have hstep := headStep_step hw ev
  constructor
  · generalize (s.step ev).head = head at hstep
    cases hstep with
    | keeps h => exact h.hash hw.hash
    | insert memFull hop => exact hw.hash.dnsCacheInsert _ _ _
    | fire hidle hpending => exact hw.hash
  · intro x hx
    have hold : x ∈ s.head.cacheList → x < (s.step ev).head.next :=
      fun hmem => (hstep.key (hw.bound x hmem)).2
    generalize (s.step ev).head = head at hstep hx hold
    cases hstep with
    | keeps h => exact hold (h.linked x hx)
    | insert memFull hop =>
      rcases mem_dnsCacheInsert _ _ _ hx with hnew | hmem
      · rw [next_dnsCacheInsert]
        omega
      · exact hold hmem
    | fire hidle hpending => exact hold hx
  · intro t k timeout e hop
    rcases step_threads s ev t with hsame | ⟨c, -, hidle, hnew⟩ | ⟨alloc, memFull, -, hnew⟩
    · rw [hsame] at hop
      obtain ⟨hkey, hbound⟩ := hw.matched t k timeout e hop
      obtain ⟨hkey', hbound'⟩ := hstep.key hbound
      exact ⟨hkey'.trans hkey, hbound'⟩
    · rw [hnew] at hop
      obtain ⟨hmem, hkey⟩ := Call.start_replacing hw.hash hidle hop
      obtain ⟨hkey', hbound'⟩ := hstep.key (hw.bound e hmem)
      exact ⟨hkey'.trans hkey, hbound'⟩
    · rw [hnew] at hop
      exact absurd hop ((Thread.advance_op alloc memFull).1 k timeout e)

theorem wellFormed_init (n : ℕ) (size : ℤ) (jiffies : UInt64) :
    (init n size jiffies).WellFormed := by
  constructor
  · intro x
    rfl
  · intro x hx
    simp [init] at hx
  · intro t k timeout e hop
    simp [init] at hop

end CacheSystem

end WellFormed

section Accounts

variable {n : ℕ}

/-- The handle of a call that has looked the entry up. -/
def Op.handle : Op → Nat → ℕ
  | replacing _ _ x, e => if e = x then 1 else 0
  | updatingTimer _ x, e => if e = x then 1 else 0
  | releasing x, e => if e = x then 1 else 0
  | _, _ => 0

/-- The deletion that a call is about to make. -/
def Op.free : Op → Nat → ℕ
  | deleting x, e => if e = x then 1 else 0
  | _, _ => 0

section OpAccounts

variable (k : CacheKey) (timeout : UInt64) (x e : Nat)

@[simp] theorem Op.handle_idle : Op.idle.handle e = 0 := rfl

@[simp] theorem Op.handle_inserting : (Op.inserting k timeout).handle e = 0 := rfl

@[simp] theorem Op.handle_replacing :
    (Op.replacing k timeout x).handle e = if e = x then 1 else 0 := rfl

@[simp] theorem Op.handle_updatingTimer :
    (Op.updatingTimer timeout x).handle e = if e = x then 1 else 0 := rfl

@[simp] theorem Op.handle_releasing :
    (Op.releasing x).handle e = if e = x then 1 else 0 := rfl

@[simp] theorem Op.handle_deleting : (Op.deleting x).handle e = 0 := rfl

@[simp] theorem Op.free_idle : Op.idle.free e = 0 := rfl

@[simp] theorem Op.free_inserting : (Op.inserting k timeout).free e = 0 := rfl

@[simp] theorem Op.free_replacing : (Op.replacing k timeout x).free e = 0 := rfl

@[simp] theorem Op.free_updatingTimer : (Op.updatingTimer timeout x).free e = 0 := rfl

@[simp] theorem Op.free_releasing : (Op.releasing x).free e = 0 := rfl

@[simp] theorem Op.free_deleting :
    (Op.deleting x).free e = if e = x then 1 else 0 := rfl

end OpAccounts

/-- The handles that the callers of a thread hold, and its own. -/
def Thread.handles (th : Thread) (e : Nat) : ℕ :=
  th.held.count e + th.op.handle e

/-- The deletion that a thread is about to make. -/
def Thread.frees (th : Thread) (e : Nat) : ℕ :=
  th.op.free e

/-- The expiry callback of the entry is running and has not released it yet. -/
def TimerOp.running : TimerOp → Nat → Bool
  | expired x, e => e = x
  | releasing x, e => e = x
  | _, _ => false

/-- The deletion that the timer thread is about to make. -/
def TimerOp.free : TimerOp → Nat → ℕ
  | deleting x, e => if e = x then 1 else 0
  | _, _ => 0

namespace CacheSystem

def handles (s : CacheSystem n) (e : Nat) : ℕ :=
  ∑ t, (s.threads t).handles e

/-- The parties about to delete the entry. -/
def frees (s : CacheSystem n) (e : Nat) : ℕ :=
  (∑ t, (s.threads t).frees e) + s.timer.free e

/-- What is owed outside the cache: to callers and to a running callback. -/
def owed (s : CacheSystem n) (e : Nat) : ℕ :=
  s.handles e + (s.timer.running e).toNat

def Balanced (s : CacheSystem n) : Prop :=
  s.head.Balanced s.owed s.frees

end CacheSystem

end Accounts

end SmartDns.Cache
