import SmartDns.Cache.Threads

/-!
# The reference counts of the cache

In a run in which no timer is started again while the expiry callback of its
entry is running, the counter of every entry is the number of its uses: the
list, the timer or the running callback, and the handles of callers.  Otherwise
the callback, which assumes that it holds the only reference of the timer, keeps it.
-/

namespace SmartDns.Cache

open CacheHead TimerOp Thread

variable {th' : Thread} {e : Nat}

section Threads

variable {s : CacheHead} {th : Thread} {rest restFrees : Nat → ℕ}

/-- The account of the cache as one thread sees it. -/
def BalancedFor (s : CacheHead) (th : Thread) (rest restFrees : Nat → ℕ) : Prop :=
  s.Balanced (fun e => rest e + th.handles e) (fun e => restFrees e + th.frees e)

/-- A section that neither hands out nor takes back keeps the thread's account. -/
theorem BalancedFor.same
    {s' : CacheHead} (h : ∀ owed frees, s.Balanced owed frees → s'.Balanced owed frees)
    (hhandles : ∀ x, th'.handles x = th.handles x) (hfrees : ∀ x, th'.frees x = th.frees x)
    (hb : BalancedFor s th rest restFrees) :
    BalancedFor s' th' rest restFrees := by
  rw [BalancedFor]
  simp only [hhandles, hfrees]
  exact h _ _ hb

theorem BalancedFor.get (hb : BalancedFor s th rest restFrees) (hmem : e ∈ s.cacheList)
    (hhandles : ∀ x, th'.handles x = th.handles x + if x = e then 1 else 0)
    (hfrees : ∀ x, th'.frees x = th.frees x) :
    BalancedFor (s.dnsCacheGet e) th' rest restFrees := by
  have hlist : s.listRef e = 1 := if_pos hmem
  have hgot := CacheHead.Balanced.dnsCacheGet (e := e) hb (by omega)
  have howed : (fun x => rest x + th'.handles x) = oneMore (fun x => rest x + th.handles x) e := by
    funext x
    simp only [oneMore, hhandles]
    omega
  rw [BalancedFor, howed]
  simp only [hfrees]
  exact hgot

theorem BalancedFor.drop (hb : BalancedFor s th rest restFrees)
    (hhandles : ∀ x, th.handles x = th'.handles x + if x = e then 1 else 0)
    (hfrees : ∀ x, th'.frees x = th.frees x + if s.exhausted e = true ∧ x = e then 1 else 0) :
    BalancedFor (s.dropRef e) th' rest restFrees := by
  have howed : (fun x => rest x + th.handles x) = oneMore (fun x => rest x + th'.handles x) e := by
    funext x
    simp only [oneMore, hhandles]
    omega
  rw [BalancedFor, howed] at hb
  have hdropped := hb.dropRef
  rw [BalancedFor]
  simp only [hfrees]
  by_cases hzero : s.exhausted e = true
  · have hsplit : oneMore (fun x => restFrees x + th.frees x) e
        = fun x => restFrees x + (th.frees x + if x = e then 1 else 0) := by
      funext x
      simp only [oneMore, add_assoc]
    rw [hsplit] at hdropped
    simpa [hzero] using hdropped
  · simpa [hzero] using hdropped

theorem afterRelease_free (s : CacheHead) (e x : Nat) :
    (Op.afterRelease s e).free x = if s.exhausted e = true ∧ x = e then 1 else 0 := by
  by_cases hzero : s.exhausted e = true
  · simp [Op.afterRelease, Op.free, hzero]
  · simp [Op.afterRelease, Op.free, hzero]

theorem afterRelease_handle (s : CacheHead) (e x : Nat) : (Op.afterRelease s e).handle x = 0 := by
  rw [Op.afterRelease]
  split <;> rfl

theorem Call.start_balanced (c : Call) (hidle : th.op = .idle) (hhash : s.HashOk)
    (hb : BalancedFor s th rest restFrees) :
    BalancedFor (c.start s th).1 (c.start s th).2 rest restFrees := by
  cases c with
  | lookup k =>
    rw [Call.start]
    split
    · exact hb
    · split
      next => exact hb
      next e hfind =>
        refine hb.get (find_some hhash hfind).1 (fun x => ?_) (fun _ => rfl)
        simp only [handles, List.count_cons, beq_iff_eq, eq_comm (a := e)]
        omega
  | release e =>
    rw [Call.start]
    split
    next hheld =>
      refine hb.drop (fun x => ?_) (fun x => ?_)
      · simp only [handles, hidle, afterRelease_handle, List.count_erase, Op.handle_idle,
          beq_iff_eq, eq_comm (a := e)]
        by_cases hx : x = e
        · subst hx
          have hpos : 0 < th.held.count x := List.count_pos_iff.mpr hheld
          simp only [if_true]
          omega
        · simp [hx]
      · simp [frees, hidle, afterRelease_free]
    next => exact hb
  | update e =>
    rw [Call.start]
    split
    · exact hb.same (fun _ _ => (touches_update _).balanced) (fun _ => rfl) (fun _ => rfl)
    · exact hb
  | delete e =>
    rw [Call.start]
    split
    · exact hb.same (fun _ _ h => h.dnsCacheRemove e) (fun _ => rfl) (fun _ => rfl)
    · exact hb
  | flush => exact hb.same (fun _ _ => (touches_flush _).balanced) (fun _ => rfl) (fun _ => rfl)
  | insert k timeout =>
    rw [Call.start]
    split
    · exact hb
    · refine hb.same (fun _ _ => (touches_removeByDomain _ _).balanced) (fun x => ?_) (fun x => ?_)
      · simp [handles, hidle]
      · simp [frees, hidle]
  | replace k timeout =>
    rw [Call.start]
    split
    · exact hb
    · split
      next => exact hb
      next e hfind =>
        refine hb.get (find_some hhash hfind).1 (fun x => ?_) (fun x => ?_)
        · simp [handles, hidle]
        · simp [frees, hidle]
  | updateTimer k timeout =>
  rw [Call.start]
  split
  next => exact hb
  next e hfind =>
    refine hb.get (find_some hhash hfind).1 (fun x => ?_) (fun x => ?_)
    · simp [handles, hidle]
    · simp [frees, hidle]

theorem CacheHead.Balanced.dnsCacheInsert {owed frees : Nat → ℕ} (h : s.Balanced owed frees)
    (k : CacheKey) (timeout : UInt64) (memFull : List Bool) :
    (s.dnsCacheInsert k timeout memFull).Balanced owed frees := by
  have hnext := (h s.next).dead_uses (fun hlive => absurd hlive.1 (lt_irrefl _))
  have hnew : s.next ∉ s.cacheList := by
    intro hmem
    rw [listRef, if_pos hmem] at hnext
    omega
  have hcalm := Calms.evict 33 memFull (s.allocate k timeout)
  have hevicted : (CacheHead.evict 33 memFull (s.allocate k timeout)).Balanced _ frees :=
    (touches_evict _ 33 memFull).balanced (h.allocate k timeout)
  have hlinked := hevicted.link (fun hmem => hnew (hcalm.linked _ hmem))
  have hlist : ((CacheHead.evict 33 memFull (s.allocate k timeout)).link s.next).listRef s.next
      = 1 := by
    simp [listRef, CacheHead.link]
  refine (hlinked.dnsCacheGet (by omega)).dnsTimerAdd ?_
  -- the timer of the new entry has not been started by the evictions
  have hquiet := hcalm.quiet s.next
  simpa [CacheHead.dnsCacheGet, CacheHead.link, CacheHead.allocate] using hquiet

theorem Thread.advance_balanced
    (alloc : Bool) (memFull : List Bool) (hb : BalancedFor s th rest restFrees) :
    BalancedFor (th.advance s alloc memFull).1 (th.advance s alloc memFull).2 rest restFrees := by
  rw [advance]
  split
  next => exact hb
  next k timeout hop =>
    refine hb.same (fun _ _ h => ?_) (fun x => ?_) (fun x => ?_)
    · split
      · exact h.dnsCacheInsert k timeout memFull
      · exact h
    · simp [handles, hop]
    · simp [frees, hop]
  next k timeout e hop =>
    refine hb.same (fun _ _ => (touches_replace _ (.inr trivial) timeout).balanced) (fun x => ?_)
      (fun x => ?_)
    · simp [handles, hop]
    · simp [frees, hop]
  next timeout e hop =>
    refine hb.same (fun _ _ => (touches_updateTimer _ timeout).balanced) (fun x => ?_) (fun x => ?_)
    · simp [handles, hop]
    · simp [frees, hop]
  next e hop =>
    refine hb.drop (fun x => ?_) (fun x => ?_)
    · simp [handles, hop, afterRelease_handle]
    · simp [frees, hop, afterRelease_free]
  next e hop =>
  have hfrees : (fun x => restFrees x + th.frees x) = oneMore restFrees e := by
    funext x
    simp [frees, hop, oneMore]
  rw [BalancedFor, hfrees] at hb
  have hdeleted := hb.dnsCacheDelete
  rw [BalancedFor]
  simpa [handles, frees, hop, ] using hdeleted

end Threads

section Systems

namespace CacheSystem

variable {n : ℕ} {s : CacheSystem n}

/-- A section of one thread that keeps the thread's account keeps that of all. -/
theorem Balanced.put (h : s.Balanced) {t : Fin n} {r : CacheHead × Thread}
    (hr : ∀ rest restFrees, BalancedFor s.head (s.threads t) rest restFrees →
      BalancedFor r.1 r.2 rest restFrees) :
    (s.put t r).Balanced := by
  have hthread := hr (fun e => heldByOthers (fun th => th.handles e) s.threads t
      + (s.timer.running e).toNat)
    (fun e => heldByOthers (fun th => th.frees e) s.threads t + s.timer.free e) ?_
  · have howed : (s.put t r).owed = fun e => heldByOthers (fun th => th.handles e) s.threads t
        + (s.timer.running e).toNat + r.2.handles e := by
      funext e
      simp only [owed, handles, sum_eq_heldByOthers (fun th => Thread.handles th e) _ t,
        CacheSystem.put, heldByOthers_update, Function.update_self]
      omega
    have hfrees : (s.put t r).frees = fun e => heldByOthers (fun th => th.frees e) s.threads t
        + s.timer.free e + r.2.frees e := by
      funext e
      simp only [frees, sum_eq_heldByOthers (fun th => Thread.frees th e) _ t,
        CacheSystem.put, heldByOthers_update, Function.update_self]
      omega
    rw [Balanced, howed, hfrees]
    exact hthread
  · have howed : s.owed = fun e => heldByOthers (fun th => th.handles e) s.threads t
        + (s.timer.running e).toNat + (s.threads t).handles e := by
      funext e
      simp only [owed, handles, sum_eq_heldByOthers (fun th => Thread.handles th e) _ t]
      omega
    have hfrees : s.frees = fun e => heldByOthers (fun th => th.frees e) s.threads t
        + s.timer.free e + (s.threads t).frees e := by
      funext e
      simp only [frees, sum_eq_heldByOthers (fun th => Thread.frees th e) _ t]
      omega
    rw [Balanced, howed, hfrees] at h
    exact h

/-- A running callback holds the only reference of the timer. -/
def Exclusive (s : CacheSystem n) : Prop :=
  ∀ e, s.timer.running e = true → (s.head.entries e).timerPending = false

/--
A replacement or a timer update of a linked entry comes while the expiry
callback of the entry is not running.
-/
def RearmsIdle (s : CacheSystem n) : Event n → Prop
  | .advance t _ _ =>
    match (s.threads t).op with
    | .replacing _ _ e | .updatingTimer _ e => e ∈ s.head.cacheList → s.timer.running e = false
    | _ => True
  | _ => True

/-- What holds in every state of such a run. -/
structure Counted (s : CacheSystem n) : Prop where
  wellFormed : s.WellFormed
  balanced : s.Balanced
  exclusive : s.Exclusive

theorem Balanced.not_running_next (h : s.Balanced) : s.timer.running s.head.next = false := by
  have hzero := (h s.head.next).dead_uses (fun hlive => absurd hlive.1 (lt_irrefl _))
  by_contra hrunning
  rw [owed, Bool.eq_true_of_not_eq_false hrunning] at hzero
  simp at hzero

theorem exclusive_of_calms {s' : CacheSystem n} (h : s.Exclusive) (hcalms : Calms s.head s'.head)
    (htimer : ∀ e, s'.timer.running e = true → s.timer.running e = true) :
    s'.Exclusive := by
  intro e hrunning
  by_contra hpending
  have hold := hcalms.quiet e (Bool.eq_true_of_not_eq_false hpending)
  rw [h e (htimer e hrunning)] at hold
  simp at hold

theorem quiet_rearm {head : CacheHead} {x : Nat} (timeout : UInt64) (hx : x ≠ e)
    (hp : ((head.rearm e timeout).entries x).timerPending = true) :
    (head.entries x).timerPending = true := by
  rw [CacheHead.rearm] at hp
  dsimp only at hp
  split at hp
  · simpa [dnsTimerMod, hx] using hp
  · simpa [dnsTimerMod, dnsCacheGet, dnsTimerAdd, hx] using hp

theorem exclusive_advance (h : s.Counted) (t : Fin n) (alloc : Bool) (memFull : List Bool)
    (hok : s.RearmsIdle (.advance t alloc memFull)) :
    (s.step (.advance t alloc memFull)).Exclusive := by
  intro x hrunning
  have hx : s.timer.running x = true := hrunning
  have hold := h.exclusive x hx
  by_contra hpending
  have hp := Bool.eq_true_of_not_eq_false hpending
  rw [step, put, advance] at hp
  rw [RearmsIdle] at hok
  split at hp
  next => simp [hold] at hp
  next k timeout hop =>
    split at hp
    · have hne : x ≠ s.head.next := by
        rintro rfl
        rw [h.balanced.not_running_next] at hx
        simp at hx
      simp [quiet_dnsCacheInsert k timeout memFull hne hp] at hold
    · simp [hold] at hp
  next k timeout e hop =>
    simp only [hop] at hok
    rw [CacheHead.dnsCacheReplace] at hp
    split at hp
    next hmem =>
      have hne : x ≠ e := by
        rintro rfl
        simp [hok hmem] at hx
      have hpre := quiet_rearm timeout hne hp
      simp [moveToTail, replaceInfo, hne, hold] at hpre
    next => simp [hold] at hp
  next timeout e hop =>
    simp only [hop] at hok
    rw [CacheHead.dnsCacheUpdateTimer] at hp
    split at hp
    next hmem =>
      have hne : x ≠ e := by
        rintro rfl
        simp [hok hmem] at hx
      simp [quiet_rearm timeout hne hp] at hold
    next => simp [hold] at hp
  next e hop => simp [(Calms.dropRef s.head e).quiet x hp] at hold
  next e hop => simp [(Calms.dnsCacheDelete s.head e).quiet x hp] at hold

theorem counted_fire (h : s.Counted) (e : Nat) : (s.fire e).Balanced ∧ (s.fire e).Exclusive := by
  rw [CacheSystem.fire]
  split
  next hfire =>
    obtain ⟨hidle, hpending⟩ := hfire
    constructor
    · have hdetached := h.balanced.detachTimer hpending
      have howed : ({ s with head := s.head.detachTimer e, timer := .expired e }
          : CacheSystem n).owed = oneMore s.owed e := by
        funext x
        by_cases hx : x = e
        · simp [owed, handles, oneMore, hidle, running, hx]
        · simp [owed, handles, oneMore, hidle, running, hx]
      rw [Balanced, howed]
      have hfrees : ({ s with head := s.head.detachTimer e, timer := .expired e }
          : CacheSystem n).frees = s.frees := by
        funext x
        simp [frees, hidle, free]
      rw [hfrees]
      exact hdetached
    · intro x hx
      have hxe : x = e := by simpa [running] using hx
      subst hxe
      simp [detachTimer]
  next => exact ⟨h.balanced, h.exclusive⟩

theorem counted_dnsCacheExpired
    (h : s.Counted) (hexpired : s.timer = .expired e) (act : TmoutAction) :
    (s.dnsCacheExpired e act).Balanced ∧ (s.dnsCacheExpired e act).Exclusive := by
  have hnot : (s.head.entries e).timerPending = false := h.exclusive e (by simp [hexpired, running])
  -- the timer is not pending, so every answer goes on to the release
  have htimer : (s.dnsCacheExpired e act).timer = .releasing e := by
    cases act with
    | ok => rfl
    | del => rfl
    | retry | update => simp [dnsCacheExpired, dnsTimerMod, hnot]
  have hthreads : (s.dnsCacheExpired e act).threads = s.threads := by cases act <;> rfl
  constructor
  · have howed : (s.dnsCacheExpired e act).owed = s.owed := by
      funext x
      simp [owed, handles, htimer, hthreads, hexpired, running]
    have hfrees : (s.dnsCacheExpired e act).frees = s.frees := by
      funext x
      simp [frees, htimer, hthreads, hexpired, free]
    rw [Balanced, howed, hfrees]
    cases act with
    | ok => exact h.balanced
    | del => exact h.balanced.dnsCacheRemove e
    | retry | update => exact h.balanced.modify rfl rfl rfl
  · apply exclusive_of_calms h.exclusive (calms_dnsCacheExpired s e act)
    intro x hx
    simpa [htimer, hexpired, running] using hx

theorem counted_advanceTimer (h : s.Counted) :
    s.advanceTimer.Balanced ∧ s.advanceTimer.Exclusive := by
  constructor
  · rw [advanceTimer]
    split
    next e hop =>
      have howed : s.owed = oneMore s.handles e := by
        funext x
        by_cases hx : x = e
        · simp [owed, oneMore, hop, running, hx]
        · simp [owed, oneMore, hop, running, hx]
      have hb := h.balanced
      rw [Balanced, howed] at hb
      have hdropped := hb.dropRef
      by_cases hzero : s.head.exhausted e = true
      · rw [if_pos hzero] at hdropped ⊢
        rw [Balanced]
        convert hdropped using 1
        · funext x
          simp [owed, handles, running]
        · funext x
          simp [frees, oneMore, hop, free]
      · rw [if_neg hzero] at hdropped ⊢
        rw [Balanced]
        convert hdropped using 1
        · funext x
          simp [owed, handles, running]
        · funext x
          simp [frees, hop, free]
    next e hop =>
      have hfrees : s.frees = oneMore (fun x => ∑ t, (s.threads t).frees x) e := by
        funext x
        simp [frees, oneMore, hop, free]
      have hb := h.balanced
      rw [Balanced, hfrees] at hb
      rw [Balanced]
      convert hb.dnsCacheDelete using 1
      · funext x
        simp [owed, handles, hop, running]
      · funext x
        simp [frees, free]
    next => exact h.balanced
  · apply exclusive_of_calms h.exclusive (calms_advanceTimer s)
    intro x hx
    rw [advanceTimer] at hx
    split at hx
    next e hop => split at hx <;> simp [running] at hx
    next e hop => simp [running] at hx
    next => exact hx

theorem counted_step (s : CacheSystem n) (ev : Event n) (h : s.Counted) (hok : s.RearmsIdle ev) :
    (s.step ev).Counted := by
  have hw := wellFormed_step h.wellFormed ev
  cases ev with
  | call t c =>
    refine ⟨hw, ?_, ?_⟩
    · rw [step]
      split
      next hidle => exact h.balanced.put fun _ _ => c.start_balanced hidle h.wellFormed.hash
      next => exact h.balanced
    · rw [step]
      split
      · exact exclusive_of_calms h.exclusive c.start_calms (fun _ hx => hx)
      · exact h.exclusive
  | advance t alloc memFull =>
    refine ⟨hw, ?_, exclusive_advance h t alloc memFull hok⟩
    exact h.balanced.put fun _ _ => advance_balanced alloc memFull
  | tick => exact ⟨hw, h.balanced, h.exclusive⟩
  | fire e => exact ⟨hw, (counted_fire h e).1, (counted_fire h e).2⟩
  | answer act =>
    have hanswer : (s.step (.answer act)).Balanced ∧ (s.step (.answer act)).Exclusive := by
      rw [step]
      split
      next e hexpired => exact counted_dnsCacheExpired h hexpired act
      next => exact ⟨h.balanced, h.exclusive⟩
    exact ⟨hw, hanswer.1, hanswer.2⟩
  | advanceTimer => exact ⟨hw, (counted_advanceTimer h).1, (counted_advanceTimer h).2⟩

theorem counted_init (n : ℕ) (size : ℤ) (jiffies : UInt64) : (init n size jiffies).Counted := by
  refine ⟨wellFormed_init n size jiffies, ?_, ?_⟩
  · intro e
    have hdead : ¬ (init n size jiffies).head.live e := fun hlive => absurd hlive.1 (by simp [init])
    refine ⟨fun hlive => absurd hlive hdead, fun hlive => absurd hlive hdead, ?_, ?_⟩
    · intro _
      simp [init, listRef, timerRef, owed, handles, Thread.handles, running]
    · intro _
      simp [init, frees, Thread.frees, free]
  · intro e he
    simp [init, running] at he

theorem Counted.uses (h : s.Counted) (e : Nat) :
    s.head.listRef e + s.head.timerRef e + s.owed e = (if e ∈ s.head.cacheList then 1 else 0)
        + (if (s.head.entries e).timerPending = true ∨ s.timer.running e = true then 1 else 0)
        + s.handles e := by
  have hexclusive := h.exclusive e
  rw [listRef, timerRef, owed]
  by_cases hrunning : s.timer.running e = true
  · simp [hrunning, hexclusive hrunning]
    omega
  · simp [Bool.eq_false_of_not_eq_true hrunning]

theorem unused_iff :
    (if e ∈ s.head.cacheList then 1 else 0)
        + (if (s.head.entries e).timerPending = true ∨ s.timer.running e = true then 1 else 0)
        + s.handles e = 0 ↔
      e ∉ s.head.cacheList ∧ (s.head.entries e).timerPending = false ∧
        s.timer.running e = false ∧ s.handles e = 0 := by
  by_cases hmem : e ∈ s.head.cacheList
  · simp [hmem]
  · cases (s.head.entries e).timerPending <;> cases s.timer.running e <;> simp [hmem]

/--
In every run in which no replacement and no timer update meets the running
expiry callback of its entry, every allocated entry counts its uses, and an
entry is freed, or about to be freed by one party, exactly when it has none.
-/
theorem counts_exact (n : ℕ) (size : ℤ) (jiffies : UInt64) (events : List (Event n))
    (hok : Admissible step RearmsIdle (init n size jiffies) events) (e : Nat) :
    let s := run step (init n size jiffies) events
    (s.head.live e → (s.head.entries e).ref = (if e ∈ s.head.cacheList then 1 else 0)
        + (if (s.head.entries e).timerPending = true ∨ s.timer.running e = true then 1 else 0)
        + s.handles e) ∧
    (e < s.head.next → ((s.head.entries e).freed = true ∨ s.frees e = 1 ↔
        e ∉ s.head.cacheList ∧ (s.head.entries e).timerPending = false ∧
          s.timer.running e = false ∧ s.handles e = 0)) := by
  intro s
  have hs : s.Counted := run_invariant step Counted counted_step (counted_init n size jiffies) hok
  have haccount := hs.balanced e
  rw [hs.uses e] at haccount
  constructor
  · intro hlive
    rw [haccount.count_eq hlive]
    push_cast
    rfl
  · intro hbound
    rw [← unused_iff]
    by_cases hfreed : (s.head.entries e).freed = true
    · have hdead : ¬ s.head.live e := fun hlive => by simp [hlive.2] at hfreed
      exact ⟨fun _ => haccount.dead_uses hdead, fun _ => .inl hfreed⟩
    · have hlive : s.head.live e := ⟨hbound, Bool.eq_false_of_not_eq_true hfreed⟩
      rw [haccount.frees_eq hlive]
      simp [hfreed, and_assoc]

/-- The run of `counts_exact_insert`: an entry is inserted, expires and is deleted. -/
def insertExpire (t : Fin n) : List (Event n) :=
  [.call t (.insert exampleKey 60), .advance t true [], .fire 0, .answer .del, .advanceTimer]

theorem counts_exact_insert :
    Admissible step RearmsIdle (init 1 10 1) (insertExpire 0) ∧
      (let s := run step (init 1 10 1) (insertExpire 0)
      0 < s.head.next ∧ ((s.head.entries 0).freed = true ∨ s.frees 0 = 1)) := by
  have hok : Admissible step RearmsIdle (init 1 10 1) (insertExpire 0) :=
    ⟨trivial, trivial, trivial, trivial, trivial, trivial⟩
  refine ⟨hok, by decide, ?_⟩
  exact ((counts_exact 1 10 1 (insertExpire 0) hok 0).2 (by decide)).mpr (by decide)

/--
A replacement puts the timer back into the wheel while the callback is running,
and the callback then asks for a new timeout: `dns_timer_mod` tells it that the
timer is pending, so it keeps its reference for ever.
-/
theorem rearmed_leaks :
    let s := run step (init 1 10 1) [.call 0 (.insert exampleKey 60), .advance 0 true [], .fire 0,
        .call 0 (.replace exampleKey 60), .advance 0 true [], .advance 0 true [], .answer .update]
    s.head.live 0 ∧ 0 ∈ s.head.cacheList ∧ (s.head.entries 0).timerPending = true ∧
      s.timer.running 0 = false ∧ s.handles 0 = 0 ∧ (s.head.entries 0).ref = 3 := by
  refine ⟨⟨?_, ?_⟩, ?_, ?_, ?_, ?_, ?_⟩
  · decide
  · decide
  · decide
  · decide
  · decide
  · decide
  · decide

end CacheSystem

end Systems

end SmartDns.Cache
