import SmartDns.Cache.Threads

/-!
# Linked entries and their timers

An insertion starts the timer of its entry, and a replacement or a timer update
starts it again.  An expiry callback that asks for a new timeout does not: its
timer has left the wheel when the callback runs, and `dns_timer_mod` only moves
timers that are in it.
-/

namespace SmartDns.Cache

open CacheHead

namespace CacheSystem

variable {n : ℕ} {s : CacheSystem n}

/-- The timeout that an answer asks for. -/
def requested (s : CacheSystem n) (e : Nat) : TmoutAction → Option UInt64
  | .retry => some failTimeout
  | .update => some (s.head.entries e).timeout
  | _ => none

/-- A callback asks for a new timeout only while its timer is in the wheel. -/
def AsksPending (s : CacheSystem n) : Event n → Prop
  | .answer act => ∀ e, s.timer = .expired e → (s.requested e act).isSome = true →
      (s.head.entries e).timerPending = true
  | _ => True

/--
Every linked entry is on a timer, unless its callback is running or the last
one answered that no timer is wanted.
-/
def Timed (s : CacheSystem n) : Prop :=
  ∀ e ∈ s.head.cacheList, (s.head.entries e).timerPending = true ∨
    s.timer = .expired e ∨ s.answers e = some .ok

/-- A step of a thread, the second section of an insertion apart, or a tick. -/
theorem Timed.of_keeps {s' : CacheSystem n} (h : s.Timed) (hkeeps : Keeps s.head s'.head)
    (htimer : ∀ e, s.timer = .expired e → s'.timer = .expired e)
    (hanswers : s'.answers = s.answers) :
    s'.Timed := by
  intro e he
  rcases h e (hkeeps.linked e he) with hpending | hexpired | hanswer
  · exact .inl (hkeeps.timer e he hpending)
  · exact .inr (.inl (htimer e hexpired))
  · rw [hanswers]
    exact .inr (.inr hanswer)

theorem Timed.fire (h : s.Timed) (e : Nat) : (s.fire e).Timed := by
  rw [CacheSystem.fire]
  split
  next hfire =>
    intro x hx
    by_cases hxe : x = e
    · subst hxe
      exact .inr (.inl rfl)
    · rcases h x hx with hpending | hexpired | hanswer
      · left
        simpa [detachTimer, hxe] using hpending
      · rw [hfire.1] at hexpired
        simp at hexpired
      · exact .inr (.inr hanswer)
  next => exact h

theorem Timed.dnsCacheExpired
    (h : s.Timed) {e : Nat} (hexpired : s.timer = .expired e) {act : TmoutAction}
    (hok : s.AsksPending (.answer act)) :
    (s.dnsCacheExpired e act).Timed := by
  have hcalms := calms_dnsCacheExpired s e act
  have hanswers : (s.dnsCacheExpired e act).answers = Function.update s.answers e (some act) := by
    cases act <;> rfl
  intro x hx
  by_cases hxe : x = e
  · subst hxe
    cases act with
    | ok =>
      rw [hanswers, Function.update_self]
      exact .inr (.inr rfl)
    | del => exact absurd hx (not_mem_dnsCacheRemove s.head x)
    | retry | update => exact .inl (hcalms.timer x hx (hok x hexpired rfl))
  · rcases h x (hcalms.linked x hx) with hpending | hother | hanswer
    · exact .inl (hcalms.timer x hx hpending)
    · rw [hexpired, TimerOp.expired.injEq] at hother
      exact absurd hother.symm hxe
    · rw [hanswers, Function.update_of_ne hxe]
      exact .inr (.inr hanswer)

theorem timed_step
    (s : CacheSystem n) (ev : Event n) (h : s.WellFormed ∧ s.Timed) (hok : s.AsksPending ev) :
    (s.step ev).WellFormed ∧ (s.step ev).Timed := by
  obtain ⟨hw, ht⟩ := h
  refine ⟨wellFormed_step hw ev, ?_⟩
  have hstep := headStep_step hw ev
  cases ev with
  | call t c =>
    rw [step]
    split
    · exact ht.of_keeps c.start_calms.toKeeps (fun _ he => he) rfl
    · exact ht
  | advance t alloc memFull =>
    generalize hhead : (s.step (.advance t alloc memFull)).head = head at hstep
    cases hstep with
    | keeps hkeeps =>
      rw [← hhead] at hkeeps
      exact ht.of_keeps hkeeps (fun _ he => he) rfl
    | @insert _ k timeout _ hop =>
      intro x hx
      rw [hhead] at hx ⊢
      rcases mem_dnsCacheInsert k timeout memFull hx with hnew | hmem
      · exact .inl (timer_dnsCacheInsert k timeout memFull hx (.inl hnew))
      · rcases ht x hmem with hpending | hother
        · exact .inl (timer_dnsCacheInsert k timeout memFull hx (.inr hpending))
        · exact .inr hother
  | tick => exact ht
  | fire e => exact ht.fire e
  | answer act =>
    rw [step]
    split
    next e hexpired => exact ht.dnsCacheExpired hexpired hok
    next => exact ht
  | advanceTimer =>
    refine ht.of_keeps (calms_advanceTimer s).toKeeps (fun e he => ?_) ?_
    · simp [step, advanceTimer, he]
    · rw [step, advanceTimer]
      split <;> rfl

/-- A timer that is in the wheel gets the timeout that the answer asks for. -/
theorem dnsCacheExpired_rearms {e : Nat} {act : TmoutAction} {timeout : UInt64}
    (hrequested : s.requested e act = some timeout)
    (hpending : (s.head.entries e).timerPending = true) :
    ((s.dnsCacheExpired e act).head.entries e).timerPending = true ∧
      ((s.dnsCacheExpired e act).head.entries e).timerExpires = timeout + s.head.jiffies - 1 := by
  cases act with
  | ok | del => simp [requested] at hrequested
  | retry | update =>
    simp only [requested, Option.some.injEq] at hrequested
    subst hrequested
    simp [CacheSystem.dnsCacheExpired, dnsTimerMod, hpending]

/--
In every run in which a callback asks for a new timeout only while its timer is
in the wheel, every linked entry whose callback is not running is on a timer
unless the last callback wanted none; and a callback that asks for a new
timeout leaves the timer pending with it.
-/
theorem linked_timed (n : ℕ) (size : ℤ) (jiffies : UInt64) (events : List (Event n))
    (hok : Admissible step AsksPending (init n size jiffies) events) :
    let s := run step (init n size jiffies) events
    (∀ e ∈ s.head.cacheList, s.timer ≠ .expired e →
      (s.head.entries e).timerPending = true ∨ s.answers e = some .ok) ∧
    (∀ e act timeout, s.timer = .expired e → s.requested e act = some timeout →
      s.AsksPending (.answer act) →
      let s' := s.step (.answer act)
      (s'.head.entries e).timerPending = true ∧
        (s'.head.entries e).timerExpires = timeout + s.head.jiffies - 1) := by
  intro s
  obtain ⟨-, htimed⟩ : s.WellFormed ∧ s.Timed :=
    run_invariant step (fun s => s.WellFormed ∧ s.Timed) timed_step
      ⟨wellFormed_init n size jiffies, fun e he => by simp [init] at he⟩ hok
  constructor
  · intro e he hnot
    rcases htimed e he with hpending | hexpired | hanswer
    · exact .inl hpending
    · exact absurd hexpired hnot
    · exact .inr hanswer
  · intro e act timeout hexpired hrequested hasks
    have hpending := hasks e hexpired (by simp [hrequested])
    have hstep : s.step (.answer act) = s.dnsCacheExpired e act := by simp [step, hexpired]
    simp only [hstep]
    exact dnsCacheExpired_rearms hrequested hpending

/-- A replacement puts the timer back before its callback has answered. -/
def replacedInTime (t : Fin n) : List (Event n) :=
  [.call t (.insert exampleKey 60), .advance t true [], .fire 0,
    .call t (.replace exampleKey 60), .advance t true [], .answer .update]

theorem linked_timed_replaced :
    Admissible step AsksPending (init 1 10 1) (replacedInTime 0) ∧
      (let s := run step (init 1 10 1) (replacedInTime 0)
      0 ∈ s.head.cacheList ∧
        ((s.head.entries 0).timerPending = true ∨ s.answers 0 = some .ok)) := by
  have hok : Admissible step AsksPending (init 1 10 1) (replacedInTime 0) := by
    refine ⟨trivial, trivial, trivial, trivial, trivial, ?_, trivial⟩
    rintro e he -
    obtain rfl : 0 = e := TimerOp.expired.inj he
    rfl
  refine ⟨hok, by decide, ?_⟩
  exact (linked_timed 1 10 1 (replacedInTime 0) hok).1 0 (by decide) (by decide)

/--
The callback of an entry whose timer nobody has put back answers that it will
retry: the entry stays linked and has no timer any more.
-/
theorem retry_stops :
    let s := run step (init 1 10 1)
      [.call 0 (.insert exampleKey 60), .advance 0 true [], .fire 0, .answer .retry, .advanceTimer]
    0 ∈ s.head.cacheList ∧ s.timer = .idle ∧ (s.threads 0).op = .idle ∧
      s.answers 0 = some .retry ∧ (s.head.entries 0).timerPending = false := by
  refine ⟨?_, ?_, ?_, ?_, ?_⟩
  · decide
  · decide
  · decide
  · decide
  · decide

end CacheSystem

end SmartDns.Cache
