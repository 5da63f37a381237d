import SmartDns.Timer.Rings

/-!
# Timers fire on time

A timer that has been added waits in the wheel, comes to the work list in the tick
of its deadline, and has its function called in that tick.  The steps of other
timers, and the functions that are called in between, make no difference to it.
-/

namespace SmartDns.Timer

open List TimerSystem

namespace TimerSystem

open TwBase

def firings (s : TimerSystem) (t : Nat) : List (Nat × Nat) :=
  s.fired.filter (fun call => call.2 = t)

/-- What holds of every state: the clock has advanced with the ticks, the timers that are
not pending stand in no list, and there is no work between two ticks. -/
structure Sound (start : Nat) (s : TimerSystem) : Prop where
  jiffies : Reads s.base.jiffies (start + s.ticks)
  loose : ∀ x, (s.base.timers x).pending = false → s.base.Loose x
  idle : s.running = false → s.base.workList = []

variable {start t fires : Nat} {old : List (Nat × Nat)} {s : TimerSystem}

/-- The step is a call for the timer `x`, and leaves it pending or in no list. -/
theorem Sound.touch {b : TwBase} (h : s.Sound start) (x : Nat)
    (hsame : ∀ y, y ≠ x → SameFor y s.base b) (hjiffies : b.jiffies = s.base.jiffies)
    (hx : (b.timers x).pending = true ∨ b.Loose x)
    (hwork : s.base.workList = [] → b.workList = []) :
    Sound start { s with base := b } where
  jiffies := hjiffies ▸ h.jiffies
  loose := by
    intro y hy
    by_cases hyx : y = x
    · subst hyx
      rcases hx with hpending | hloose
      · rw [hpending] at hy
        cases hy
      · exact hloose
    · have hsame' := hsame y hyx
      exact hsame'.loose (h.loose y (hsame'.timer ▸ hy))
  idle := fun hrunning => hwork (h.idle hrunning)

theorem Sound.step (h : s.Sound start) (e : TimerEvent) :
    (step s e).Sound start := by
  cases e with
  | add t delay function =>
    simp only [TimerSystem.step]
    split
    · exact ⟨h.jiffies, h.loose, h.idle⟩
    rename_i hpending
    have hloose := h.loose t (by simpa using hpending)
    refine h.touch t ?_ ?_ ?_ ?_
    · intro y hy
      exact (sameFor_setTimer _ hy _).trans (sameFor_twAddTimer _ hy)
    · simp only [twAddTimer]
      split <;> rfl
    · simp only [twAddTimer]
      split
      · exact .inl (twAddTimerAt_pending _ t)
      · exact .inr ⟨hloose.vec, hloose.workList⟩
    · intro hwork
      simp only [twAddTimer]
      split <;> exact hwork
  | del t =>
    refine h.touch t (fun y hy => sameFor_twDelTimer _ hy) ?_ ?_ ?_
    · simp only [twDelTimer]
      split <;> rfl
    · simp only [twDelTimer]
      split
      · exact .inr (loose_twDetachTimer _ t)
      next hpending => exact .inr (h.loose t (by simpa using hpending))
    · intro hwork
      simp only [twDelTimer]
      split
      · simp [twDetachTimer, hwork]
      · exact hwork
  | mod t delay =>
    refine h.touch t (fun y hy => sameFor_twModTimerPending _ hy delay) ?_ ?_ ?_
    · simp only [twModTimerPending]
      split <;> rfl
    · simp only [twModTimerPending]
      split
      · exact .inl (twAddTimerAt_pending _ t)
      rename_i hpending
      have hloose := h.loose t (by simpa [setTimer] using hpending)
      exact .inr ⟨hloose.vec, hloose.workList⟩
    · intro hwork
      simp only [twModTimerPending]
      split
      · simp [twAddTimerAt, twDetachTimer, setTimer, enqueue, setVec, hwork]
      · exact hwork
  | tick =>
    simp only [TimerSystem.step]
    split
    · exact h
    obtain ⟨htimers, hjiffies⟩ := cascades_timers s.base
    refine ⟨?_, ?_, by simp⟩
    · simp only [runTimers, hjiffies]
      exact h.jiffies.succ
    · intro x hx
      exact (h.loose x (by simpa [runTimers, setVec, htimers] using hx)).runTimers
  | fire =>
  simp only [TimerSystem.step]
  split
  · simp only [fire]
    split
    next hwork => exact ⟨h.jiffies, h.loose, fun _ => hwork⟩
    rename_i t rest hwork
    refine ⟨h.jiffies, ?_, ?_⟩
    · intro y hy
      by_cases hyt : y = t
      · subst hyt
        exact loose_twDetachTimer _ y
      · have hsame := sameFor_twDetachTimer s.base hyt
        exact hsame.loose (h.loose y (hsame.timer ▸ hy))
    · intro hrunning
      simp_all
  · exact h

/-- The event is a call for the timer. -/
def Touches (t : Nat) : TimerEvent → Prop
  | .add x _ _ | .del x | .mod x _ => x = t
  | _ => False

instance (t : Nat) : ∀ e, Decidable (Touches t e)
  | .add x _ _ | .del x | .mod x _ => inferInstanceAs (Decidable (x = t))
  | .tick | .fire => inferInstanceAs (Decidable False)

/-- The life of a timer after it has been added: `fires` ticks from the start on it is to
fire, and it has been called before as `old` tells. -/
inductive Life (start : Nat) (t fires : Nat) (old : List (Nat × Nat)) (s : TimerSystem) : Prop
  | waits (hwaits : s.base.Waits t (start + s.ticks) (start + fires - 1) [])
      (hfirings : s.firings t = old)
  | due (hfires : s.base.Fires t) (hrunning : s.running = true) (hticks : s.ticks = fires)
      (hfirings : s.firings t = old)
  | fired (hpending : (s.base.timers t).pending = false) (hticks : fires ≤ s.ticks)
      (hfirings : s.firings t = old ++ [(fires, t)])

theorem Life.other
    {b : TwBase} (h : s.Life start t fires old) (hsame : SameFor t s.base b) (broken : Bool) :
    Life start t fires old { s with base := b, broken := broken } := by
  cases h with
  | waits hwaits hfirings => exact .waits (hsame.waits hwaits) hfirings
  | due hfires hrunning hticks hfirings =>
    refine .due ⟨?_, ?_⟩ hrunning hticks hfirings
    · intro l i
      rw [← count_eq_zero, hsame.vec, count_eq_zero]
      exact hfires.vec l i
    · rw [hsame.workList]
      exact hfires.workList
  | fired hpending hticks hfirings => exact .fired (hsame.timer ▸ hpending) hticks hfirings

/-- The tick of the deadline is the one that the timer is to fire in. -/
theorem Life.tick
    (h : s.Life start t fires old) (hfires : 0 < fires) (hrunning : s.running = false) :
    Life start t fires old
      { s with base := s.base.runTimers, ticks := s.ticks + 1, running := true } := by
  cases h with
  | waits hwaits hfirings =>
    rcases hwaits.runTimers with ⟨hnow, hdue⟩ | ⟨hlater, hwaits'⟩
    · exact .due hdue rfl (by dsimp only; omega) hfirings
    · exact .waits hwaits' hfirings
  | due hdue hrunning' =>
    rw [hrunning] at hrunning'
    cases hrunning'
  | fired hpending hticks hfirings =>
    refine .fired ?_ (Nat.le_succ_of_le hticks) hfirings
    simpa [runTimers, setVec, (cascades_timers s.base).1] using hpending

theorem firings_append (s : TimerSystem) (b : TwBase) (call : Nat × Nat) :
    firings { s with base := b, fired := s.fired ++ [call] } t =
      s.firings t ++ if call.2 = t then [call] else [] := by
  simp only [firings, filter_append, filter_cons, filter_nil, decide_eq_true_eq]

/-- The runner calls the function of the first timer of the work list. -/
theorem Life.fire (h : s.Life start t fires old) (hsound : s.Sound start) :
    s.fire.Life start t fires old := by
  simp only [TimerSystem.fire]
  split
  next hwork =>
    cases h with
    | waits hwaits hfirings => exact .waits hwaits hfirings
    | due hdue =>
      have hcount := hdue.workList
      simp [hwork] at hcount
    | fired hpending hticks hfirings => exact .fired hpending hticks hfirings
  rename_i x rest hwork
  by_cases hx : t = x
  · subst hx
    have hmem : t ∈ s.base.workList := by simp [hwork]
    cases h with
    | waits hwaits => exact absurd hmem hwaits.workList
    | due hdue hrunning hticks hfirings =>
      refine .fired (by simp [twDetachTimer, setTimer]) hticks.ge ?_
      rw [firings_append, hfirings, hticks, if_pos rfl]
    | fired hpending => exact absurd hmem (hsound.loose t hpending).workList
  have hsame := sameFor_twDetachTimer s.base hx
  have hfirings' : ∀ b, firings { s with base := b, fired := s.fired ++ [(s.ticks, x)] } t =
      s.firings t := by
    intro b
    rw [firings_append, if_neg (Ne.symm hx), append_nil]
  cases h.other hsame s.broken with
  | waits hwaits hfirings => exact .waits hwaits ((hfirings' _).trans hfirings)
  | due hdue hrunning hticks hfirings =>
    exact .due hdue hrunning hticks ((hfirings' _).trans hfirings)
  | fired hpending hticks hfirings => exact .fired hpending hticks ((hfirings' _).trans hfirings)

theorem Life.step (h : s.Life start t fires old) (hsound : s.Sound start) (hfires : 0 < fires)
    {e : TimerEvent} (he : ¬ Touches t e) :
    (step s e).Life start t fires old := by
  cases e with
  | add x delay function =>
    have hx : t ≠ x := fun heq => he heq.symm
    simp only [TimerSystem.step]
    split
    · exact h.other (SameFor.refl t _) true
    · exact h.other ((sameFor_setTimer _ hx _).trans (sameFor_twAddTimer _ hx)) _
  | del x => exact h.other (sameFor_twDelTimer _ fun heq => he heq.symm) _
  | mod x delay => exact h.other (sameFor_twModTimerPending _ (fun heq => he heq.symm) delay) _
  | tick =>
    simp only [TimerSystem.step]
    split
    · exact h
    next hrunning => exact h.tick hfires (by simpa using hrunning)
  | fire =>
    simp only [TimerSystem.step]
    split
    · exact h.fire hsound
    · exact h

theorem sound_run (jiffies : UInt64) (events : List TimerEvent) :
    (run step (init jiffies) events).Sound jiffies.toNat := by
  have hok := admissible_true step (init jiffies) events
  refine run_invariant step _ (fun s e h _ => h.step e) ?_ hok
  refine ⟨?_, ?_, fun _ => rfl⟩
  · simp [Reads, init]
  · intro x _
    exact ⟨by simp [init], by simp [init]⟩

theorem Life.run
    (h : s.Life start t fires old) (hsound : s.Sound start) (hfires : 0 < fires)
    {events : List TimerEvent} (hevents : ∀ e ∈ events, ¬ Touches t e) :
    (SmartDns.run TimerSystem.step s events).Life start t fires old := by
  induction events generalizing s with
  | nil => exact h
  | cons e events ih =>
    refine ih (h.step hsound hfires (hevents e mem_cons_self)) (hsound.step e) ?_
    exact fun e' he' => hevents e' (mem_cons_of_mem _ he')

/-- A timer that is added waits for the tick that its delay tells. -/
theorem Sound.life_add {delay : UInt64} (h : s.Sound start)
    (hpending : (s.base.timers t).pending = false) (hlow : 1 ≤ delay.toNat)
    (hhigh : delay.toNat < 2 ^ 34) :
    (TimerSystem.step s (.add t delay true)).Life start t (s.ticks + delay.toNat)
      (s.firings t) := by
  have hloose := h.loose t hpending
  have hexpires : Reads (delay + (s.base.jiffies - 1)) (start + (s.ticks + delay.toNat) - 1) := by
    have hjiffies := h.jiffies
    simp only [Reads] at hjiffies ⊢
    rw [UInt64.toNat_add, UInt64.toNat_sub, hjiffies]
    simp only [UInt64.reduceToNat]
    omega
  have hset : (s.base.setTimer t ⟨delay, true, false⟩).twAddTimer t =
      ((s.base.setTimer t ⟨delay, true, false⟩).setTimer t
        ⟨delay + (s.base.jiffies - 1), true, false⟩).twAddTimerAt t := by
    simp [twAddTimer, setTimer]
  have hwaits : ((s.base.setTimer t ⟨delay, true, false⟩).twAddTimer t).Waits t
      (start + s.ticks) (start + (s.ticks + delay.toNat) - 1) [] := by
    rw [hset]
    refine Loose.waits ⟨hloose.vec, hloose.workList⟩ h.jiffies ?_ (by omega) (by omega)
    simpa [setTimer] using hexpires
  simp only [TimerSystem.step, hpending, Bool.false_eq_true, if_false]
  exact .waits hwaits rfl

/-- A pending timer that is modified waits for the tick that its new delay tells. -/
theorem Sound.life_mod {delay : UInt64} (h : s.Sound start)
    (hpending : (s.base.timers t).pending = true) (hlow : 1 ≤ delay.toNat)
    (hhigh : delay.toNat < 2 ^ 34) :
    (TimerSystem.step s (.mod t delay)).Life start t (s.ticks + delay.toNat) (s.firings t) := by
  have hexpires : Reads (delay + s.base.jiffies - 1) (start + (s.ticks + delay.toNat) - 1) := by
    have hjiffies := h.jiffies
    simp only [Reads] at hjiffies ⊢
    rw [UInt64.toNat_sub, UInt64.toNat_add, hjiffies]
    simp only [UInt64.reduceToNat]
    omega
  simp only [TimerSystem.step, twModTimerPending]
  rw [if_pos (by simpa [setTimer] using hpending)]
  refine .waits (Loose.waits (loose_twDetachTimer _ t) h.jiffies ?_ ?_ ?_) rfl
  · simpa [twDetachTimer, setTimer] using hexpires
  · dsimp only
    omega
  · dsimp only
    omega

/-- A timer that is not pending stays so, and is not called. -/
structure Idle (t : Nat) (old : List (Nat × Nat)) (s : TimerSystem) : Prop where
  pending : (s.base.timers t).pending = false
  firings : s.firings t = old

def Adds (t : Nat) : TimerEvent → Prop
  | .add x _ _ => x = t
  | _ => False

theorem Idle.step (h : s.Idle t old)
    (hsound : s.Sound start) {e : TimerEvent} (he : ¬ Adds t e) :
    (step s e).Idle t old := by
  have hloose := hsound.loose t h.pending
  cases e with
  | add x delay function =>
    have hx : t ≠ x := fun heq => he heq.symm
    simp only [TimerSystem.step]
    split
    · exact ⟨h.pending, h.firings⟩
    have hsame := (sameFor_setTimer s.base hx ⟨delay, function, false⟩).trans
      (sameFor_twAddTimer _ hx)
    exact ⟨hsame.timer ▸ h.pending, h.firings⟩
  | del x =>
    refine ⟨?_, h.firings⟩
    simp only [TimerSystem.step, twDelTimer]
    split
    · by_cases hx : t = x
      · subst hx
        simp [twDetachTimer, setTimer]
      · exact (sameFor_twDetachTimer s.base hx).timer ▸ h.pending
    · exact h.pending
  | mod x delay =>
    refine ⟨?_, h.firings⟩
    by_cases hx : t = x
    · subst hx
      simp [TimerSystem.step, twModTimerPending, setTimer, h.pending]
    · exact (sameFor_twModTimerPending s.base hx delay).timer ▸ h.pending
  | tick =>
    simp only [TimerSystem.step]
    split
    · exact h
    · refine ⟨?_, h.firings⟩
      simpa [runTimers, setVec, (cascades_timers s.base).1] using h.pending
  | fire =>
  simp only [TimerSystem.step, TimerSystem.fire]
  split
  · split
    · exact ⟨h.pending, h.firings⟩
    rename_i x rest hwork
    have hx : t ≠ x := by
      rintro rfl
      exact hloose.workList (by simp [hwork])
    refine ⟨(sameFor_twDetachTimer s.base hx).timer ▸ h.pending, ?_⟩
    rw [firings_append, if_neg (Ne.symm hx), append_nil]
    exact h.firings
  · exact h

theorem Idle.run (h : s.Idle t old)
    (hsound : s.Sound start) {events : List TimerEvent} (hevents : ∀ e ∈ events, ¬ Adds t e) :
    (SmartDns.run TimerSystem.step s events).Idle t old := by
  induction events generalizing s with
  | nil => exact h
  | cons e events ih =>
    refine ih (h.step hsound (hevents e mem_cons_self)) (hsound.step e) ?_
    exact fun e' he' => hevents e' (mem_cons_of_mem _ he')

theorem idle_del (s : TimerSystem) (t : Nat) :
    (step s (.del t)).Idle t (s.firings t) := by
  refine ⟨?_, rfl⟩
  simp only [step, twDelTimer]
  split
  · simp [twDetachTimer, setTimer]
  next hpending => simpa using hpending

theorem broken_step (e : TimerEvent) (h : s.broken = true) :
    (step s e).broken = true := by
  cases e with
  | add t delay function =>
    simp only [step]
    split
    · rfl
    · exact h
  | del t => exact h
  | mod t delay => exact h
  | tick =>
    simp only [step]
    split <;> exact h
  | fire =>
    simp only [step, fire]
    split
    · split <;> exact h
    · exact h

theorem broken_run {events : List TimerEvent} (h : s.broken = true) :
    (SmartDns.run step s events).broken = true := by
  induction events generalizing s with
  | nil => exact h
  | cons e events ih => exact ih (broken_step e h)

/-- **Timers fire exactly on time**, and a deleted timer does not fire.  Both are said of runs
in which no pending timer was added again (`broken`): there the lists of the wheel are
corrupted, and the model does not follow them. -/
theorem timer_fires_on_time (jiffies : UInt64) (before after : List TimerEvent) (t : Nat) :
    (∀ delay : UInt64, 1 ≤ delay.toNat → delay.toNat < 2 ^ 34 → (∀ e ∈ after, ¬ Touches t e) →
      (run step (init jiffies) (before ++ .add t delay true :: after)).broken = false →
      let s := run step (init jiffies) before
      let s' := run step (init jiffies) (before ++ .add t delay true :: after)
      (s'.ticks < s.ticks + delay.toNat → s'.firings t = s.firings t) ∧
      (s'.ticks = s.ticks + delay.toNat → s'.running = true → s'.firings t = s.firings t ∨
        s'.firings t = s.firings t ++ [(s.ticks + delay.toNat, t)]) ∧
      (s.ticks + delay.toNat ≤ s'.ticks → (s'.running = true → s.ticks + delay.toNat < s'.ticks) →
        s'.firings t = s.firings t ++ [(s.ticks + delay.toNat, t)])) ∧
    ((∀ e ∈ after, ¬ Adds t e) →
      (run step (init jiffies) (before ++ .del t :: after)).broken = false →
      (run step (init jiffies) (before ++ .del t :: after)).firings t =
        (run step (init jiffies) before).firings t) := by
  have hsound := sound_run jiffies before
  constructor
  · intro delay hlow hhigh hafter hbroken
    dsimp only
    rw [run_append, run_cons] at hbroken ⊢
    generalize run step (init jiffies) before = s at *
    have hpending : (s.base.timers t).pending = false := by
      by_contra hpending
      rw [broken_run (by simp [step, hpending])] at hbroken
      cases hbroken
    have hlife := (hsound.life_add hpending hlow hhigh).run (hsound.step _) (by omega) hafter
    generalize run step (step s (.add t delay true)) after = s' at *
    cases hlife with
    | waits hwaits hfirings =>
      have hle := hwaits.le
      exact ⟨fun _ => hfirings, fun _ _ => .inl hfirings, fun hge _ => by omega⟩
    | due hdue hrunning hticks hfirings =>
      exact ⟨fun _ => hfirings, fun _ _ => .inl hfirings,
        fun _ hover => absurd (hover hrunning) (by omega)⟩
    | fired hpending' hticks hfirings =>
      exact ⟨fun hlt => by omega, fun _ _ => .inr hfirings, fun _ _ => hfirings⟩
  · intro hafter _
    rw [run_append, run_cons]
    exact ((idle_del _ t).run (hsound.step _) hafter).firings

/-- Two timers, one of which is added by the function of the other. -/
theorem timer_fires_on_time_two :
    (run step (init 7) [.add 0 1 true, .tick, .fire, .add 1 2 true, .fire, .tick, .fire, .tick,
        .fire, .fire]).fired = [(1, 0), (3, 1)] ∧
      (run step (init 7) ([.add 0 1 true, .tick, .fire] ++ .add 1 2 true ::
        [.fire, .tick, .fire, .tick, .fire, .fire])).firings 1 = [(3, 1)] := by
  refine ⟨by decide, ?_⟩
  have htheorem := (timer_fires_on_time 7 [.add 0 1 true, .tick, .fire]
    [.fire, .tick, .fire, .tick, .fire, .fire] 1).1 2 (by decide) (by decide) (by decide)
    (by decide)
  exact htheorem.2.2 (by decide) (by decide)

/-- **Modified timers fire by their new delay**, once; and a timer that is not pending is
not brought back by a modification.  As above, no pending timer was added again. -/
theorem modified_timer_fires_on_time (jiffies : UInt64) (before after : List TimerEvent) (t : Nat)
    (delay : UInt64) (hlow : 1 ≤ delay.toNat) (hhigh : delay.toNat < 2 ^ 34)
    (_hbroken : (run step (init jiffies) (before ++ .mod t delay :: after)).broken = false) :
    let s := run step (init jiffies) before
    let s' := run step (init jiffies) (before ++ .mod t delay :: after)
    let due := s.ticks + delay.toNat
    ((s.base.timers t).pending = true → (∀ e ∈ after, ¬ Touches t e) →
      s'.firings t = s.firings t ∧ (s'.ticks < due ∨ s'.ticks = due ∧ s'.running = true) ∨
        s'.firings t = s.firings t ++ [(due, t)] ∧ due ≤ s'.ticks) ∧
    ((s.base.timers t).pending = false → (∀ e ∈ after, ¬ Adds t e) →
      s'.firings t = s.firings t) := by
  have hsound := sound_run jiffies before
  dsimp only
  rw [run_append, run_cons]
  generalize run step (init jiffies) before = s at *
  constructor
  · intro hpending hafter
    cases (hsound.life_mod hpending hlow hhigh).run (hsound.step _) (by omega) hafter with
    | waits hwaits hfirings =>
      have hle := hwaits.le
      exact .inl ⟨hfirings, .inl (by omega)⟩
    | due hdue hrunning hticks hfirings => exact .inl ⟨hfirings, .inr ⟨hticks, hrunning⟩⟩
    | fired _ hticks hfirings => exact .inr ⟨hfirings, hticks⟩
  · intro hpending hafter
    have hevents : ∀ e ∈ TimerEvent.mod t delay :: after, ¬ Adds t e := by simpa [Adds] using hafter
    exact ((Idle.mk hpending rfl).run hsound hevents).firings

/-- A delay of 9 is cut down to 2. -/
theorem modified_timer_fires_on_time_sooner :
    (run step (init 7) ([.add 0 9 true] ++ .mod 0 2 :: [.tick, .fire, .tick, .fire, .fire])).firings
      0 = [(2, 0)] := by
  have h := (modified_timer_fires_on_time 7 [.add 0 9 true] [.tick, .fire, .tick, .fire, .fire] 0 2
    (by decide) (by decide) (by decide)).1 (by decide) (by decide)
  rcases h with ⟨-, h⟩ | ⟨h, -⟩
  · exact absurd h (by decide)
  · exact h

end TimerSystem

end SmartDns.Timer
