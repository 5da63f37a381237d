import SmartDns.Client.QueryPhases

/-!
# The steps of a query

Every step of an orderly thread keeps what the two threads know of the query:
first the steps of the start, then the send loops of both threads, then the
steps of the thread of the client.
-/

namespace SmartDns.Client

open Starter
namespace QuerySystem

variable {n v : Nat} {s' : QuerySystem} {num : ℤ}

variable {s : QuerySystem}

section Starts

theorem living_hashing (h : s.Living) (hs : s.starter = .hashing) : s.starterStep.Living := by
  obtain ⟨hq, hw, htimeouts⟩ := h.owning.fresh (by rw [hs]; rfl)
  have hearly := h.counting.not_early (by rw [hs]; rfl)
  have hremovals := h.owning.removals
  have hended := h.owning.ended
  simp only [hs, entered, hq] at hremovals hended
  rw [starterStep, hs]
  refine ⟨⟨?_, ?_⟩, ⟨?_, ?_, ?_, ?_, ?_, h.owning.late, h.owning.misused⟩, ⟨?_, ?_, ?_, ?_, ?_, ?_⟩⟩
  · simp [hearly]
  · simp [hq, hw, Allowed, phase, Worker.phase]
  · simp
  · refine ⟨?_, ?_, ?_, ?_⟩
    · simp [hq, hw]
    · simp [hq, hw]
    · simp [hq]
    · simp [hq]
  · simpa [hq] using hremovals
  · simpa [hq] using hended
  · simp [hq]
  · simp [hq]
  · simp
  · simp [hq]
  · simp [hq, dnsQueryRetry]
  · simp [hq, dnsQueryRetry]
  · simp [hq, hw, htimeouts]

theorem living_getting (h : s.Living) (hs : s.starter = .getting) : s.starterStep.Living := by
  have hallowed := h.counting.allowed
  have hhashed : s.q.hashed = true := by
    rw [hs] at hallowed
    cases hw : s.worker.phase <;> simp [Allowed, phase, hw] at hallowed
    · exact hallowed.1
    · exact hallowed.1
  obtain ⟨hentered, hfreed⟩ := h.owning.live (.inl (by simp [hhashed]))
  have hstep : s.starterStep
      = { s with q := { s.q with refcnt := s.q.refcnt + 1 }, starter := .opening } := by
    rw [starterStep, hs]
    simp only [get, touch_eq hfreed]
  rw [hstep]
  refine ⟨?_, ⟨?_, ?_, ?_, h.owning.ended, h.owning.callback, h.owning.late, h.owning.misused⟩, ?_⟩
  · refine h.counting.frame rfl ?_ rfl rfl ?_ ?_ rfl
    · simp [hs]
    · simp [hs]
    · simp [hs, phase]
  · simp
  · have haccount := h.owning.account
    rw [hs] at haccount
    have htaken := haccount.take (by simp [hhashed])
    refine htaken.cast ?_ rfl ?_ ?_
    · simp
    · simp only [owns]
      omega
    · simp
  · simpa [hs] using h.owning.removals
  · exact h.listing.frame_starter ⟨rfl, rfl, rfl, rfl⟩ (by simp) (by simp [hs, phase]) rfl

theorem living_opening (h : s.Living) (hs : s.starter = .opening) : s.starterStep.Living := by
  have hstep : s.starterStep = { s with
      q := { s.q with dnsRequestSent := s.q.dnsRequestSent + 1 }
      starter := .sending ⟨0, false⟩ } := by
    rw [starterStep, hs]
    simp only [count, h.owning.touch_eq (by simp [hs])]
  have hearly := h.counting.not_early (by rw [hs]; rfl)
  have hallowed := h.counting.allowed
  rw [hstep]
  refine h.starter_moves rfl rfl ⟨by simp [hearly], ?_⟩ (by simp [hs, phase])
  rw [hs] at hallowed
  cases hw : s.worker.phase <;> simp only [Allowed, phase, hw] at hallowed ⊢ <;>
  · obtain ⟨hloops, hpending⟩ := Worker.not_busy (w := s.worker) (by simp [hw])
    simp [hloops, hpending, hallowed, -Worker.loops, -Worker.pending]

theorem living_removing (h : s.Living) (hs : s.starter = .removing) : s.starterStep.Living := by
  obtain ⟨hentered, hfreed⟩ := h.owning.live (.inl (by simp [hs]))
  have hstep : s.starterStep = { s with
      q := { s.q with hashed := false, listed := false }
      removals := s.removals + 1
      starter := .removeRelease } := by
    rw [starterStep, hs]
    simp only [remove, touch_eq hfreed]
  have hearly := h.counting.not_early (by rw [hs]; rfl)
  have hallowed := h.counting.allowed
  rw [hs] at hallowed
  have hhashed : s.q.hashed = true := by
    cases hw : s.worker.phase <;> simp [Allowed, phase, hw] at hallowed
    · exact hallowed.1
    · exact hallowed.1
  rw [hstep]
  refine ⟨⟨?_, ?_⟩, ?_, ?_⟩
  · simp [hearly]
  · cases hw : s.worker.phase <;> simp [Allowed, phase, hw] at hallowed ⊢
    exact hallowed.2.le
  · refine h.owning.frame hentered rfl ⟨rfl, rfl, rfl⟩ ?_ ?_ ?_ ⟨rfl, rfl, rfl⟩
    · simp [hs, hhashed]
    · simp [hs]
    · simp [hhashed]
  · refine h.listing.unhashed rfl rfl rfl rfl ?_
    intro hw
    simp [Allowed, phase, Worker.phase, hw] at hallowed

/-- A thread releases a reference and goes on, to the end of the query if it was the last. -/
theorem Owning.release
    (h : s.Owning) {starter : Starter} {worker : Worker} (hlive : s.starter.entered = true)
    (hentered : starter.entered = true)
    (howns : s.starter.owns + s.worker.owns = starter.owns + worker.owns + 1)
    (hfrees : starter.frees + worker.frees
      = s.starter.frees + s.worker.frees + if s.q.refcnt - 1 = 0 then 1 else 0) :
    ({ s with
      q := { s.q with refcnt := s.q.refcnt - 1 }
      starter := starter
      worker := worker } : QuerySystem).Owning := by
  refine ⟨?_, ?_, ?_, h.ended, h.callback, h.late, h.misused⟩
  · intro hno
    rw [hentered] at hno
    exact absurd hno (by simp)
  · have hdropped : Accounted (s.starter.entered = true ∧ s.q.freed = false)
        (s.q.refcnt - 1) (s.q.hashed.toNat + starter.owns + worker.owns)
        (s.starter.frees + s.worker.frees + if s.q.refcnt - 1 = 0 then 1 else 0) := by
      apply Accounted.drop
      exact h.account.cast Iff.rfl rfl (by omega) rfl
    refine hdropped.cast ?_ rfl rfl hfrees
    rw [hlive, hentered]
  · have hold := h.removals
    rw [hlive] at hold
    rw [hentered]
    exact hold

theorem living_removeRelease (h : s.Living) (hs : s.starter = .removeRelease) :
    s.starterStep.Living := by
  obtain ⟨hentered, hfreed⟩ := h.owning.live (.inl (by simp [hs]))
  have hstep : s.starterStep = { s with
      q := { s.q with refcnt := s.q.refcnt - 1 }
      starter := if s.q.refcnt - 1 = 0 then .finishing .enlisting else .enlisting } := by
    rw [starterStep, hs]
    simp only [release, touch_eq hfreed]
  have hphase : ∀ b : Prop, [Decidable b] →
      (if b then finishing .enlisting else .enlisting).phase = .closed ∧
      (if b then finishing .enlisting else .enlisting).pending = false ∧
      (if b then finishing .enlisting else .enlisting) ≠ .releasing ∧
      (if b then finishing .enlisting else .enlisting) ≠ .done := by
    intro b _
    split <;> simp [phase]
  have hallowed := h.counting.allowed
  have hearly := h.counting.not_early (by rw [hs]; rfl)
  rw [hs] at hallowed
  rw [hstep]
  refine ⟨⟨by simp [hearly], ?_⟩, ?_, ?_⟩
  · rw [(hphase _).1]
    cases hw : s.worker.phase <;> simp [Allowed, phase, hw] at hallowed ⊢
    · simp [hallowed]
    · simp [hallowed]
  · refine h.owning.release hentered ?_ ?_ ?_ <;> split <;> simp [hs] <;> omega
  refine h.listing.frame ⟨rfl, rfl, rfl, rfl⟩ ?_ (by simp [hs, phase])
    (fun hw => hw) (fun hw => hw)
  rintro (hno | hno)
  · exact absurd hno (hphase _).2.2.1
  · exact absurd hno (hphase _).2.2.2

/-- The query is put into the list of the periodic retry, if it is still there. -/
theorem living_enlisting (h : s.Living) (hs : s.starter = .enlisting) : s.starterStep.Living := by
  obtain ⟨hentered, hfreed⟩ := h.owning.live (.inl (by simp [hs]))
  have hstep : s.starterStep = { s with
      q := { s.q with listed := s.q.listed || s.q.hashed }
      starter := .releasing } := by
    rw [starterStep, hs]
    simp only [touch_eq hfreed]
  rw [hstep]
  refine ⟨?_, ?_, ?_⟩
  · refine h.counting.frame rfl ?_ rfl rfl ?_ ?_ rfl
    · simp [hs]
    · simp [hs]
    · simp [hs, phase]
  · refine h.owning.frame hentered rfl ⟨rfl, rfl, rfl⟩ ?_ ?_ rfl ⟨rfl, rfl, rfl⟩
    · simp [hs]
    · simp [hs]
  refine ⟨?_, ?_, fun _ => rfl, h.listing.positive, h.listing.nonneg, h.listing.budget⟩
  · intro hlisted
    rcases Bool.or_eq_true_iff.mp hlisted with hold | hold
    · exact h.listing.hashed hold
    · exact hold
  · intro hhashed _
    exact Bool.or_eq_true_iff.mpr (.inr hhashed)

theorem living_releasing (h : s.Living) (hs : s.starter = .releasing) : s.starterStep.Living := by
  obtain ⟨hentered, hfreed⟩ := h.owning.live (.inl (by simp [hs]))
  have hstep : s.starterStep = { s with
      q := { s.q with refcnt := s.q.refcnt - 1 }
      starter := if s.q.refcnt - 1 = 0 then .finishing .done else .done } := by
    rw [starterStep, hs]
    simp only [release, touch_eq hfreed]
  have hphase : ∀ b : Prop, [Decidable b] →
      (if b then finishing .done else .done).phase = .closed ∧
      (if b then finishing .done else .done).pending = false ∧
      (if b then finishing .done else .done).loops = 0 := by
    intro b _
    split <;> simp [phase]
  rw [hstep]
  refine ⟨?_, ?_, ?_⟩
  · refine h.counting.frame rfl ?_ rfl rfl ?_ ?_ rfl
    · rw [(hphase _).2.1, hs]
      rfl
    · simp only [outstanding, loops, unanswered, (hphase _).2.1, (hphase _).2.2, hs]
      rfl
    · rw [(hphase _).1, hs]
      rfl
  · refine h.owning.release hentered ?_ ?_ ?_ <;> split <;> simp [hs] <;> omega
  · exact h.listing.frame ⟨rfl, rfl, rfl, rfl⟩ (fun _ => .inl hs) (fun _ => (hphase _).1)
      (fun hw => hw) (fun hw => hw)

theorem Owning.unused (h : s.Owning) (hfrees : 0 < s.starter.frees + s.worker.frees) :
    s.q.hashed = false ∧ s.starter.owns = 0 ∧ s.worker.owns = 0 := by
  have hzero := h.account.uses_eq_zero hfrees
  refine ⟨?_, by omega, by omega⟩
  by_contra hhashed
  simp [Bool.eq_true_of_not_eq_false hhashed] at hzero

theorem Owning.finish (h : s.Owning) {starter : Starter} {worker : Worker}
    (hfrees : s.starter.frees + s.worker.frees = starter.frees + worker.frees + 1)
    (hentered : starter.entered = s.starter.entered)
    (howns : starter.owns = s.starter.owns ∧ worker.owns = s.worker.owns) :
    ({ s with
      q := { s.q with hashed := false, listed := false, freed := true }
      ended := s.ended + 1
      starter := starter
      worker := worker } : QuerySystem).Owning := by
  obtain ⟨hlive, hfreed⟩ := h.live (.inr (by omega))
  obtain ⟨hhashed, hstarter, hworker⟩ := h.unused (by omega)
  refine ⟨?_, ?_, ?_, ?_, h.callback, h.late, h.misused⟩
  · intro hno
    rw [hentered, hlive] at hno
    exact absurd hno (by simp)
  · have hfree : Accounted False s.q.refcnt (s.q.hashed.toNat + s.starter.owns + s.worker.owns)
        (starter.frees + worker.frees) := by
      apply Accounted.free
      exact h.account.cast Iff.rfl rfl rfl (by omega)
    refine hfree.cast ?_ rfl ?_ rfl
    · simp
    · rw [hhashed, howns.1, howns.2]
  · have hold := h.removals
    rw [hlive, hhashed] at hold
    rw [hentered, hlive]
    exact hold
  · have hold := h.ended
    rw [hfreed] at hold
    simp [hold]

theorem living_finishing (h : s.Living) {next : Starter} (hs : s.starter = .finishing next) :
    s.starterStep.Living := by
  obtain ⟨hentered, hfreed⟩ := h.owning.live (.inr (by rw [hs, frees]; omega))
  obtain ⟨hhashed, howns, hworker⟩ := h.owning.unused (by rw [hs, frees]; omega)
  have hallowed := h.counting.allowed
  have hnext : next = .done := by
    rw [hs] at hallowed howns
    cases next with
    | done => rfl
    | enlisting => simp at howns
    | _ => cases hw : s.worker.phase <;> simp [Allowed, phase, hw] at hallowed
  subst hnext
  have hstep : s.starterStep = { s with
      q := { s.q with hashed := false, listed := false, freed := true }
      ended := s.ended + 1
      starter := .done
      worker := s.worker } := by
    rw [starterStep, hs]
    simp [QuerySystem.finish, touch_eq hfreed, h.owning.callback]
  rw [hstep]
  refine ⟨?_, ?_, ?_⟩
  · refine h.counting.frame rfl ?_ hhashed.symm rfl ?_ ?_ rfl
    · simp [hs]
    · simp [hs]
    · simp [hs, phase]
  · refine h.owning.finish ?_ ?_ ⟨?_, rfl⟩
    · rw [hs, frees, frees]
      · omega
      · simp
    · rw [hs]
      rfl
    · rw [hs]
      rfl
  · refine h.listing.unhashed rfl rfl rfl rfl ?_
    intro hw
    rw [hw] at hworker
    simp at hworker

end Starts

section Loops

theorem living_send_starter (h : s.Living) : (s.send .starter).Living := by
  rw [send]
  split
  next n hs =>
    have hearly := h.counting.not_early (by rw [hs]; rfl)
    simp only [count, h.owning.touch_eq (by simp [hs])]
    refine h.starter_moves rfl rfl ⟨by simp [hearly], ?_⟩ (by simp [hs, phase])
    have hallowed := h.counting.allowed
    have hout : ({ s with
        q := { s.q with dnsRequestSent := s.q.dnsRequestSent + 1 }
        starter := .sending ⟨n, true⟩ } : QuerySystem).outstanding = s.outstanding := by
      simp [hs, hearly]
      omega
    rw [hout]
    rw [hs] at hallowed
    cases hw : s.worker.phase <;> simp only [Allowed, phase, hw] at hallowed ⊢ <;>
      exact hallowed
  next => exact h

theorem living_sent_starter (h : s.Living) {ok : Bool} (hok : ok = false → s.early = false) :
    (s.sent ok .starter).Living := by
  rw [sent]
  split
  next n hs =>
    simp only [count, h.owning.touch_eq (by simp [hs])]
    refine h.starter_moves rfl rfl ⟨by simp, ?_⟩ (by simp [hs, phase])
    have hallowed := h.counting.allowed
    -- a failed send has not been answered, so nothing outstanding is lost
    have hout : s.outstanding ≤ ({ s with
        q := { s.q with dnsRequestSent := s.q.dnsRequestSent + if ok then 0 else -1 }
        starter := .sending ⟨if ok then n + 1 else n, false⟩
        early := false } : QuerySystem).outstanding := by
      cases hk : ok with
      | true =>
        cases he : s.early <;>
          simp [hs, he]
      | false =>
        simp [hs, hok hk]
        omega
    rw [hs] at hallowed
    generalize ({ s with
        q := { s.q with dnsRequestSent := s.q.dnsRequestSent + if ok then 0 else -1 }
        starter := .sending ⟨if ok then n + 1 else n, false⟩
        early := false } : QuerySystem).outstanding = o at hout
    cases hw : s.worker.phase <;> simp only [Allowed, phase, hw] at hallowed ⊢
    · exact ⟨by omega, fun hh => by have := hallowed.2 hh; omega⟩
    · exact ⟨hallowed.1, by omega⟩
    · exact ⟨hallowed.1, by omega, hallowed.2.2⟩
    · exact ⟨hallowed.1, by omega⟩
  next => exact h

theorem outstanding_of_sending (hs : s.starter = .sending ⟨n, false⟩) :
    s.outstanding = s.q.dnsRequestSent - 1 - s.worker.loops - s.worker.pending.toNat := by
  simp [hs]
  omega

/-- The start decides for the removal: the other thread does not. -/
theorem allowed_removing
    (h : s.Counting) (hs : s.starter = .sending ⟨n, false⟩) (hok : s.Orderly (.close .starter))
    (hzero : s.q.dnsRequestSent - 1 = 0) (o : ℤ) :
    Allowed s.q.hashed 0 o .removing s.worker.phase := by
  have hallowed := h.allowed
  have hout := outstanding_of_sending hs
  rw [hs] at hallowed
  cases hw : s.worker.phase <;> simp only [Allowed, phase, hw] at hallowed ⊢
  · obtain ⟨hloops, hpending⟩ := Worker.not_busy (w := s.worker) (by simp [hw])
    rw [hloops, hpending] at hout
    refine ⟨?_, trivial⟩
    by_contra hhashed
    have := hallowed.2 (Bool.eq_false_of_not_eq_true hhashed)
    omega
  · exact ⟨hallowed.1, trivial⟩
  · cases hw' : s.worker with
    | calling v num =>
      simp only [Orderly, hw'] at hok
      omega
    | removing look => cases look <;> simp [Worker.phase, hw'] at hw
    | _ => simp [Worker.phase, hw'] at hw
  · have := s.worker.loops_nonneg
    omega

theorem allowed_closed
    (h : s.Counting) (hs : s.starter = .sending ⟨n, false⟩) (hzero : s.q.dnsRequestSent - 1 ≠ 0)
    (sent : ℤ) :
    Allowed s.q.hashed sent s.outstanding .closed s.worker.phase := by
  have hallowed := h.allowed
  have hout := outstanding_of_sending hs
  rw [hs] at hallowed
  have hleft : s.worker.phase ≠ .busy → s.outstanding ≠ 0 := by
    intro hw
    obtain ⟨hloops, hpending⟩ := Worker.not_busy hw
    rw [hout, hloops, hpending]
    simpa using hzero
  cases hw : s.worker.phase <;> simp only [Allowed, phase, hw] at hallowed ⊢
  · have := hleft (by simp [hw])
    exact fun _ => by omega
  · have := hleft (by simp [hw])
    refine ⟨fun _ => by omega, fun hno => ?_⟩
    rw [hallowed.1] at hno
    exact absurd hno (by simp)
  · have := hleft (by simp [hw])
    exact ⟨hallowed.1, hallowed.2.1, fun _ => by omega⟩
  · exact hallowed

theorem living_close_starter (h : s.Living) (hok : s.Orderly (.close .starter)) :
    (s.close .starter).failed = true ∨ (s.close .starter).Living := by
  rw [close]
  split
  next n hs =>
    split
    · exact .inl rfl
    right
    have hearly := h.counting.not_early (by rw [hs]; rfl)
    simp only [count, h.owning.touch_eq (by simp [hs])]
    by_cases hzero : s.q.dnsRequestSent - 1 = 0
    · rw [if_pos hzero]
      refine h.starter_moves rfl rfl ⟨by simp [hearly], ?_⟩ (by simp [hs, phase])
      have hsent : s.q.dnsRequestSent + -1 = 0 := hzero
      rw [hsent]
      exact allowed_removing h.counting hs hok hzero _
    rw [if_neg hzero]
    refine h.starter_moves rfl rfl ⟨by simp [hearly], ?_⟩ (by simp [hs, phase])
    have hout : ({ s with
        q := { s.q with dnsRequestSent := s.q.dnsRequestSent + -1 }
        starter := .enlisting } : QuerySystem).outstanding = s.outstanding := by
      simp [hs]
      omega
    rw [hout]
    exact allowed_closed h.counting hs hzero _
  next => exact .inr h

/-- A busy thread of the client means a query in the table with sends outstanding. -/
theorem Counting.busy (h : s.Counting) (hw : s.worker.phase = .busy) :
    s.q.hashed = true ∧ 1 ≤ s.outstanding ∧
      (s.starter.phase = .opened ∨ s.starter.phase = .closed) := by
  have hallowed := h.allowed
  cases hs : s.starter.phase <;> simp [Allowed, hs, hw] at hallowed ⊢
  · exact hallowed
  · exact hallowed

/-- A busy thread of the client that stays so, without losing a send. -/
theorem Counting.stays_busy
    (h : s.Counting) (hw : s.worker.phase = .busy) (hw' : s'.worker.phase = .busy)
    (hstart : s'.starter = s.starter) (hearly : s'.early = s.early)
    (hhashed : s'.q.hashed = s.q.hashed) (hout : s.outstanding ≤ s'.outstanding) :
    s'.Counting := by
  obtain ⟨hin, hone, hphase⟩ := h.busy hw
  constructor
  · rw [hearly, hstart]
    exact h.early
  rw [hw', hstart, hhashed]
  rcases hphase with hphase | hphase
  · rw [hphase]
    exact ⟨hin, by omega⟩
  · rw [hphase]
    exact ⟨hin, by omega⟩

theorem living_send_worker (h : s.Living) : (s.send .worker).Living := by
  rw [send]
  split
  next n hw =>
    simp only [count, h.owning.touch_eq (by simp [hw])]
    refine h.worker_moves rfl rfl ?_ (by simp [hw])
    refine h.counting.stays_busy (by rw [hw]; rfl) rfl rfl rfl rfl ?_
    simp [hw]
    omega
  next => exact h

theorem living_sent_worker (h : s.Living) (ok : Bool) : (s.sent ok .worker).Living := by
  rw [sent]
  split
  next n hw =>
    simp only [count, h.owning.touch_eq (by simp [hw])]
    refine h.worker_moves rfl rfl ?_ (by simp [hw])
    refine h.counting.stays_busy (by rw [hw]; rfl) rfl rfl rfl rfl ?_
    cases ok <;>
      simp [hw] <;> omega
  next => exact h

/-- The thread of the client goes on with nothing more than its own release. -/
theorem Counting.becomes_quiet
    (h : s.Counting) (hphase : s.starter.phase = .opened ∨ s.starter.phase = .closed)
    (hw' : s'.worker.phase = .quiet) (hstart : s'.starter = s.starter)
    (hearly : s'.early = s.early) (hone : 1 ≤ s'.outstanding) :
    s'.Counting := by
  constructor
  · rw [hearly, hstart]
    exact h.early
  rw [hw', hstart]
  rcases hphase with hphase | hphase
  · rw [hphase]
    exact ⟨by omega, fun _ => by omega⟩
  · rw [hphase]
    exact fun _ => by omega

theorem living_close_worker (h : s.Living) : (s.close .worker).Living := by
  rw [close]
  split
  next n hw =>
    obtain ⟨hin, hone, hphase⟩ := h.counting.busy (by rw [hw]; rfl)
    -- a send is outstanding, so the removal at the end of the loop does not happen
    have hsent : ¬ (s.q.dnsRequestSent - 1 = 0 ∧ 0 < n) := by
      rintro ⟨hzero, -⟩
      have hnonneg := s.starter.loops_nonneg
      simp only [outstanding, loops, unanswered, hw, Worker.loops] at hone
      omega
    rw [if_neg hsent]
    simp only [count, h.owning.touch_eq (by simp [hw])]
    refine h.worker_moves rfl rfl ?_ (by simp [hw])
    refine h.counting.becomes_quiet hphase rfl rfl rfl ?_
    simp [hw] at hone ⊢
    omega
  next => exact h

end Loops

section Work

/-- `_dns_client_get_request` finds the query, or the periodic retry does. -/
theorem Owning.workerGet
    (h : s.Owning) (hw : s.worker = .idle) (hhashed : s.q.hashed = true) {worker : Worker}
    (howns : worker.owns = 1) (hfrees : worker.frees = 0) (timeouts : Nat) :
    ({ s with
      q := { s.q with refcnt := s.q.refcnt + 1 }
      worker := worker
      timeouts := timeouts } : QuerySystem).Owning := by
  obtain ⟨hentered, hfreed⟩ := h.live (.inl (by simp [hhashed]))
  refine ⟨?_, ?_, h.removals, h.ended, h.callback, h.late, h.misused⟩
  · intro hno
    rw [hentered] at hno
    exact absurd hno (by simp)
  have haccount := h.account
  rw [hw] at haccount
  refine (haccount.take (by simp [hhashed])).cast Iff.rfl rfl ?_ ?_
  · rw [howns]
    rfl
  · rw [hfrees]
    rfl

theorem living_reply (h : s.Living) (v : Nat) (refused : Bool) :
    (s.step (.reply v refused)).Living := by
  rw [step]
  split
  next hready =>
    obtain ⟨hw, hhashed⟩ := hready
    obtain ⟨hentered, hfreed⟩ := h.owning.live (.inl (by simp [hhashed]))
    simp only [get, touch_eq hfreed]
    refine ⟨⟨h.counting.early, ?_⟩, ?_, ?_⟩
    · have hout : ({ s with
          q := { s.q with refcnt := s.q.refcnt + 1 }
          worker := .counting v refused } : QuerySystem).outstanding = s.outstanding := by
        simp [hw]
      rw [hout]
      have hallowed := h.counting.allowed
      rw [hw] at hallowed
      cases hs : s.starter.phase <;> simp only [Allowed, Worker.phase, hs] at hallowed ⊢
      · simp [hallowed.1] at hhashed
      · exact hallowed
      · exact ⟨hhashed, hallowed.1⟩
      · exact hallowed
      · simp [hallowed] at hhashed
      · exact ⟨hallowed, fun hno => by simp [hno] at hhashed⟩
    · exact h.owning.workerGet hw hhashed rfl rfl s.timeouts
    · exact h.listing.frame_worker ⟨rfl, rfl, rfl, rfl⟩ rfl (by simp [hw])
  next => exact h

theorem living_timeout (h : s.Living) : (s.step .timeout).Living := by
  rw [step]
  split
  next hready =>
    obtain ⟨hw, hlisted⟩ := hready
    have hhashed := h.listing.hashed hlisted
    obtain ⟨hentered, hfreed⟩ := h.owning.live (.inl (by simp [hhashed]))
    simp only [get, touch_eq hfreed]
    refine ⟨⟨h.counting.early, ?_⟩, ?_, ?_⟩
    · have hallowed := h.counting.allowed
      rw [hw, h.listing.closed hlisted] at hallowed
      rw [h.listing.closed hlisted]
      refine ⟨hhashed, ?_⟩
      have hone : 1 ≤ s.outstanding := hallowed hhashed
      simpa [hw] using hone
    · exact h.owning.workerGet hw hhashed rfl rfl _
    have hpositive := h.listing.positive hhashed (by simp [hw])
    have hbudget := h.listing.budget
    rw [if_neg (by simp [hw])] at hbudget
    refine ⟨h.listing.hashed, h.listing.listed, h.listing.closed, fun _ _ => hpositive,
      h.listing.nonneg, ?_⟩
    simp only [if_true]
    omega
  next => exact h

/-- The state after a reply has been counted. -/
def counted (s : QuerySystem) (v : Nat) (worker : Worker) : QuerySystem :=
  { s with
    q := { s.q with
      dnsRequestSent := s.q.dnsRequestSent - 1
      repliedMap := v :: s.q.repliedMap }
    early := s.early || (s.starter.pending && s.outstanding ≤ 0)
    worker := worker }

/-- A reply takes from the sends outstanding, or else marks the one in progress. -/
theorem outstanding_take {sent loops o : ℤ} {pending early : Bool}
    (hold : o = sent - loops - (pending && !early).toNat) (hlt : loops < sent) :
    0 ≤ sent - 1 - loops - (pending && !(early || (pending && decide (o ≤ 0)))).toNat := by
  cases pending with
  | false =>
    simp at hold ⊢
    omega
  | true =>
  cases early with
  | true =>
    simp at hold ⊢
    omega
  | false =>
    by_cases hzero : o ≤ 0
    · simp [hzero] at hold ⊢
      omega
    · simp [hzero] at hold ⊢
      omega

theorem counting_counted (h : s.Counting) {refused : Bool} (hw : s.worker = .counting v refused)
    (hloops : s.q.hashed = true → s.loops < s.q.dnsRequestSent) :
    (s.counted v (if s.q.dnsRequestSent - 1 < 0 then .releasing
      else .calling v (s.q.dnsRequestSent - 1))).Counting := by
  have hallowed := h.allowed
  rw [hw] at hallowed
  have hstart := s.starter.loops_nonneg
  constructor
  · intro he
    rcases Bool.or_eq_true_iff.mp he with hold | hnew
    · exact h.early hold
    · exact (Bool.and_eq_true_iff.mp hnew).1
  · cases hhashed : s.q.hashed with
    | false =>
      rw [hhashed] at hallowed
      have hsent := hallowed.sent_nonpos
      rw [if_pos (by omega)]
      cases hs : s.starter.phase <;>
        simp [Allowed, Worker.phase, counted, hs, hhashed] at hallowed ⊢
    | true =>
      have hlt : s.starter.loops < s.q.dnsRequestSent := by
        have := hloops hhashed
        simpa [loops, hw] using this
      rw [if_neg (by omega)]
      rw [hhashed] at hallowed
      have hold : s.outstanding
          = s.q.dnsRequestSent - s.starter.loops - (s.starter.pending && !s.early).toNat := by
        simp [hw]
      have hnew : (s.counted v (.calling v (s.q.dnsRequestSent - 1))).outstanding
          = s.q.dnsRequestSent - 1 - s.starter.loops - (s.starter.pending &&
            !(s.early || (s.starter.pending && decide (s.outstanding ≤ 0)))).toNat := by
        rw [outstanding, loops, unanswered, counted]
        simp
      rcases hallowed.counting_phase (by omega) with ⟨hs, ho⟩ | ⟨hs, ho⟩
      · have hloop : s.starter.loops = 1 := opened hs
        have hphase : (s.counted v (.calling v (s.q.dnsRequestSent - 1))).starter.phase
            = .opened := hs
        rw [hphase]
        refine ⟨hhashed, ?_, by omega⟩
        rw [hnew]
        exact outstanding_take hold hlt
      obtain ⟨hloop, hpending⟩ := not_opened (w := s.starter) (by simp [hs])
      have hphase : (s.counted v (.calling v (s.q.dnsRequestSent - 1))).starter.phase
          = .closed := hs
      rw [hphase]
      rw [hpending, hloop] at hnew
      simp only [Bool.false_and, Bool.toNat_false] at hnew
      exact ⟨hhashed, by omega, fun hne => by omega⟩

section

variable (h : s.Living)
include h

theorem living_counting {refused : Bool} (hw : s.worker = .counting v refused)
    (hok : s.Orderly (.step .worker)) :
    (s.countReply v refused).Living := by
  obtain ⟨hentered, hfreed⟩ := h.owning.live (.inl (by simp [hw]))
  rw [countReply]
  split
  next hrefused =>
    rw [touch_eq hfreed]
    refine h.worker_moves rfl rfl ⟨h.counting.early, ?_⟩ (by simp [hw])
    have hallowed := h.counting.allowed
    rw [hw] at hallowed
    have hout : ({ s with worker := .releasing } : QuerySystem).outstanding = s.outstanding := by
      simp [hw]
    rw [hout]
    exact hallowed.quiet_of_counting
  next hcounted =>
  push Not at hcounted
  simp only [Orderly, hw] at hok
  have hcounting := counting_counted h.counting hw
    (hok (Bool.eq_false_of_not_eq_true hcounted.1) hcounted.2)
  simp only [count, touch_eq hfreed]
  refine h.worker_moves rfl rfl hcounting ?_
  split <;> simp [hw]

theorem living_retrying (hw : s.worker = .retrying) : s.workerStep.Living := by
  obtain ⟨hentered, hfreed⟩ := h.owning.live (.inl (by simp [hw]))
  obtain ⟨hhashed, -, -⟩ := h.counting.busy (by rw [hw]; rfl)
  have hpositive := h.listing.positive hhashed (by simp [hw])
  have hbudget := h.listing.budget
  rw [workerStep, hw]
  simp only [touch_eq hfreed]
  refine ⟨h.counting.stays_busy (by rw [hw]; rfl) ?_ rfl rfl rfl ?_,
    h.owning.frame hentered hentered ⟨rfl, rfl, rfl⟩ ?_ ?_ rfl ⟨rfl, rfl, rfl⟩,
    ⟨h.listing.hashed, h.listing.listed, h.listing.closed, ?_, ?_, ?_⟩⟩
  · split <;> rfl
  · split <;> simp [hw]
  · split <;> simp [hw]
  · split <;> simp [hw]
  · split
    · exact fun _ hno => absurd rfl hno
    next hstop =>
      intro _ _
      simp only
      omega
  · simp only
    omega
  · simp only
    split <;> omega

theorem living_worker_opening (hw : s.worker = .opening) : s.workerStep.Living := by
  rw [workerStep, hw]
  simp only [count, h.owning.touch_eq (by simp [hw])]
  refine h.worker_moves rfl rfl ?_ (by simp [hw])
  refine h.counting.stays_busy (by rw [hw]; rfl) rfl rfl rfl rfl ?_
  simp [hw]

theorem living_worker_removing {look : Bool} (hw : s.worker = .removing look) :
    s.workerStep.Living := by
  obtain ⟨hentered, hfreed⟩ := h.owning.live (.inl (by simp [hw]))
  have hcounting : s.q.hashed = true ∧ ({ s with
      q := { s.q with hashed := false, listed := false }
      removals := s.removals + 1
      worker := .removeRelease look } : QuerySystem).Counting := by
    cases look with
    | true =>
      obtain ⟨hhashed, hone, hphase⟩ := h.counting.busy (by rw [hw]; rfl)
      refine ⟨hhashed, h.counting.becomes_quiet hphase rfl rfl rfl ?_⟩
      simpa [hw] using hone
    | false =>
      have hallowed := h.counting.allowed
      rw [hw] at hallowed
      cases hs : s.starter.phase <;> simp [Allowed, Worker.phase, hs] at hallowed
      refine ⟨hallowed, h.counting.early, ?_⟩
      simp [Allowed, Worker.phase, hs]
  obtain ⟨hhashed, hcounting⟩ := hcounting
  rw [workerStep, hw]
  simp only [remove, touch_eq hfreed]
  refine ⟨hcounting, ?_, ?_⟩
  · refine h.owning.frame hentered hentered ⟨rfl, rfl, rfl⟩ ?_ ?_ ?_ ⟨rfl, rfl, rfl⟩
    · simp [hw, hhashed]
      omega
    · simp [hw]
    · simp [hhashed]
  · exact h.listing.unhashed rfl rfl rfl rfl (by simp [hw])

/-- A release by the thread of the client: `next` is where it goes on. -/
theorem living_workerRelease {next : Worker} (hlive : s.starter.entered = true)
    (hquiet : s.worker.phase = .quiet ∧ s.worker ≠ .retrying)
    (hnext : next.phase = .quiet ∧ next ≠ .retrying)
    (howns : s.worker.owns = next.owns + 1) (hfinish : (Worker.finishing next).owns = next.owns)
    (hfrees : s.worker.frees = 0 ∧ next.frees = 0) :
    ({ s with
      q := { s.q with refcnt := s.q.refcnt - 1 }
      worker := if s.q.refcnt - 1 = 0 then .finishing next else next } : QuerySystem).Living := by
  have hphase : (if s.q.refcnt - 1 = 0 then Worker.finishing next else next).phase = .quiet := by
    split
    · rfl
    · exact hnext.1
  have hsame : s.worker.loops = 0 ∧ s.worker.pending = false := Worker.not_busy (by simp [hquiet.1])
  have hsame' := Worker.not_busy (w := if s.q.refcnt - 1 = 0 then Worker.finishing next else next)
    (by simp [hphase])
  refine ⟨?_, h.owning.release hlive hlive ?_ ?_, ?_⟩
  · refine h.counting.frame rfl rfl rfl rfl ?_ rfl ?_
    · simp only [outstanding, loops, unanswered, hsame, hsame']
    · rw [hquiet.1]
      exact hphase
  · split <;> omega
  · have hone : (Worker.finishing next).frees = 1 := rfl
    split <;> omega
  · exact h.listing.frame_worker ⟨rfl, rfl, rfl, rfl⟩ rfl
      ⟨fun hw => by simp [hw, Worker.phase] at hquiet, hquiet.2⟩

theorem living_worker_removeRelease {look : Bool} (hw : s.worker = .removeRelease look) :
    s.workerStep.Living := by
  obtain ⟨hentered, hfreed⟩ := h.owning.live (.inl (by simp [hw]))
  rw [workerStep, hw]
  simp only [release, touch_eq hfreed]
  refine living_workerRelease h hentered (by simp [hw, Worker.phase]) ?_ ?_ ?_ ?_
  · cases look <;> simp [Worker.phase]
  · cases look <;> simp [hw]
  · cases look <;> rfl
  · cases look <;> simp [hw]

theorem living_looking (hw : s.worker = .looking) : s.workerStep.Living := by
  rw [workerStep, hw]
  simp only [h.owning.touch_eq (by simp [hw])]
  refine h.worker_moves rfl rfl ?_ (by simp [hw])
  refine h.counting.frame rfl rfl rfl rfl ?_ rfl ?_
  · simp [hw]
  · simp [hw, Worker.phase]

theorem living_worker_releasing (hw : s.worker = .releasing) : s.workerStep.Living := by
  obtain ⟨hentered, hfreed⟩ := h.owning.live (.inl (by simp [hw]))
  rw [workerStep, hw]
  simp only [release, touch_eq hfreed]
  exact living_workerRelease h hentered (by simp [hw, Worker.phase]) (by simp [Worker.phase])
    (by rw [hw]; rfl) rfl ⟨by rw [hw]; rfl, rfl⟩

theorem living_worker_finishing {next : Worker} (hw : s.worker = .finishing next) :
    s.workerStep.Living := by
  have hone : s.worker.frees = 1 := by rw [hw]; rfl
  obtain ⟨hentered, hfreed⟩ := h.owning.live (.inr (by omega))
  obtain ⟨hhashed, -, howns⟩ := h.owning.unused (by omega)
  have hnext : next = .idle := by
    rw [hw] at howns
    cases next with
    | idle => rfl
    | _ => simp at howns
  subst hnext
  have hstep : s.workerStep = { s with
      q := { s.q with hashed := false, listed := false, freed := true }
      ended := s.ended + 1
      starter := s.starter
      worker := .idle } := by
    rw [workerStep, hw]
    simp [QuerySystem.finish, touch_eq hfreed, h.owning.callback]
  rw [hstep]
  refine ⟨?_, ?_, ?_⟩
  · refine h.counting.frame rfl rfl hhashed.symm rfl ?_ rfl ?_
    · simp [hw]
    · simp [hw, Worker.phase]
  · refine h.owning.finish ?_ rfl ⟨rfl, ?_⟩
    · rw [hone]
      rfl
    · rw [hw]
      rfl
  · exact h.listing.unhashed rfl rfl rfl rfl (by simp [hw])

end

/-- A callback runs while the start sends, or after it has closed its loop. -/
theorem Counting.calling (h : s.Counting) (hw : s.worker = .calling v num) :
    s.q.hashed = true ∧ 0 ≤ s.outstanding ∧ (s.starter.phase = .opened ∧ num ≠ 0 ∨
        s.starter.phase = .closed ∧ (num ≠ 0 → 1 ≤ s.outstanding)) := by
  have hallowed := h.allowed
  rw [hw] at hallowed
  cases hs : s.starter.phase <;> simp [Allowed, Worker.phase, hs] at hallowed ⊢
  · exact hallowed
  · exact hallowed

theorem Counting.called
    (h : s.Counting) (hw : s.worker = .calling v num) (hstart : s'.starter = s.starter)
    (hearly : s'.early = s.early) (hhashed : s'.q.hashed = s.q.hashed)
    (hsent : s'.q.dnsRequestSent = s.q.dnsRequestSent)
    (hw' : s'.worker = if num = 0 then .removing false else .releasing) :
    s'.Counting := by
  obtain ⟨hin, hnonneg, hphase⟩ := h.calling hw
  have hout : s'.outstanding = s.outstanding := by
    rw [outstanding, loops, unanswered, hstart, hearly, hsent, hw', outstanding, loops,
      unanswered, hw]
    split <;> rfl
  refine ⟨?_, ?_⟩
  · rw [hearly, hstart]
    exact h.early
  rw [hstart, hhashed, hout, hw']
  rcases hphase with ⟨hs, hne⟩ | ⟨hs, hone⟩
  · rw [hs, if_neg hne]
    exact ⟨hnonneg, fun hno => by simp [hin] at hno⟩
  rw [hs]
  split
  next => exact hin
  next hne => exact fun _ => hone hne

theorem living_answered (h : s.Living) (hw : s.worker = .calling v num) (a : Answer) :
    (s.answered a v num).Living := by
  obtain ⟨hentered, hfreed⟩ := h.owning.live (.inl (by simp [hw]))
  obtain ⟨hin, hnonneg, hphase⟩ := h.counting.calling hw
  have hphase' : s.starter.phase = .opened ∨ s.starter.phase = .closed :=
    hphase.imp (fun hs => hs.1) (fun hs => hs.1)
  have hlate : (s.lateResult || decide (0 < s.ended)) = s.lateResult := by
    simp [h.owning.ended, hfreed]
  have hnext : (if num = 0 then Worker.removing false else .releasing).owns = 1 ∧
      (if num = 0 then Worker.removing false else .releasing).frees = 0 := by
    split <;> exact ⟨rfl, rfl⟩
  simp only [answered, touch_eq hfreed, hlate]
  cases a with
  | drop =>
    refine h.worker_moves rfl rfl ?_ (by simp [hw])
    refine h.counting.becomes_quiet hphase' rfl rfl rfl ?_
    simp [hw] at hnonneg ⊢
    omega
  | retry =>
    refine h.worker_moves rfl rfl ⟨h.counting.early, ?_⟩ (by simp [hw])
    have hone : 1 ≤ ({ s with
        q := { s.q with
          dnsRequestSent := s.q.dnsRequestSent + 1
          repliedMap := s.q.repliedMap.erase v }
        worker := .retrying } : QuerySystem).outstanding := by
      simp [hw] at hnonneg ⊢
      omega
    rcases hphase' with hs | hs
    · rw [hs]
      exact ⟨hin, hone⟩
    · rw [hs]
      exact ⟨hin, hone⟩
  | ok | invalid =>
    refine h.worker_moves rfl rfl (h.counting.called hw rfl rfl rfl rfl rfl) ?_
    rw [hw]
    exact ⟨Nat.one_pos, hnext.1, hnext.2, by simp⟩

end Work

end QuerySystem

end SmartDns.Client
