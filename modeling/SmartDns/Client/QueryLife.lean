import SmartDns.Client.QuerySteps

/-!
# A query ends once

The counter of sends decides when a query is removed, and three places look at
it.  As long as the two threads are orderly, at most one of them ever decides
for the removal.  When the start closes its loop on the last count while a callback
is running, both do, and the second removal releases a reference that is not there.
-/

namespace SmartDns.Client
namespace QuerySystem

variable {s : QuerySystem}

section Runs

theorem living_starterStep (h : s.Living) : s.starterStep.Living := by
  cases hs : s.starter with
  | hashing => exact living_hashing h hs
  | getting => exact living_getting h hs
  | opening => exact living_opening h hs
  | removing => exact living_removing h hs
  | removeRelease => exact living_removeRelease h hs
  | enlisting => exact living_enlisting h hs
  | releasing => exact living_releasing h hs
  | finishing next => exact living_finishing h hs
  | idle | sending | done =>
    rw [starterStep, hs]
    exact h
  | _ =>
    -- the start has not failed
    have hallowed := h.counting.allowed
    rw [hs] at hallowed
    cases hw : s.worker.phase <;> simp [Allowed, Starter.phase, hw] at hallowed

theorem living_workerStep (h : s.Living) (hok : s.Orderly (.step .worker)) :
    s.workerStep.Living := by
  cases hw : s.worker with
  | counting v refused =>
    have hcounting := living_counting h hw hok
    rw [workerStep, hw]
    exact hcounting
  | retrying => exact living_retrying h hw
  | opening => exact living_worker_opening h hw
  | removing look => exact living_worker_removing h hw
  | removeRelease look => exact living_worker_removeRelease h hw
  | looking => exact living_looking h hw
  | releasing => exact living_worker_releasing h hw
  | finishing next => exact living_worker_finishing h hw
  | _ =>
    rw [workerStep, hw]
    exact h

theorem failed_starterStep (s : QuerySystem) : s.starterStep.failed = s.failed := by
  rw [starterStep]
  split <;> rfl

theorem failed_workerStep (s : QuerySystem) : s.workerStep.failed = s.failed := by
  rw [workerStep]
  split
  · rw [countReply]
    split <;> rfl
  all_goals rfl

theorem failed_step (h : s.failed = true) (ev : QueryEvent) : (s.step ev).failed = true := by
  cases ev with
  | start =>
    rw [step]
    split <;> exact h
  | step w =>
    cases w with
    | starter => exact (failed_starterStep s).trans h
    | worker => exact (failed_workerStep s).trans h
  | send w => cases w <;> simp only [step, send] <;> split <;> exact h
  | sent w ok => cases w <;> simp only [step, sent] <;> split <;> exact h
  | close w =>
    cases w with
    | starter =>
      simp only [step, close]
      split
      · split
        · rfl
        · exact h
      · exact h
    | worker =>
      simp only [step, close]
      split <;> exact h
  | reply v refused =>
    rw [step]
    split <;> exact h
  | answer a =>
    rw [step]
    split
    · split
      · cases a <;> exact h
      · exact h
    · exact h
  | timeout =>
    rw [step]
    split <;> exact h

theorem living_start (h : s.Living) (hs : s.starter = .idle) :
    ({ s with starter := .hashing } : QuerySystem).Living := by
  obtain ⟨hq, hw, htimeouts⟩ := h.owning.fresh (by rw [hs]; rfl)
  refine ⟨?_, ⟨fun _ => ⟨hq, hw, htimeouts⟩, ?_, ?_, h.owning.ended, h.owning.callback,
    h.owning.late, h.owning.misused⟩, ?_⟩
  · refine h.counting.frame rfl ?_ rfl rfl ?_ ?_ rfl
    · simp [hs]
    · simp [hs]
    · simp [hs, Starter.phase]
  · refine h.owning.account.cast ?_ rfl ?_ ?_
    · simp [hs]
    · simp [hs]
    · simp [hs]
  · have hold := h.owning.removals
    rw [hs] at hold
    exact hold
  · exact h.listing.frame_starter ⟨rfl, rfl, rfl, rfl⟩ (by simp) (by simp [hs, Starter.phase]) rfl

theorem living_step
    (s : QuerySystem) (ev : QueryEvent) (h : s.failed = true ∨ s.Living) (hok : s.Orderly ev) :
    (s.step ev).failed = true ∨ (s.step ev).Living := by
  rcases h with hfailed | h
  · exact .inl (failed_step hfailed ev)
  · cases ev with
    | start =>
      right
      rw [step]
      split
      next hidle => exact living_start h hidle
      next => exact h
    | step w =>
      cases w with
      | starter => exact .inr (living_starterStep h)
      | worker => exact .inr (living_workerStep h hok)
    | send w =>
      cases w with
      | starter => exact .inr (living_send_starter h)
      | worker => exact .inr (living_send_worker h)
    | sent w ok =>
      cases w with
      | starter =>
        refine .inr (living_sent_starter h ?_)
        rintro rfl
        exact hok
      | worker => exact .inr (living_sent_worker h ok)
    | close w =>
      cases w with
      | starter => exact living_close_starter h hok
      | worker => exact .inr (living_close_worker h)
    | reply v refused => exact .inr (living_reply h v refused)
    | answer a =>
      right
      rw [step]
      split
      next v num hw =>
        rw [if_pos h.owning.callback]
        exact living_answered h hw a
      next => exact h
    | timeout => exact .inr (living_timeout h)

theorem living_init : ({} : QuerySystem).Living := by
  refine ⟨⟨by simp, ?_⟩, ⟨fun _ => ⟨rfl, rfl, rfl⟩, ?_, rfl, rfl, rfl, rfl, rfl⟩,
    ⟨by simp, by simp, by simp, by simp, by simp [dnsQueryRetry], by simp⟩⟩
  · simp [Allowed, Starter.phase, Worker.phase]
  · refine ⟨?_, ?_, ?_, ?_⟩
    · simp
    · simp
    · simp
    · simp

/-- Once the start has returned and the client is done with it, a query is there or over. -/
theorem Living.settled (h : s.Living) (hs : s.starter = .done) (hw : s.worker = .idle) :
    s.q.hashed = true ∧ s.q.listed = true ∧ s.removals = 0 ∧ s.ended = 0 ∧ s.timeouts < 4 ∨
      s.removals = 1 ∧ s.ended = 1 ∧ s.q.freed = true := by
  have haccount := h.owning.account
  have hremovals := h.owning.removals
  have hended := h.owning.ended
  rw [hs, hw] at haccount
  rw [hs] at hremovals
  cases hhashed : s.q.hashed with
  | true =>
    left
    have hlive := haccount.live_of_uses (by simp [hhashed])
    have hpositive := h.listing.positive hhashed (by simp [hw])
    have hbudget := h.listing.budget
    rw [if_neg (by simp [hw]), dnsQueryRetry] at hbudget
    refine ⟨rfl, h.listing.listed hhashed (.inr hs), ?_, ?_, by omega⟩
    · simpa [hhashed] using hremovals
    · simpa [hlive.2] using hended
  | false =>
  right
  have hfreed : s.q.freed = true := by
    by_contra hnot
    have hlive : Starter.done.entered = true ∧ s.q.freed = false :=
      ⟨rfl, Bool.eq_false_of_not_eq_true hnot⟩
    have hfrees := haccount.frees_eq hlive
    simp [hhashed] at hfrees
  refine ⟨?_, ?_, hfreed⟩
  · simpa [hhashed] using hremovals
  · simpa [hfreed] using hended

/--
In every orderly run whose start has not failed, the query is removed at most
once and its end is told at most once and after its last result, it is never
used after it has been freed, and the periodic retry takes it up at most four
times.  When both threads are done with it, it is either waiting for the
periodic retry, with retries left, or it has been removed, ended and freed.
-/
theorem query_ends_once (events : List QueryEvent) (hok : Admissible step Orderly {} events) :
    let s := run step {} events
    s.failed = false → s.removals ≤ 1 ∧ s.ended ≤ 1 ∧ s.lateResult = false ∧ s.misused = false ∧
      s.timeouts ≤ 4 ∧
      (s.starter = .done → s.worker = .idle →
        s.q.hashed = true ∧ s.q.listed = true ∧ s.removals = 0 ∧ s.ended = 0 ∧ s.timeouts < 4 ∨
          s.removals = 1 ∧ s.ended = 1 ∧ s.q.freed = true) := by
  intro s hfailed
  have hliving : s.failed = true ∨ s.Living :=
    run_invariant step (fun s => s.failed = true ∨ s.Living) living_step (.inr living_init) hok
  have hs : s.Living := by
    rcases hliving with hno | hs
    · rw [hfailed] at hno
      exact absurd hno (by simp)
    · exact hs
  refine ⟨?_, ?_, hs.owning.late, hs.owning.misused, ?_, hs.settled⟩
  · rw [hs.owning.removals]
    exact Bool.toNat_le _
  · rw [hs.owning.ended]
    exact Bool.toNat_le _
  · have hbudget := hs.listing.budget
    have hnonneg := hs.listing.nonneg
    rw [dnsQueryRetry] at hbudget
    by_cases hw : s.worker = .retrying
    · have hbusy := hs.counting.busy (by rw [hw]; rfl)
      have hpositive := hs.listing.positive hbusy.1 (by simp [hw])
      omega
    · rw [if_neg hw] at hbudget
      omega

/-- One server is asked and answers after the start has returned. -/
def oneServer : List QueryEvent :=
  [.start, .step .starter, .step .starter, .step .starter, .send .starter, .sent .starter true,
    .close .starter, .step .starter, .step .starter, .reply 1 false, .step .worker, .answer .ok,
    .step .worker, .step .worker, .step .worker, .step .worker]

theorem query_ends_once_oneServer :
    Admissible step Orderly {} oneServer ∧ (let s := run step {} oneServer
      s.removals ≤ 1 ∧ s.ended = 1 ∧ s.misused = false) := by
  have hok : Admissible step Orderly {} oneServer := by
    refine ⟨trivial, trivial, trivial, trivial, trivial, trivial, trivial, trivial, trivial,
      trivial, ?_, trivial, trivial, trivial, trivial, trivial, trivial⟩
    intro _ _ _
    decide
  obtain ⟨hremovals, -, -, hmisused, -⟩ := query_ends_once oneServer hok (by decide)
  exact ⟨hok, hremovals, by decide, hmisused⟩

/--
Server 1 has answered with success.  The reply of server 2 is counted, and while
its callback is running the start closes its loop: the counter falls to zero and
the start removes the query.  The callback asks for a retry, which is refused
because there is a result, so the thread of the client removes the query again.
-/
theorem retry_removes_twice :
    let s := run step {} [.start, .step .starter, .step .starter, .step .starter,
        .send .starter, .sent .starter true, .send .starter, .sent .starter true,
        .reply 1 false, .step .worker, .answer .ok, .step .worker,
        .reply 2 false, .step .worker, .close .starter, .answer .retry,
        .step .worker, .step .starter, .step .worker,
        .step .starter, .step .worker, .step .starter, .step .starter, .step .starter,
        .step .worker]
    s.failed = false ∧ s.removals = 2 ∧ s.q.freed = true ∧ s.misused = true := by
  refine ⟨?_, ?_, ?_, ?_⟩
  · decide
  · decide
  · decide
  · decide

end Runs

end QuerySystem

end SmartDns.Client
