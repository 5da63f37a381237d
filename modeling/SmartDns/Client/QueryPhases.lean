import SmartDns.Client.Query

/-!
# The phases of a query

What the two threads of a query know of each other.  The counter of sends is
read together with the places where they stand: the sends that are outstanding,
not those in progress, decide which of them may still remove the query.  The
references to the query and the list of the periodic retry are accounted for
beside it.
-/

namespace SmartDns.Client

/-- How far the start has come, as the other thread sees it. -/
inductive StartPhase
  | fresh
  | unopened
  | opened
  | removing
  | removed
  | closed
  | failing
deriving DecidableEq

/-- What the thread of the client may still do to the query. -/
inductive WorkPhase
  | quiet
  | counting
  | calling (requestNum : ℤ)
  | busy
  | stopping
deriving DecidableEq

def Starter.phase : Starter → StartPhase
  | idle => .fresh
  | hashing => .fresh
  | getting => .unopened
  | opening => .unopened
  | sending _ => .opened
  | removing => .removing
  | removeRelease => .removed
  | enlisting => .closed
  | releasing => .closed
  | finishing .enlisting => .closed
  | finishing .done => .closed
  | done => .closed
  | _ => .failing

def Worker.phase : Worker → WorkPhase
  | counting _ _ => .counting
  | calling _ num => .calling num
  | retrying => .busy
  | opening => .busy
  | sending _ => .busy
  | removing true => .busy
  | removing false => .stopping
  | _ => .quiet

attribute [simp] Starter.entered Starter.owns Starter.frees Starter.loops Starter.pending
  Worker.owns Worker.frees Worker.loops Worker.pending

theorem Starter.not_opened {w : Starter} (h : w.phase ≠ .opened) :
    w.loops = 0 ∧ w.pending = false := by
  cases w with
  | sending l => exact absurd rfl h
  | _ => exact ⟨rfl, rfl⟩

theorem Worker.not_busy {w : Worker} (h : w.phase ≠ .busy) : w.loops = 0 ∧ w.pending = false := by
  cases w with
  | sending l => exact absurd rfl h
  | _ => exact ⟨rfl, rfl⟩

theorem Starter.opened {w : Starter} (h : w.phase = .opened) : w.loops = 1 := by
  cases w with
  | sending l => rfl
  | finishing next => cases next <;> simp [Starter.phase] at h
  | _ => simp [Starter.phase] at h

theorem Starter.loops_nonneg (w : Starter) : 0 ≤ w.loops := by
  cases w <;> simp

theorem Worker.loops_nonneg (w : Worker) : 0 ≤ w.loops := by
  cases w <;> simp

/--
The phases in which two orderly threads meet, with `o` sends outstanding.  A
query that nobody is about to remove has a send outstanding once the start has
closed its loop.
-/
def Allowed (hashed : Bool) (sent o : ℤ) : StartPhase → WorkPhase → Prop
  | .fresh, .quiet => hashed = false ∧ sent = 0
  | .unopened, .quiet => hashed = true ∧ sent = 0
  | .unopened, .counting => hashed = true ∧ sent = 0
  | .opened, .quiet => 0 ≤ o ∧ (hashed = false → 1 ≤ o)
  | .opened, .counting => hashed = true ∧ 0 ≤ o
  | .opened, .calling num => hashed = true ∧ 0 ≤ o ∧ num ≠ 0
  | .opened, .busy => hashed = true ∧ 1 ≤ o
  | .removing, .quiet => hashed = true ∧ sent = 0
  | .removing, .counting => hashed = true ∧ sent = 0
  | .removed, .quiet => hashed = false
  | .removed, .counting => hashed = false ∧ sent ≤ 0
  | .closed, .quiet => hashed = true → 1 ≤ o
  | .closed, .counting => (hashed = true → 1 ≤ o) ∧ (hashed = false → sent ≤ 0)
  | .closed, .calling num => hashed = true ∧ 0 ≤ o ∧ (num ≠ 0 → 1 ≤ o)
  | .closed, .busy => hashed = true ∧ 1 ≤ o
  | .closed, .stopping => hashed = true
  | _, _ => False

theorem Allowed.quiet_of_counting {hashed : Bool} {sent o : ℤ} {phase : StartPhase}
    (h : Allowed hashed sent o phase .counting) :
    Allowed hashed sent o phase .quiet := by
  cases phase <;> simp only [Allowed] at h ⊢
  · exact h
  · exact ⟨h.2, fun hno => by simp [h.1] at hno⟩
  · exact h
  · exact h.1
  · exact h.1

theorem Allowed.sent_nonpos
    {sent o : ℤ} {phase : StartPhase} (h : Allowed false sent o phase .counting) :
    sent ≤ 0 := by
  cases phase <;> simp [Allowed] at h
  · exact h
  · exact h

/-- A reply is counted while the start sends, or after it has closed its loop. -/
theorem Allowed.counting_phase
    {sent o : ℤ} {phase : StartPhase} (h : Allowed true sent o phase .counting) (hsent : 0 < sent) :
    phase = .opened ∧ 0 ≤ o ∨ phase = .closed ∧ 1 ≤ o := by
  cases phase <;> simp [Allowed] at h ⊢
  · omega
  · exact h
  · omega
  · exact h

namespace QuerySystem

/--
What is asked of the threads and of the servers.

* A reply that is counted while the query is in the table answers a send: the
  counter is greater than the number of open send loops.
* A send of the start that has been answered does not fail.
* The start does not close its loop on the last count while a callback runs.
-/
def Orderly (s : QuerySystem) : QueryEvent → Prop
  | .step .worker =>
    match s.worker with
    | .counting v refused => refused = false → v ∉ s.q.repliedMap → s.q.hashed = true →
        s.loops < s.q.dnsRequestSent
    | _ => True
  | .sent .starter false => s.early = false
  | .close .starter =>
    match s.worker with
    | .calling _ _ => s.q.dnsRequestSent ≠ 1
    | _ => True
  | _ => True

/-- What the two threads know of the counter of sends. -/
structure Counting (s : QuerySystem) : Prop where
  early : s.early = true → s.starter.pending = true
  allowed : Allowed s.q.hashed s.q.dnsRequestSent s.outstanding
    s.starter.phase s.worker.phase

/-- The references to the query, and what has been seen of its end. -/
structure Owning (s : QuerySystem) : Prop where
  fresh : s.starter.entered = false → s.q = {} ∧ s.worker = .idle ∧ s.timeouts = 0
  account : Accounted (s.starter.entered = true ∧ s.q.freed = false) s.q.refcnt
    (s.q.hashed.toNat + s.starter.owns + s.worker.owns)
    (s.starter.frees + s.worker.frees)
  removals : s.removals = (s.starter.entered && !s.q.hashed).toNat
  ended : s.ended = s.q.freed.toNat
  callback : s.q.hasCallback = true
  late : s.lateResult = false
  misused : s.misused = false

/-- The list of the periodic retry, and its budget. -/
structure Listing (s : QuerySystem) : Prop where
  hashed : s.q.listed = true → s.q.hashed = true
  listed : s.q.hashed = true → s.starter = .releasing ∨ s.starter = .done →
    s.q.listed = true
  closed : s.q.listed = true → s.starter.phase = .closed
  positive : s.q.hashed = true → s.worker ≠ .removing true → 1 ≤ s.q.retryCount
  nonneg : 0 ≤ s.q.retryCount
  budget : s.timeouts + s.q.retryCount
    ≤ dnsQueryRetry + if s.worker = .retrying then 1 else 0

/-- What holds in every state of an orderly run, unless the start has failed. -/
structure Living (s : QuerySystem) : Prop where
  counting : s.Counting
  owning : s.Owning
  listing : s.Listing

variable {s : QuerySystem}

/-- A thread that has a reference, or is about to free, works on live memory. -/
theorem Owning.live (h : s.Owning) (huse : 0 < s.q.hashed.toNat + s.starter.owns + s.worker.owns ∨
      0 < s.starter.frees + s.worker.frees) :
    s.starter.entered = true ∧ s.q.freed = false := by
  rcases huse with huse | hfree
  · exact h.account.live_of_uses huse
  · exact h.account.live_of_frees hfree

theorem touch_eq (h : s.q.freed = false) : s.touch = s := by
  simp [touch, h]

theorem Owning.touch_eq (h : s.Owning) (huse : 0 < s.starter.owns + s.worker.owns) : s.touch = s :=
  QuerySystem.touch_eq (h.live (.inl (by omega))).2

@[simp] theorem outstanding_eq (s : QuerySystem) :
    s.outstanding = s.q.dnsRequestSent - (s.starter.loops + s.worker.loops) -
      ((s.starter.pending && !s.early).toNat + s.worker.pending.toNat) :=
  rfl

/-- A send of the start that has been answered is still in progress. -/
theorem Counting.not_early (h : s.Counting) (hs : s.starter.pending = false) : s.early = false :=
  Bool.eq_false_of_not_eq_true fun he => Bool.false_ne_true (hs.symm.trans (h.early he))

section Frames

variable {s' : QuerySystem}

theorem Counting.frame (h : s.Counting) (hearly : s'.early = s.early)
    (hpending : s'.starter.pending = s.starter.pending) (hhashed : s'.q.hashed = s.q.hashed)
    (hsent : s'.q.dnsRequestSent = s.q.dnsRequestSent) (hout : s'.outstanding = s.outstanding)
    (hstart : s'.starter.phase = s.starter.phase) (hwork : s'.worker.phase = s.worker.phase) :
    s'.Counting := by
  constructor
  · rw [hearly, hpending]
    exact h.early
  · rw [hhashed, hsent, hout, hstart, hwork]
    exact h.allowed

theorem Owning.frame (h : s.Owning) (hlive : s.starter.entered = true)
    (hentered : s'.starter.entered = true)
    (hq : s'.q.refcnt = s.q.refcnt ∧ s'.q.freed = s.q.freed ∧ s'.q.hasCallback = s.q.hasCallback)
    (huses : s'.q.hashed.toNat + s'.starter.owns + s'.worker.owns
      = s.q.hashed.toNat + s.starter.owns + s.worker.owns)
    (hfrees : s'.starter.frees + s'.worker.frees = s.starter.frees + s.worker.frees)
    (hremovals : s'.removals + s'.q.hashed.toNat = s.removals + s.q.hashed.toNat)
    (hseen : s'.ended = s.ended ∧ s'.lateResult = s.lateResult ∧ s'.misused = s.misused) :
    s'.Owning := by
  obtain ⟨href, hfreed, hcallback⟩ := hq
  obtain ⟨hended, hlate, hmisused⟩ := hseen
  constructor
  · intro hno
    rw [hentered] at hno
    exact absurd hno (by simp)
  · refine h.account.cast ?_ href huses hfrees
    rw [hentered, hlive, hfreed]
  · have hold := h.removals
    cases hh : s.q.hashed <;> cases hh' : s'.q.hashed <;>
      simp_all
  · rw [hended, hfreed]
    exact h.ended
  · rw [hcallback]
    exact h.callback
  · rw [hlate]
    exact h.late
  · rw [hmisused]
    exact h.misused

theorem Listing.frame (h : s.Listing) (hq : s'.q.listed = s.q.listed ∧ s'.q.hashed = s.q.hashed ∧
      s'.q.retryCount = s.q.retryCount ∧ s'.timeouts = s.timeouts)
    (hstart : s'.starter = .releasing ∨ s'.starter = .done →
      s.starter = .releasing ∨ s.starter = .done)
    (hclosed : s.starter.phase = .closed → s'.starter.phase = .closed)
    (hremoving : s.worker = .removing true → s'.worker = .removing true)
    (hretrying : s.worker = .retrying → s'.worker = .retrying) :
    s'.Listing := by
  obtain ⟨hlisted, hhashed, hretry, htimeouts⟩ := hq
  constructor
  · rw [hlisted, hhashed]
    exact h.hashed
  · intro hh hs
    rw [hlisted]
    rw [hhashed] at hh
    exact h.listed hh (hstart hs)
  · intro hl
    rw [hlisted] at hl
    exact hclosed (h.closed hl)
  · intro hh hw
    rw [hretry]
    rw [hhashed] at hh
    exact h.positive hh (fun hold => hw (hremoving hold))
  · rw [hretry]
    exact h.nonneg
  · rw [hretry, htimeouts]
    have hold := h.budget
    by_cases hw : s.worker = .retrying
    · rw [if_pos (hretrying hw)]
      rwa [if_pos hw] at hold
    · rw [if_neg hw] at hold
      split <;> omega

theorem Listing.frame_starter (h : s.Listing)
    (hq : s'.q.listed = s.q.listed ∧ s'.q.hashed = s.q.hashed ∧
      s'.q.retryCount = s.q.retryCount ∧ s'.timeouts = s.timeouts)
    (hstart : ¬ (s'.starter = .releasing ∨ s'.starter = .done))
    (hphase : s.starter.phase = .closed → s'.starter.phase = .closed)
    (hwork : s'.worker = s.worker) :
    s'.Listing := by
  refine h.frame hq (fun hs => absurd hs hstart) hphase ?_ ?_
  · exact fun hw => hwork.trans hw
  · exact fun hw => hwork.trans hw

theorem Listing.frame_worker (h : s.Listing)
    (hq : s'.q.listed = s.q.listed ∧ s'.q.hashed = s.q.hashed ∧
      s'.q.retryCount = s.q.retryCount ∧ s'.timeouts = s.timeouts) (hstart : s'.starter = s.starter)
    (hwork : s.worker ≠ .removing true ∧ s.worker ≠ .retrying) :
    s'.Listing := by
  refine h.frame hq ?_ ?_ (fun hw => absurd hw hwork.1) (fun hw => absurd hw hwork.2)
  · rw [hstart]
    exact fun hs => hs
  · rw [hstart]
    exact fun hs => hs

/-- A removal from the table, or the end: nothing is left for the periodic retry. -/
theorem Listing.unhashed
    (h : s.Listing) (hhashed : s'.q.hashed = false) (hlisted : s'.q.listed = false)
    (hretry : s'.q.retryCount = s.q.retryCount) (htimeouts : s'.timeouts = s.timeouts)
    (hretrying : s.worker ≠ .retrying) :
    s'.Listing := by
  constructor
  · intro hno
    rw [hlisted] at hno
    exact absurd hno (by simp)
  · intro hno
    rw [hhashed] at hno
    exact absurd hno (by simp)
  · intro hno
    rw [hlisted] at hno
    exact absurd hno (by simp)
  · intro hno
    rw [hhashed] at hno
    exact absurd hno (by simp)
  · rw [hretry]
    exact h.nonneg
  · have hold := h.budget
    rw [if_neg hretrying] at hold
    split <;> omega

/-- The references, the list and what has been seen of the query. -/
def books (s : QuerySystem) :=
  (s.q.refcnt, s.q.freed, s.q.hasCallback, s.q.hashed, s.q.listed, s.q.retryCount, s.timeouts,
    s.removals, s.ended, s.lateResult, s.misused)

theorem Living.starter_moves
    (h : s.Living) (hbooks : s'.books = s.books) (hwork : s'.worker = s.worker)
    (hcounting : s'.Counting) (hstart : 0 < s.starter.owns ∧ s'.starter.entered = true ∧
      s'.starter.owns = s.starter.owns ∧ s'.starter.frees = s.starter.frees ∧
      ¬ (s'.starter = .releasing ∨ s'.starter = .done) ∧
      (s.starter.phase = .closed → s'.starter.phase = .closed)) :
    s'.Living := by
  obtain ⟨hpos, hentered, howns, hfrees, hplace, hclosed⟩ := hstart
  obtain ⟨hlive, -⟩ := h.owning.live (.inl (by omega))
  simp only [books, Prod.mk.injEq] at hbooks
  refine ⟨hcounting, h.owning.frame hlive hentered (by simp [hbooks]) ?_ ?_ (by simp [hbooks])
    (by simp [hbooks]), h.listing.frame_starter (by simp [hbooks]) hplace hclosed hwork⟩
  · rw [howns, hwork, hbooks.2.2.2.1]
  · rw [hfrees, hwork]

/-- The thread of the client goes on to a place with the same references. -/
theorem Living.worker_moves
    (h : s.Living) (hbooks : s'.books = s.books) (hstart : s'.starter = s.starter)
    (hcounting : s'.Counting) (hwork : 0 < s.worker.owns ∧ s'.worker.owns = s.worker.owns ∧
      s'.worker.frees = s.worker.frees ∧ s.worker ≠ .removing true ∧ s.worker ≠ .retrying) :
    s'.Living := by
  obtain ⟨hpos, howns, hfrees, hplace⟩ := hwork
  obtain ⟨hlive, -⟩ := h.owning.live (.inl (by omega))
  simp only [books, Prod.mk.injEq] at hbooks
  refine ⟨hcounting, h.owning.frame hlive (hstart ▸ hlive) (by simp [hbooks]) ?_ ?_
    (by simp [hbooks]) (by simp [hbooks]), h.listing.frame_worker (by simp [hbooks]) hstart hplace⟩
  · rw [howns, hstart, hbooks.2.2.2.1]
  · rw [hfrees, hstart]

end Frames

end QuerySystem

end SmartDns.Client
