import SmartDns.Cache.Threads

/-!
# One entry per key

An insertion removes the old entry of its key in one section and links the new
one in another.  Keys stay unique as long as no two insertions of one key stand
between their two sections at the same time.
-/

namespace SmartDns.Cache

open CacheHead

variable {k : CacheKey} {timeout : UInt64}

/-- Only an insertion stands between its two sections, having removed its key. -/
theorem Call.start_inserting {s : CacheHead} {th : Thread} {c : Call} (hidle : th.op = .idle)
    (h : (c.start s th).2.op = .inserting k timeout) :
    ∃ k', c = .insert k' timeout ∧ k = k'.copied ∧
      (c.start s th).1 = s.dnsCacheRemoveByDomain k := by
  rcases Call.start_op (s := s) c hidle with hop | ⟨e, hop⟩ | ⟨k', timeout', rfl, hop, hhead⟩ |
    ⟨k', timeout', e, -, hop⟩ | ⟨timeout', e, hop⟩
  · simp [hop] at h
  · simp [hop] at h
  · rw [hop, Op.inserting.injEq] at h
    obtain ⟨rfl, rfl⟩ := h
    exact ⟨k', rfl, rfl, hhead⟩
  · simp [hop] at h
  · simp [hop] at h

namespace CacheSystem

variable {n : ℕ}

/--
An insertion starts while no other thread stands between the two sections of an
insertion of the same key.
-/
def InsertsApart (s : CacheSystem n) : Event n → Prop
  | .call t (.insert k _) => ∀ t' k' timeout', t' ≠ t →
      (s.threads t').op = .inserting k' timeout' → k'.compared ≠ k.copied.compared
  | _ => True

/-- What holds in every state of such a run. -/
structure Keyed (s : CacheSystem n) : Prop where
  wellFormed : s.WellFormed
  unique : s.head.Unique
  absent : ∀ t k timeout, (s.threads t).op = .inserting k timeout → s.head.Absent k
  apart : ∀ t t' k k' timeout timeout', t ≠ t' →
    (s.threads t).op = .inserting k timeout → (s.threads t').op = .inserting k' timeout' →
    k.compared ≠ k'.compared

variable {s : CacheSystem n}

/-- A thread between the two sections was there before, or has just come there. -/
theorem inserting_cases
    {ev : Event n} {t : Fin n} (hop : ((s.step ev).threads t).op = .inserting k timeout) :
    (s.threads t).op = .inserting k timeout ∨
      ∃ k', ev = .call t (.insert k' timeout) ∧ k = k'.copied ∧
        (s.step ev).head = s.head.dnsCacheRemoveByDomain k := by
  rcases step_threads s ev t with hsame | ⟨c, rfl, hidle, hnew⟩ | ⟨alloc, memFull, -, hnew⟩
  · exact .inl (hsame ▸ hop)
  · rw [hnew] at hop
    obtain ⟨k', rfl, hk, hhead⟩ := Call.start_inserting hidle hop
    refine .inr ⟨k', rfl, hk, ?_⟩
    rw [step, if_pos hidle]
    exact hhead
  · rw [hnew] at hop
    exact absurd hop ((Thread.advance_op alloc memFull).2 k timeout)

theorem not_inserting_of_advance {t : Fin n} {alloc : Bool} {memFull : List Bool} :
    ((s.step (.advance t alloc memFull)).threads t).op ≠ .inserting k timeout := by
  have hself : (s.step (.advance t alloc memFull)).threads t
      = ((s.threads t).advance s.head alloc memFull).2 := by
    simp [step, put]
  rw [hself]
  exact (Thread.advance_op alloc memFull).2 k timeout

theorem Keyed.unique_step (h : s.Keyed) (ev : Event n) : (s.step ev).head.Unique := by
  have hstep := headStep_step h.wellFormed ev
  generalize (s.step ev).head = head at hstep
  cases hstep with
  | keeps hkeeps => exact hkeeps.unique h.unique
  | @insert t k timeout memFull hop =>
    have hnext : s.head.next ∉ s.head.cacheList :=
      fun hmem => absurd (h.wellFormed.bound _ hmem) (lt_irrefl _)
    exact h.unique.dnsCacheInsert (h.absent t k timeout hop) hnext timeout memFull
  | fire hidle hpending =>
    intro x hx y hy hxy
    rw [((HeadStep.fire hidle hpending).key (h.wellFormed.bound x hx)).1,
      ((HeadStep.fire hidle hpending).key (h.wellFormed.bound y hy)).1] at hxy
    exact h.unique x hx y hy hxy

/-- The key of a thread that stays between its two sections stays absent. -/
theorem Keyed.absent_step
    (h : s.Keyed) {ev : Event n} {t : Fin n} (hold : (s.threads t).op = .inserting k timeout)
    (hnew : ((s.step ev).threads t).op = .inserting k timeout) :
    (s.step ev).head.Absent k := by
  have hstep := headStep_step h.wellFormed ev
  have habsent := h.absent t k timeout hold
  generalize hhead : (s.step ev).head = head at hstep
  cases hstep with
  | keeps hkeeps => exact hkeeps.absent habsent
  | @insert t' k' timeout' memFull hop =>
    have hne : t' ≠ t := by
      rintro rfl
      exact not_inserting_of_advance hnew
    have hnext : s.head.next ∉ s.head.cacheList :=
      fun hmem => absurd (h.wellFormed.bound _ hmem) (lt_irrefl _)
    exact habsent.dnsCacheInsert
      (h.apart t' t k' k timeout' timeout hne hop hold) hnext timeout' memFull
  | fire hidle hpending =>
    intro x hx
    rw [((HeadStep.fire hidle hpending).key (h.wellFormed.bound x hx)).1]
    exact habsent x hx

theorem keyed_step (s : CacheSystem n) (ev : Event n) (h : s.Keyed) (hok : s.InsertsApart ev) :
    (s.step ev).Keyed := by
  refine ⟨wellFormed_step h.wellFormed ev, h.unique_step ev, ?_, ?_⟩
  · intro t k timeout hop
    rcases inserting_cases hop with hold | ⟨k', -, -, hhead⟩
    · exact h.absent_step hold hop
    · rw [hhead]
      exact absent_dnsCacheRemoveByDomain h.unique h.wellFormed.hash k
  · intro t t' k k' timeout timeout' hne hop hop'
    -- at most one of the two threads has come there in this step
    rcases inserting_cases hop with hold | ⟨k₁, rfl, rfl, -⟩
    · rcases inserting_cases hop' with hold' | ⟨k₂, rfl, rfl, -⟩
      · exact h.apart t t' k k' timeout timeout' hne hold hold'
      · exact hok t k timeout hne hold
    · rcases inserting_cases hop' with hold' | ⟨k₂, hev, -, -⟩
      · exact (hok t' k' timeout' hne.symm hold').symm
      · simp only [Event.call.injEq] at hev
        exact absurd hev.1 hne

theorem keyed_init (n : ℕ) (size : ℤ) (jiffies : UInt64) : (init n size jiffies).Keyed := by
  refine ⟨wellFormed_init n size jiffies, ?_, ?_, ?_⟩
  · intro x hx
    simp [init] at hx
  · intro t k timeout hop
    simp [init] at hop
  · intro t t' k k' timeout timeout' _ hop
    simp [init] at hop

/--
In every run in which insertions of one key do not overlap, no two linked
entries have the same name, query type, group and query flags.
-/
theorem keys_unique (n : ℕ) (size : ℤ) (jiffies : UInt64) (events : List (Event n))
    (hok : Admissible step InsertsApart (init n size jiffies) events) :
    let s := run step (init n size jiffies) events
    ∀ x ∈ s.head.cacheList, ∀ y ∈ s.head.cacheList,
      (s.head.entries x).key.compared = (s.head.entries y).key.compared → x = y := by
  intro s
  have hs : s.Keyed := run_invariant step Keyed keyed_step (keyed_init n size jiffies) hok
  exact hs.unique

/-- Two threads insert one key, one after the other. -/
def insertedInTurn (t t' : Fin n) : List (Event n) :=
  [.call t (.insert exampleKey 60), .advance t true [],
    .call t' (.insert exampleKey 60), .advance t' true []]

theorem keys_unique_inTurn :
    Admissible step InsertsApart (init 2 10 1) (insertedInTurn 0 1) ∧
      (let s := run step (init 2 10 1) (insertedInTurn 0 1)
      1 ∈ s.head.cacheList ∧ ∀ y ∈ s.head.cacheList,
        (s.head.entries 1).key.compared = (s.head.entries y).key.compared → 1 = y) := by
  have hok : Admissible step InsertsApart (init 2 10 1) (insertedInTurn 0 1) := by
    refine ⟨?_, trivial, ?_, trivial, trivial⟩
    · intro t' k' timeout' _ hop
      simp [init] at hop
    · intro t' k' timeout' hne hop
      fin_cases t'
      · exact Op.noConfusion hop
      · exact absurd rfl hne
  exact ⟨hok, by decide, keys_unique 2 10 1 (insertedInTurn 0 1) hok 1 (by decide)⟩

/--
Two threads insert one key: both find nothing to remove before either of them
links its entry.
-/
theorem overlapping_duplicates :
    let s := run step (init 2 10 1)
      [.call 0 (.insert exampleKey 60), .call 1 (.insert exampleKey 60),
        .advance 0 true [], .advance 1 true []]
    0 ∈ s.head.cacheList ∧ 1 ∈ s.head.cacheList ∧
      (s.head.entries 0).key.compared = (s.head.entries 1).key.compared := by
  refine ⟨?_, ?_, ?_⟩
  · decide
  · decide
  · decide

end CacheSystem

end SmartDns.Cache
