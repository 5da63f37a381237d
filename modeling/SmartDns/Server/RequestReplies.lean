import SmartDns.Server.RequestFrames

/-!
# A client is answered once

Whoever counts first in `notified` may reply, and stands on a stack with that right
until it does.  So a request has been answered, or somebody is about to answer it,
or nobody has counted yet.

A `CNAME` child breaks this when it hands its own context to its parent: the count
that was skipped for the child is then skipped for the parent too.
-/

namespace SmartDns.Server

open Stacks List

variable {q r : Nat} {f : Frame} {s' : Shared} {ret : Bool}

/-- The right to reply to `q` without counting. -/
def grants (q : Nat) : Frame → Nat
  | .post r context | .postReply r context =>
    if r = q ∧ context.doReply = true ∧ context.skipNotifyCount = true then 1 else 0
  | .passReply r doReply => if r = q ∧ doReply = true then 1 else 0
  | _ => 0

theorem grants_eq_zero (h : q ∉ f.ids) : grants q f = 0 := by
  cases f <;> simp_all [grants, Frame.ids] <;> omega

/-- A child does not hand a skipped count to a parent with a client. -/
def CountsForParent (s : RequestSystem) (e : RequestEvent) : Prop :=
  ∀ r context parent, s.top e = some (.childPost r context) →
    (s.shared.requests r).parentRequest = some parent →
    (s.shared.requests r).childCallback = .cname → context.doReply = true →
    (s.shared.requests parent).conn = true → context.skipNotifyCount = false

/-- The condition, on the frame that the event runs. -/
def countsForParent (s : Shared) : Option Frame → Bool
  | some (.childPost r context) =>
    match (s.requests r).parentRequest with
    | some parent =>
      !((s.requests r).childCallback = .cname && context.doReply && (s.requests parent).conn)
        || !context.skipNotifyCount
    | none => true
  | _ => true

instance (s : RequestSystem) (e : RequestEvent) : Decidable (CountsForParent s e) :=
  decidable_of_iff (countsForParent s.shared (s.top e) = true) (by
    rw [CountsForParent]
    constructor
    · intro h r context parent htop hparent hcname hreply hconn
      simpa [countsForParent, htop, hparent, hcname, hreply, hconn] using h
    · intro h
      cases htop : s.top e with
      | none => rfl
      | some f =>
        cases f with
        | childPost r context =>
          cases hparent : (s.shared.requests r).parentRequest with
          | none => simp [countsForParent, hparent]
          | some parent =>
            have hcounts := h r context parent htop hparent
            cases hcname : (s.shared.requests r).childCallback with
            | cname =>
              cases hreply : context.doReply <;>
                cases hconn : (s.shared.requests parent).conn <;>
                simp_all [countsForParent]
            | dns64 => simp [countsForParent, hparent, hcname]
        | _ => rfl)

/-- What a rule does to the right to answer `q`: it uses it, keeps it, or takes it by
counting first. -/
structure Answers (s : Shared) (f : Frame) (e : Effect) (q : Nat) : Prop where
  conn : (s.requests q).conn = true
  notified : (s.requests q).notified ≤ (e.shared.requests q).notified
  rights : (e.shared.requests q).replies + weight (grants q) e.calls +
        total (grants q) (e.spawned.map Thread.stack) ≤
      (s.requests q).replies + grants q f ∨
    (s.requests q).notified = 0 ∧ 1 ≤ (e.shared.requests q).notified ∧
      (e.shared.requests q).replies + weight (grants q) e.calls +
        total (grants q) (e.spawned.map Thread.stack) ≤
      (s.requests q).replies + grants q f + 1

/-- Nothing has happened to a client request that its client would notice. -/
def Quiet (s s' : Shared) : Prop :=
  ∀ q, (s'.requests q).conn = true →
    (s.requests q).conn = true ∧ (s'.requests q).notified = (s.requests q).notified ∧
      (s'.requests q).replies = (s.requests q).replies

section Quiet

variable {s : Shared}

theorem Quiet.refl : Quiet s s :=
  fun _ hconn => ⟨hconn, rfl, rfl⟩

theorem Quiet.modify {f : RequestState → RequestState} (h : Quiet s s')
    (hf : ∀ x, (f x).conn = x.conn ∧ (f x).notified = x.notified ∧ (f x).replies = x.replies) :
    Quiet s (s'.modify r f) := by
  intro q hq
  obtain ⟨hconn, hnotified, hreplies⟩ := hf (s'.requests r)
  rw [Shared.modify_requests] at hq ⊢
  split at hq
  next heq =>
    rw [hconn] at hq
    rw [if_pos heq, hnotified, hreplies, heq]
    exact h r hq
  next hne =>
    rw [if_neg hne]
    exact h q hq

theorem Quiet.create {request : RequestState} (h : Quiet s s') (hrequest : request.conn = false) :
    Quiet s (s'.create request) := by
  intro q hq
  rw [Shared.create_requests] at hq ⊢
  split at hq
  · simp [hrequest] at hq
  rename_i hne
  rw [if_neg hne]
  exact h q hq

theorem Quiet.get (h : Quiet s s') (r : Nat) : Quiet s (s'.get r) :=
  h.modify fun _ => ⟨rfl, rfl, rfl⟩

theorem Quiet.put (h : Quiet s s') (r : Nat) : Quiet s (s'.put r) :=
  h.modify fun _ => ⟨rfl, rfl, rfl⟩

theorem quiet_join (r : Nat) (l : PendingList) : Quiet s (s.join r l) := by
  have hmodified : Quiet s ((s.get r).modify r (fun q =>
      { q with stage := .waits, joined := some l.leader, waiting := true })) :=
    (Quiet.refl.get r).modify fun _ => ⟨rfl, rfl, rfl⟩
  exact hmodified

/-- A rule that leaves the client requests alone and makes no grant. -/
theorem Quiet.answers {calls : List Frame} {spawned : List Thread} (h : Quiet s s')
    (hconn : (s'.requests q).conn = true) (hcalls : weight (grants q) calls +
      total (grants q) (spawned.map Thread.stack) ≤ grants q f) :
    Answers s f ⟨s', calls, ret, spawned⟩ q := by
  obtain ⟨hold, hnotified, hreplies⟩ := h q hconn
  refine ⟨hold, hnotified.ge, .inl ?_⟩
  dsimp only
  omega

end Quiet

theorem notify_requests (s : Shared) (r q : Nat) :
    ((s.notify r).requests q).conn = (s.requests q).conn ∧
      ((s.notify r).requests q).replies = (s.requests q).replies ∧
      ((s.notify r).requests q).notified = (s.requests q).notified + if q = r then 1 else 0 := by
  rw [Shared.notify, Shared.modify_requests]
  split <;> simp_all

theorem answers_notify
    {s : Shared} {calls : List Frame} (hconn : ((s.notify r).requests q).conn = true)
    (hcalls : weight (grants q) calls ≤ grants q f ∨
      r = q ∧ (s.requests q).notified = 0 ∧ weight (grants q) calls ≤ 1) :
    Answers s f ⟨s.notify r, calls, ret, []⟩ q := by
  obtain ⟨hsame, hreplies, hnotified⟩ := notify_requests s r q
  refine ⟨hsame ▸ hconn, by dsimp only; omega, ?_⟩
  rcases hcalls with hkept | ⟨rfl, hfirst, hone⟩
  · refine .inl ?_
    simp only [map_nil, total_nil]
    omega
  refine .inr ⟨hfirst, ?_, ?_⟩
  · simp only [hnotified, if_true]
    omega
  · simp only [map_nil, total_nil]
    omega

theorem reply_requests (s : Shared) (r q : Nat) :
    ((s.reply r).requests q).conn = (s.requests q).conn ∧
      ((s.reply r).requests q).notified = (s.requests q).notified ∧
      ((s.reply r).requests q).replies ≤ (s.requests q).replies + if r = q then 1 else 0 := by
  rw [Shared.reply, Shared.modify_requests]
  split
  next heq =>
    subst heq
    split <;> simp
  · simp

theorem answers_reply
    {s : Shared} (hconn : ((s.reply r).requests q).conn = true) (hgrant : grants r f = 1) :
    Answers s f ⟨s.reply r, [], ret, []⟩ q := by
  obtain ⟨hsame, hnotified, hreplies⟩ := reply_requests s r q
  refine ⟨hsame ▸ hconn, hnotified.ge, .inl ?_⟩
  simp only [weight_nil, map_nil, total_nil]
  split at hreplies
  next heq =>
    subst heq
    omega
  · omega

theorem exec_answers {s : Shared} {e : Effect} (hrule : Exec s ret f e)
    (hcounts : ∀ r context parent, f = .childPost r context →
      (s.requests r).parentRequest = some parent → (s.requests r).childCallback = .cname →
      context.doReply = true → (s.requests parent).conn = true →
      context.skipNotifyCount = false) (hconn : (e.shared.requests q).conn = true) :
    Answers s f e q := by
  cases hrule with
  | idle | returns => exact ⟨hconn, Nat.le_refl _, .inl (by simp)⟩
  | goesOn _ g ret' hgoes => exact ⟨hconn, Nat.le_refl _, .inl (by cases hgoes <;> simp [grants])⟩
  | late _ r hf hlate => exact answers_notify hconn (.inl (by simp))
  | queryRule r | queryCached r | dns64Ipv4only r | afterDns64 child r | callComplete r
  | callPassthrough r | closingComplete r | serve leader w waiters doReply
  | childPostOther r parent context =>
    exact Quiet.refl.answers hconn (by simp [grants, replyContext])
  | post r context => exact Quiet.refl.answers hconn (by simp [grants])
  | childPostCname r parent context hparent hcname hreply =>
    refine Quiet.refl.answers hconn ?_
    have hskip : parent = q → context.skipNotifyCount = false := by
      rintro rfl
      exact hcounts r context parent rfl hparent hcname hreply hconn
    simp only [weight_cons, weight_nil, grants, map_nil, total_nil]
    split
    next hgrant =>
      have := hskip hgrant.1
      simp_all
    · simp
  | pendingJoin r key l => exact (quiet_join r l).answers hconn (by simp)
  | pendingLead r key =>
    have hled : Quiet s (s.lead r key) := Quiet.refl (s := s)
    exact hled.answers hconn (by simp [grants])
  | replyAll r doReply l =>
    have htaken : Quiet s (s.take r) := Quiet.refl (s := s)
    exact htaken.answers hconn (by simp [grants])
  | cnameLoop r key => exact (Quiet.refl.create rfl).answers hconn (by simp [grants])
  | cnameChild r key =>
    have hchained : Quiet s (s.chain r key) :=
      ((Quiet.refl.create rfl).get r).modify fun _ => ⟨rfl, rfl, rfl⟩
    exact hchained.answers hconn (by simp [grants])
  | dns64Child r key =>
    have hchild : Quiet s (s.synthesize r key) := (Quiet.refl.create rfl).get r
    exact hchild.answers hconn (by simp [grants])
  | queryPair r key =>
    have hpair : Quiet s (s.pair r key) := ((Quiet.refl.get r).get r).create rfl
    exact hpair.answers hconn (by simp [grants])
  | querySent r | queryUnsent r | callPing r =>
    exact (Quiet.refl.get r).answers hconn (by simp [grants])
  | release r doComplete | releaseComplete r | releaseLast r doComplete | pluginKeeps r
  | pluginDone r => exact (Quiet.refl.put r).answers hconn (by simp [grants])
  | callSet r value | closingFree r | leaveParent r parent | closingParent r parent =>
    refine Quiet.answers (Quiet.refl.modify fun _ => ⟨rfl, rfl, rfl⟩) hconn ?_
    simp [grants]
  | dropWaiter leader r | dropWaiterLast leader r =>
    have hunwait : Quiet s (s.unwait r) := Quiet.refl.modify fun _ => ⟨rfl, rfl, rfl⟩
    exact (hunwait.put r).answers hconn (by simp [grants])
  | closingPlugin r held =>
    have hplugged : Quiet s (s.plugged r held) := Quiet.refl.modify fun _ => ⟨rfl, rfl, rfl⟩
    refine hplugged.answers hconn ?_
    have hspawned : total (grants q)
        ((List.replicate held (⟨[.plugin r], true⟩ : Thread)).map Thread.stack) = 0 := by
      refine total_eq_zero _ ?_
      intro stack hstack f hf
      simp only [map_replicate] at hstack
      rw [eq_of_mem_replicate hstack, mem_singleton] at hf
      rw [hf]
      rfl
    rw [hspawned]
    simp [grants]
  | completeFirst r hprefetch hfirst =>
    refine answers_notify hconn ?_
    by_cases hr : r = q
    · subst hr
      exact .inr ⟨rfl, hfirst, by simp [grants, completeContext]⟩
    · exact .inl (by simp [grants, hr])
  | passFirst r doReply hfirst =>
    refine answers_notify hconn ?_
    by_cases hr : r = q
    · subst hr
      refine .inr ⟨rfl, hfirst, ?_⟩
      cases doReply <;> simp [grants]
    · exact .inl (by simp [grants, hr])
  | closingSkip r hlate => exact answers_notify hconn (.inl (by simp [grants]))
  | closingPost r first hfirst =>
    refine answers_notify hconn ?_
    by_cases hr : r = q
    · subst hr
      cases first with
      | true => exact .inr ⟨rfl, hfirst.mp rfl, by simp [grants]⟩
      | false => exact .inl (by simp [grants])
    · exact .inl (by simp [grants, hr])
  | postReplyCounted r context hreply hskip =>
    exact answers_reply hconn (by simp [grants, hreply, hskip])
  | passReply r => exact answers_reply hconn (by simp [grants])
  | postReplyFirst r context hskip hfirst =>
  obtain ⟨hsame, hreplies, hnotified⟩ := notify_requests s r q
  obtain ⟨hsame', hnotified', hreplies'⟩ := reply_requests (s.notify r) r q
  refine ⟨by rw [← hsame, ← hsame']; exact hconn, by dsimp only; omega, ?_⟩
  simp only [weight_nil, map_nil, total_nil]
  by_cases hr : r = q
  · subst hr
    simp only [if_true] at hnotified hreplies'
    exact .inr ⟨hfirst, by omega, by omega⟩
  · rw [if_neg hr] at hreplies'
    exact .inl (by omega)

/-! ## Runs -/

namespace RequestSystem

/-- The answer of a client request: one reply or one right to reply, and none before
somebody has counted. -/
structure AnswersOnce (s : RequestSystem) : Prop where
  closed : s.Closed
  once : ∀ q, (s.shared.requests q).conn = true →
    (s.shared.requests q).replies + total (grants q) s.frames ≤ 1
  uncounted : ∀ q, (s.shared.requests q).conn = true → (s.shared.requests q).notified = 0 →
    (s.shared.requests q).replies + total (grants q) s.frames = 0

theorem answersOnce_init : AnswersOnce {} := by
  refine ⟨closed_init, ?_, ?_⟩ <;> simp

theorem answersOnce_step
    {s s' : RequestSystem} {e : RequestEvent} (hstep : Stepped s e s') (h : s.AnswersOnce)
    (hok : CountsForParent s e) :
    s'.AnswersOnce := by
  have hclosed := closed_step hstep h.closed
  cases hstep with
  | stutter => exact h
  | start requester key accepted =>
    have hframes : ∀ q, total (grants q) (frames
        { shared := s.shared.create
            { conn := requester = .client, prefetch := requester = .prefetch, key := key }
          threads := s.threads ++ [creator requester s.shared.next accepted] }) =
        total (grants q) s.frames := by
      intro q
      simp only [frames, map_append, total_append, creator]
      split <;> simp [grants]
    have hnew : total (grants s.shared.next) s.frames = 0 :=
      h.closed.total_eq_zero (Nat.le_refl _) fun f hf => grants_eq_zero hf
    refine ⟨hclosed, ?_, ?_⟩
    · intro q hconn
      rw [hframes]
      simp only [Shared.create_requests] at hconn ⊢
      split at hconn
      next heq =>
        subst heq
        simp [hnew]
      next hne =>
        rw [if_neg hne]
        exact h.once q hconn
    · intro q hconn hnotified
      rw [hframes]
      simp only [Shared.create_requests] at hconn hnotified ⊢
      split at hconn
      next heq =>
        subst heq
        simp [hnew]
      next hne =>
        rw [if_neg hne] at hnotified ⊢
        exact h.uncounted q hconn hnotified
  | run t f rest ret effect hthread htop hrule =>
  have hrule' : ∀ q, (effect.shared.requests q).conn = true →
      Answers s.shared f effect q := by
    intro q hconn
    refine exec_answers hrule ?_ hconn
    rintro r context parent rfl
    exact hok r context parent htop
  refine ⟨hclosed, ?_, ?_⟩
  · intro q hconn
    have hanswers := hrule' q hconn
    have honce := h.once q hanswers.conn
    have hframes := total_apply hthread (grants q) effect
    show (effect.shared.requests q).replies + _ ≤ 1
    rcases hanswers.rights with hkept | ⟨hzero, -, hfirst⟩
    · omega
    · have huncounted := h.uncounted q hanswers.conn hzero
      omega
  · intro q hconn hnotified
    have hanswers := hrule' q hconn
    have hframes := total_apply hthread (grants q) effect
    have hzero : (s.shared.requests q).notified = 0 :=
      Nat.le_zero.mp (hanswers.notified.trans hnotified.le)
    have huncounted := h.uncounted q hanswers.conn hzero
    show (effect.shared.requests q).replies + _ = 0
    rcases hanswers.rights with hkept | ⟨-, hcounted, -⟩
    · omega
    · change (effect.shared.requests q).notified = 0 at hnotified
      omega

/-- **A client request is answered at most once.** -/
theorem answered_at_most_once
    (events : List RequestEvent) (hok : Admissible step CountsForParent {} events) (r : Nat)
    (hclient : ((run step {} events).shared.requests r).conn = true) :
    ((run step {} events).shared.requests r).replies ≤ 1 := by
  have hinv := run_invariant step AnswersOnce
    (fun s e h hok => answersOnce_step (stepped s e) h hok) answersOnce_init hok
  exact (Nat.le_add_right _ _).trans (hinv.once r hclient)

/-- A client asks for a name with a `CNAME` rule. -/
def askedForCname : List RequestEvent :=
  [.start .client (some 0) true, .run 0 {}, .run 0 {}, .run 0 { cname := .child (some 1) }]

/-- A rule answers the child, and the thread comes to its end. -/
theorem answered_at_most_once_childRule :
    let s := run step {} (askedForCname ++ List.replicate 25 (.run 0 { route := .rule }))
    s.threads.map Thread.stack = [[]] ∧ (s.shared.requests 0).replies = 1 ∧
      (s.shared.requests 0).replies ≤ 1 :=
  ⟨by decide +kernel, by decide +kernel,
    answered_at_most_once _ (by decide +kernel) 0 (by decide +kernel)⟩

/-- The upstream query of the child ends, and its answer was complete before or is not. -/
def answeredByChild (early : Bool) : List RequestEvent :=
  askedForCname ++ List.replicate 9 (.run 0 {}) ++
    (if early then .call 1 .complete :: List.replicate 12 (.run 1 {}) else []) ++
    [.call 1 .finish] ++ List.replicate 15 (.run 1 {})

/-- The child replies for its parent when its answer is complete, or else when it is
released, and the parent replies again when the child lets it go. -/
theorem child_answers_twice :
    let parent early := (run step {} (answeredByChild early)).shared.requests 0
    ((parent true).conn = true ∧ (parent true).replies = 2) ∧
      (parent false).conn = true ∧ (parent false).replies = 2 := by
  decide +kernel

end RequestSystem

end SmartDns.Server
