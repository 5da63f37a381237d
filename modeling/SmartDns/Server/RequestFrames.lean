import SmartDns.Server.RequestCases

/-!
# Frames and requests

Every frame, every parent pointer and every pending list names requests that have
been created.
-/

namespace SmartDns.Server

open Server.Frame List

variable {n : Nat} {f : Frame} {ret : Bool}

/-! ## Updates of a request -/

namespace Shared

variable (s : Shared)
variable (r r' : Nat)

@[simp] theorem modify_next (f : RequestState → RequestState) : (s.modify r f).next = s.next := rfl

@[simp] theorem modify_requests (f : RequestState → RequestState) :
    (s.modify r f).requests r' = if r' = r then f (s.requests r) else s.requests r' := by
  simp [modify, Function.update_apply]

@[simp] theorem create_next (request : RequestState) : (s.create request).next = s.next + 1 := rfl

@[simp] theorem create_requests (request : RequestState) :
    (s.create request).requests r =
      if r = s.next then { request with refcnt := 1 } else s.requests r := by
  simp [create, Function.update_apply]

end Shared

/-! ## The requests that a frame names -/

variable {s : Shared} {r : Nat}

def Frame.ids : Frame → List Nat
  | .created r _ => [r]
  | .doQuery r => [r]
  | .setToPendingList r => [r]
  | .processCname r => [r]
  | .afterCname child => [child]
  | .processDns64 r => [r]
  | .afterDns64 child r => [child, r]
  | .clientQuery r => [r]
  | .callback r => [r]
  | .plugin r => [r]
  | .complete r => [r]
  | .passthrough r _ => [r]
  | .post r _ => [r]
  | .childPost r _ => [r]
  | .leaveParent r parent _ => [r, parent]
  | .postReply r _ => [r]
  | .passReply r _ => [r]
  | .replyAll r _ => [r]
  | .serve leader waiters _ => leader :: waiters
  | .dropWaiter leader r => [leader, r]
  | .release r _ => [r]
  | .closing r _ => [r]
  | .pluginDone r => [r]

/-- The frames name requests below `n`. -/
def FramesBelow (n : Nat) (frames : List Frame) : Prop :=
  ∀ f ∈ frames, ∀ r ∈ f.ids, r < n

theorem FramesBelow.mono {m : Nat} {frames : List Frame} (h : FramesBelow n frames) (hle : n ≤ m) :
    FramesBelow m frames :=
  fun f hf r hr => (h f hf r hr).trans_le hle

/-- The shared state names requests that exist, and a child is younger than its parent. -/
structure SharedOk (s : Shared) : Prop where
  parents : ∀ r p, (s.requests r).parentRequest = some p → p < r
  pending : ∀ l ∈ s.pending, l.leader < s.next ∧ ∀ w ∈ l.requests, w < s.next
  fresh : ∀ r, s.next ≤ r → s.requests r = {}

theorem SharedOk.parent_lt {p : Nat} (h : SharedOk s) (hp : (s.requests r).parentRequest = some p) :
    p < s.next := by
  by_contra hge
  have hr : s.next ≤ r := by
    have := h.parents r p hp
    omega
  rw [h.fresh r hr] at hp
  cases hp

theorem SharedOk.modify {f : RequestState → RequestState} (h : SharedOk s) (hr : r < s.next)
    (hparent : ∀ q p, (f q).parentRequest = some p → q.parentRequest = some p) :
    SharedOk (s.modify r f) where
  parents := by
    intro r' p hp
    rw [Shared.modify_requests] at hp
    split at hp
    next heq =>
      rw [heq]
      exact h.parents r p (hparent _ _ hp)
    · exact h.parents r' p hp
  pending := h.pending
  fresh := by
    intro r' hr'
    rw [Shared.modify_requests, if_neg (by simp at hr'; omega)]
    exact h.fresh r' hr'

theorem SharedOk.create {request : RequestState} (h : SharedOk s)
    (hparent : ∀ p, request.parentRequest = some p → p < s.next) :
    SharedOk (s.create request) where
  parents := by
    intro r p hp
    rw [Shared.create_requests] at hp
    split at hp
    next heq =>
      rw [heq]
      exact hparent p hp
    · exact h.parents r p hp
  pending := by
    intro l hl
    obtain ⟨hleader, hrequests⟩ := h.pending l hl
    exact ⟨hleader.trans (Nat.lt_succ_self _),
      fun w hw => (hrequests w hw).trans (Nat.lt_succ_self _)⟩
  fresh := by
    intro r hr
    simp only [Shared.create_next] at hr
    rw [Shared.create_requests, if_neg (by omega)]
    exact h.fresh r (by omega)

theorem SharedOk.setPending {pending : List PendingList} (h : SharedOk s)
    (hpending : ∀ l ∈ pending, l.leader < s.next ∧ ∀ w ∈ l.requests, w < s.next) :
    SharedOk { s with pending := pending } where
  parents := h.parents
  pending := hpending
  fresh := h.fresh

/-- What a frame leaves behind names requests that exist. -/
structure EffectOk (s : Shared) (e : Effect) : Prop where
  shared : SharedOk e.shared
  next : s.next ≤ e.shared.next
  calls : FramesBelow e.shared.next e.calls
  spawned : ∀ thread ∈ e.spawned, FramesBelow e.shared.next thread.stack

theorem framesBelow_singleton : FramesBelow n [f] ↔ ∀ r ∈ f.ids, r < n := by
  simp [FramesBelow]

theorem framesBelow_nil : FramesBelow n [] := by
  simp [FramesBelow]

theorem GoesOn.ids_subset {g : Frame} (h : GoesOn s f g) : ∀ r ∈ g.ids, r ∈ f.ids := by
  cases h <;> simp [ids]

section

variable (h : SharedOk s)
include h

/-- An effect on one request, which makes calls and starts threads. -/
theorem EffectOk.of_modify
    {f : RequestState → RequestState} {calls : List Frame} {spawned : List Thread} (hr : r < s.next)
    (hparent : ∀ q p, (f q).parentRequest = some p → q.parentRequest = some p)
    (hcalls : FramesBelow s.next calls)
    (hspawned : ∀ thread ∈ spawned, FramesBelow s.next thread.stack) :
    EffectOk s ⟨s.modify r f, calls, ret, spawned⟩ :=
  ⟨h.modify hr hparent, Nat.le_refl _, hcalls, hspawned⟩

theorem EffectOk.of_calls {calls : List Frame} (hcalls : FramesBelow s.next calls) :
    EffectOk s ⟨s, calls, ret, []⟩ :=
  ⟨h, Nat.le_refl _, hcalls, by simp⟩

theorem SharedOk.join {l : PendingList} (hr : r < s.next) : SharedOk (s.join r l) := by
  have hmodified := (h.modify (f := fun q => { q with refcnt := q.refcnt + 1 }) hr
    (fun _ _ hp => hp)).modify
    (f := fun q => { q with stage := .waits, joined := some l.leader, waiting := true }) hr
    (fun _ _ hp => hp)
  refine hmodified.setPending ?_
  intro l' hl'
  obtain ⟨l'', hl'', rfl⟩ := mem_map.mp hl'
  obtain ⟨hleader, hrequests⟩ := h.pending l'' hl''
  split
  · refine ⟨hleader, ?_⟩
    intro w hw
    rcases mem_append.mp hw with hold | hnew
    · exact hrequests w hold
    · rw [mem_singleton.mp hnew]
      exact hr
  · exact ⟨hleader, hrequests⟩

theorem SharedOk.lead {key : Nat} (hr : r < s.next) : SharedOk (s.lead r key) := by
  refine h.setPending ?_
  intro l hl
  rcases mem_append.mp hl with hold | hnew
  · exact h.pending l hold
  · rw [mem_singleton.mp hnew]
    exact ⟨hr, by simp⟩

theorem SharedOk.take : SharedOk (s.take r) :=
  h.setPending fun l hl => h.pending l (mem_of_mem_filter hl)

theorem SharedOk.get (hr : r < s.next) : SharedOk (s.get r) :=
  h.modify hr fun _ _ hp => hp

theorem SharedOk.notify (hr : r < s.next) : SharedOk (s.notify r) :=
  h.modify hr fun _ _ hp => hp

theorem SharedOk.unwaited (hr : r < s.next) : SharedOk ((s.unwait r).put r) :=
  (h.modify hr fun _ _ hp => hp : SharedOk (s.unwait r)).modify hr fun _ _ hp => hp

theorem SharedOk.reply (hr : r < s.next) : SharedOk (s.reply r) := by
  refine h.modify hr ?_
  intro q p hp
  split at hp <;> exact hp

theorem SharedOk.createChild {request : RequestState}
    (hrequest : request.parentRequest = some r) (hr : r < s.next) :
    SharedOk (s.create request) := by
  refine h.create ?_
  intro p hp
  obtain rfl : r = p := Option.some.inj (hrequest.symm.trans hp)
  exact hr

end

theorem exec_ok {e : Effect} (hrule : Exec s ret f e) (h : SharedOk s)
    (hf : ∀ r ∈ f.ids, r < s.next) :
    EffectOk s e := by
  cases hrule with
  | idle => exact .of_calls h (framesBelow_singleton.mpr hf)
  | returns => exact .of_calls h framesBelow_nil
  | goesOn _ g ret' hgoes =>
    exact .of_calls h (framesBelow_singleton.mpr fun r hr => hf r (hgoes.ids_subset r hr))
  | late _ r hcounts =>
    have hr : r < s.next := by cases hcounts <;> simpa [ids] using hf
    exact .of_modify h hr (fun _ _ hp => hp) framesBelow_nil (by simp)
  | queryRule r | queryCached r | dns64Ipv4only r | afterDns64 child r | callComplete r
  | callPassthrough r | post r context | closingComplete r =>
    refine .of_calls h ?_
    simpa [FramesBelow, ids] using hf
  | serve leader w waiters doReply =>
    refine .of_calls h ?_
    simp only [ids, mem_cons, forall_eq_or_imp] at hf
    simpa [FramesBelow, ids, hf.1, hf.2.1] using hf.2.2
  | childPostCname r parent context hparent | childPostOther r parent context hparent =>
    have hlt := h.parent_lt hparent
    refine .of_calls h ?_
    simp_all [FramesBelow, ids]
  | pendingJoin r key l =>
    have hr : r < s.next := by simpa [ids] using hf
    exact ⟨h.join hr, Nat.le_refl _, framesBelow_nil, by simp⟩
  | pendingLead r key =>
    have hr : r < s.next := by simpa [ids] using hf
    exact ⟨h.lead hr, Nat.le_refl _, framesBelow_singleton.mpr hf, by simp⟩
  | replyAll r doReply l hlist =>
    have hleader : l.leader = r := by simpa using find?_some hlist
    refine ⟨h.take, Nat.le_refl _, framesBelow_singleton.mpr ?_, by simp⟩
    have hl := h.pending l (mem_of_find?_eq_some hlist)
    rw [hleader] at hl
    simpa [ids, Shared.take] using hl
  | cnameLoop r key =>
    have hr : r < s.next := by simpa [ids] using hf
    refine ⟨h.create (by simp [Shared.subRequest]), Nat.le_succ _, ?_, by simp⟩
    simp [FramesBelow, ids]
    omega
  | cnameChild r key =>
    have hr : r < s.next := by simpa [ids] using hf
    have hr' : r < s.next + 1 := by omega
    have hchild : SharedOk (s.chain r key) :=
      ((h.createChild rfl hr).get hr').modify hr' fun _ _ hp => hp
    refine ⟨hchild, Nat.le_succ _, ?_, by simp⟩
    simp [FramesBelow, ids, Shared.chain, Shared.get]
  | dns64Child r key =>
    have hr : r < s.next := by simpa [ids] using hf
    have hr' : r < s.next + 1 := by omega
    refine ⟨(h.createChild rfl hr).get hr', Nat.le_succ _, ?_, by simp⟩
    simp [FramesBelow, ids, Shared.synthesize, Shared.get]
    omega
  | querySent r =>
    refine .of_modify h (by simpa [ids] using hf) (fun _ _ hp => hp) framesBelow_nil ?_
    simpa [FramesBelow, ids] using hf
  | queryPair r key =>
    have hr : r < s.next := by simpa [ids] using hf
    refine ⟨((h.get hr).get hr).create (by simp [Shared.subRequest]), Nat.le_succ _,
      framesBelow_nil, ?_⟩
    simp [FramesBelow, ids, Shared.pair, Shared.get]
    omega
  | callPing r =>
    refine .of_modify h (by simpa [ids] using hf) (fun _ _ hp => hp)
      (framesBelow_singleton.mpr hf) ?_
    simpa [FramesBelow, ids] using hf
  | closingPlugin r held =>
    refine .of_modify h (by simpa [ids] using hf) (fun _ _ hp => hp)
      (by simpa [FramesBelow, ids] using hf) ?_
    intro thread hthread
    rw [eq_of_mem_replicate hthread]
    simpa [FramesBelow, ids] using hf
  | release r doComplete | closingFree r | pluginKeeps r =>
    exact .of_modify h (by simpa [ids] using hf) (fun _ _ hp => hp) framesBelow_nil (by simp)
  | queryUnsent r | callSet r value | completeFirst r | passFirst r doReply
  | releaseComplete r | releaseLast r doComplete | closingSkip r | closingPost r first
  | pluginDone r =>
    refine .of_modify h (by simpa [ids] using hf) (fun _ _ hp => hp)
      (by simpa [FramesBelow, ids] using hf) (by simp)
  | postReplyCounted r context | passReply r =>
    exact ⟨h.reply (by simpa [ids] using hf), Nat.le_refl _, framesBelow_nil, by simp⟩
  | leaveParent r parent =>
    refine .of_modify h (hf r (by simp [ids])) (by simp) ?_ (by simp)
    exact framesBelow_singleton.mpr fun p hp => hf p (by simp_all [ids])
  | closingParent r parent hparent =>
    have hlt := h.parent_lt hparent
    refine .of_modify h (hf r (by simp [ids])) (by simp) ?_ (by simp)
    simp_all [FramesBelow, ids]
  | postReplyFirst r context =>
    have hr : r < s.next := by simpa [ids] using hf
    exact ⟨(h.notify hr).reply hr, Nat.le_refl _, framesBelow_nil, by simp⟩
  | dropWaiter leader r =>
    exact ⟨h.unwaited (hf r (by simp [ids])), Nat.le_refl _, framesBelow_nil, by simp⟩
  | dropWaiterLast leader r =>
    have hr : r < s.next := hf r (by simp [ids])
    refine ⟨h.unwaited hr, Nat.le_refl _, framesBelow_singleton.mpr ?_, by simp⟩
    intro r' hr'
    rwa [mem_singleton.mp hr']

/-! ## The system -/

namespace RequestSystem

/-- Everything that the system names exists. -/
structure Closed (s : RequestSystem) : Prop where
  shared : SharedOk s.shared
  frames : ∀ stack ∈ s.frames, FramesBelow s.shared.next stack

theorem closed_init : Closed {} := by
  constructor
  · constructor <;> simp
  · simp [frames]

theorem mem_frames
    {s : RequestSystem} {t : Nat} {stack : List Frame} (h : s.threads[t]? = some ⟨stack, ret⟩) :
    stack ∈ s.frames :=
  mem_of_getElem? (frames_getElem h)

theorem Closed.top {s : RequestSystem} {t : Nat} {rest : List Frame} (h : s.Closed)
    (hthread : s.threads[t]? = some ⟨f :: rest, ret⟩) :
    ∀ r ∈ f.ids, r < s.shared.next :=
  h.frames _ (mem_frames hthread) f mem_cons_self

theorem closed_step
    {s s' : RequestSystem} {e : RequestEvent} (hstep : Stepped s e s') (h : s.Closed) :
    s'.Closed := by
  cases hstep with
  | stutter => exact h
  | start requester key accepted =>
    refine ⟨h.shared.create (by simp), ?_⟩
    intro stack hstack
    simp only [frames, map_append, map_cons, map_nil, mem_append, mem_singleton] at hstack
    rcases hstack with hold | rfl
    · exact (h.frames stack hold).mono (Nat.le_succ _)
    · simp only [creator]
      split <;> simp [FramesBelow, ids]
  | run t f rest ret effect hthread htop hrule =>
  have heffect := exec_ok hrule h.shared (h.top hthread)
  refine ⟨heffect.shared, ?_⟩
  intro stack hstack
  rw [frames_apply] at hstack
  rcases mem_append.mp hstack with hold | hnew
  · rcases mem_or_eq_of_mem_set hold with hother | rfl
    · exact (h.frames stack hother).mono heffect.next
    · intro g hg
      rcases mem_append.mp hg with hcall | hrest
      · exact heffect.calls g hcall
      · have hbelow := (h.frames _ (mem_frames hthread)).mono heffect.next
        exact hbelow g (mem_cons_of_mem _ hrest)
  · obtain ⟨thread, hmem, rfl⟩ := mem_map.mp hnew
    exact heffect.spawned thread hmem

theorem Closed.total_eq_zero
    {s : RequestSystem} (h : s.Closed) {φ : Frame → Nat} {q : Nat} (hq : s.shared.next ≤ q)
    (hφ : ∀ f, q ∉ f.ids → φ f = 0) :
    Stacks.total φ s.frames = 0 := by
  refine Stacks.total_eq_zero φ ?_
  intro stack hstack f hf
  refine hφ f ?_
  intro hmem
  have := h.frames stack hstack f hf q hmem
  omega

end RequestSystem

end SmartDns.Server
