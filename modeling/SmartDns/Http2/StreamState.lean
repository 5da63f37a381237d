import SmartDns.Http2.StreamCounts
import SmartDns.Http2.StreamLife

/-!
# The state of a stream and its two ends

A stream has a state and two flags, one for each direction that has ended.  The
handlers update them one by one.  `stateEvent` names the four situations in
which a handler sets a flag and leaves the state behind; in every run without
them the state is the one that the flags and the resets determine.
-/

namespace SmartDns.Http2

open StreamEdit

variable {r : Prop} {v : StreamView} {e : StreamEdit} {t : StreamTable} {p : StreamPtr}
variable {ctx : Http2Ctx} {ev : Event} {resets : StreamPtr → Bool}

/-- A complete header block is taken for the stream and ends it, and the fields in it announce
another length than that of the body. -/
def decodedResets (ctx : Http2Ctx) (p : StreamPtr) (refuse : Bool) (headersFlags : Nat) : Bool :=
  let s := (decoderRan ctx (.stream p)).heap p
  (runDecoder ctx (.stream p)).ok && !refuse && hasFlag headersFlags flagEndStream &&
    contentLengthMismatch s s.bodyBuffer.length true

/-- The fragment completes such a block. -/
def blockResets (ctx : Http2Ctx) (p : StreamPtr) (refuse : Bool) (fragment : Bytes) (flags : Nat)
    (isContinuation : Bool) : Bool :=
  let ctx := if isContinuation then ctx else setTargetHeaders ctx [] (.stream p)
  ctx.headerBlockBuffer.length + fragment.length ≤ maxHeaderBlockSize &&
    hasFlag flags flagEndHeaders &&
    decodedResets { ctx with headerBlockBuffer := ctx.headerBlockBuffer ++ fragment } p refuse
      (if isContinuation then ctx.continuationFlags else flags)

/-- The same for the stream of a frame, which may be a new one. -/
def headersReset (ctx : Http2Ctx) (streamId : Nat) (fragment : Bytes) (flags : Nat)
    (isContinuation refuse : Bool) (p : StreamPtr) : Bool :=
  match http2FindStream ctx streamId with
  | some q =>
    p = q && !((ctx.heap p).endStreamReceived || (ctx.heap p).state == .closed) &&
      blockResets ctx p refuse fragment flags isContinuation
  | none =>
    p = ctx.nextPtr && !isContinuation && !refuse && !tooManyStreams ctx streamId &&
      !(0 < ctx.maxConcurrentStreams && ctx.maxConcurrentStreams ≤ ctx.activePeerStreams) &&
      blockResets (http2CreateStream ctx streamId).1 p false fragment flags false

/-- The body that a DATA frame makes is not as long as it was announced. -/
def dataReset (ctx : Http2Ctx) (streamId : Nat) (data : Bytes) (flags : Nat) (p : StreamPtr) :
    Bool :=
  let s := ctx.heap p
  streamId != 0 && http2FindStream ctx streamId == some p &&
    !(s.endStreamReceived || s.state == .halfClosedRemote || s.state == .closed) &&
    (s.bodyBuffer.length : Int) ≤ intMax - data.length &&
    contentLengthMismatch s (s.bodyBuffer.length + data.length) (hasFlag flags flagEndStream)

/-- The streams that a frame resets: RST_STREAM arrived for a stream, or the length that was
announced for its body is wrong. -/
def frameResets (ctx : Http2Ctx) (f : Frame) (p : StreamPtr) : Bool :=
  if f.type = frameData then dataReset ctx f.streamId f.payload f.flags p
  else if f.type = frameHeaders then
    f.streamId != 0 && (headersFragment f.payload f.flags).any
      fun fragment => headersReset ctx f.streamId fragment f.flags false false p
  else if f.type = frameContinuation then
    f.streamId != 0 && ctx.continuationStreamId == f.streamId && ctx.continuationActive &&
      !hasFlag f.flags (0xFF - flagEndHeaders) &&
      headersReset ctx f.streamId f.payload f.flags true ctx.continuationRefuseStream p
  else
    f.type == frameRstStream && f.payload.length == 4 && f.streamId != 0 &&
      http2FindStream ctx f.streamId == some p

/-- `http2_stream_close` sends what is queued. -/
def closeFlush (ctx : Http2Ctx) (p : StreamPtr) : Http2Ctx × Bool :=
  http2StreamFlushPendingSend (ctx.modifyStream p fun s => { s with closeAfterSend := true }) p

/-- The streams that an event resets, told from the event and the connection that it meets.  A
call of `http2_stream_close` resets a stream whose queue cannot be sent. -/
def resetBy (ctx : Http2Ctx) : Event → StreamPtr → Bool
  | .recvFrame f, p =>
    !ctx.ioClosed && f.payload.length ≤ ctx.localMaxFrameSize &&
      f.payload.length ≤ defaultMaxFrameSize &&
      !(ctx.continuationActive && f.type != frameContinuation) && frameResets ctx f p
  | .close q, p =>
    p = q && (ctx.heap p).linked && http2StreamHasPendingSend (ctx.heap p) &&
      !(closeFlush ctx p).2 && (closeFlush ctx p).1.io.errno != .eagain
  | _, _ => false

def observeResets (ctx : Http2Ctx) (e : Event) (resets : StreamPtr → Bool) : StreamPtr → Bool :=
  fun p => resets p || resetBy ctx e p

/-- The state of a stream is the one that its flags determine. -/
structure StateAgrees (reset : Bool) (s : Http2Stream) : Prop where
  closed : s.state = .closed ↔
    reset = true ∨ s.endStreamSent = true ∧ s.endStreamReceived = true
  halfClosed :
    ¬(reset = true ∨ s.endStreamSent = true ∧ s.endStreamReceived = true) →
      (s.state = .halfClosedLocal ↔ s.endStreamSent = true) ∧
        (s.state = .halfClosedRemote ↔ s.endStreamReceived = true)

/--
The end of a direction finds a state that its handler moves on from: no request
without a body is sent, no body ends on an idle stream, and no headers end the
peer's direction after the own one has ended.
-/
def stateEvent (ctx : Http2Ctx) : Event → Prop
  | .setRequest p method _ _ _ =>
    method.bytes = ascii "GET" ∨ method.bytes = ascii "HEAD" →
      (ctx.heap p).state = .closed ∨ (ctx.heap p).endStreamSent = true
  | .writeBody p _ endStream => endStream = true → (ctx.heap p).state ≠ .idle
  | .recvFrame f =>
    ∀ p, http2FindStream ctx f.streamId = some p →
      (f.type = frameData → hasFlag f.flags flagEndStream = true → (ctx.heap p).state ≠ .idle) ∧
      (f.type = frameHeaders ∨ f.type = frameContinuation →
        hasFlag (if f.type = frameContinuation then ctx.continuationFlags else f.flags)
          flagEndStream = true → (ctx.heap p).state ≠ .halfClosedLocal)
  | _ => True

/-! ### One stream -/

def FlagsAgree (v : StreamView) : Prop :=
  match v.state with
  | .idle | .opened => v.endStreamSent = false ∧ v.endStreamReceived = false
  | .halfClosedLocal => v.endStreamSent = true ∧ v.endStreamReceived = false
  | .halfClosedRemote => v.endStreamSent = false ∧ v.endStreamReceived = true
  | .closed => True

/-- What every edit keeps of a stream. -/
@[mk_iff] structure ViewOk (reset : Prop) (v : StreamView) : Prop where
  flags : FlagsAgree v
  closed : v.state = .closed → reset ∨ v.endStreamSent = true ∧ v.endStreamReceived = true
  idle : v.state = .idle → v.pendingEnd = false

/-- The edits that keep the agreement in the state they meet. -/
def EditOk (v : StreamView) : StreamEdit → Prop
  | .close | .reset => False
  | .request endStream => endStream = true → v.state = .closed ∨ v.endStreamSent = true
  | .headers endStream =>
    v.endStreamReceived = false ∧ v.state ≠ .closed ∧
      (endStream = true → v.state ≠ .halfClosedLocal)
  | .data _ endStream =>
    v.endStreamReceived = false ∧ v.state ≠ .closed ∧ (endStream = true → v.state ≠ .idle)
  | .queueEnd endStream => endStream = true → v.state ≠ .idle
  | .endSent => v.state ≠ .idle
  | .unlink | .inflate _ | .readEnd | .clearQueue => True

section

variable (h : ViewOk r v)
include h

theorem ViewOk.mono {r' : Prop} (hr : r → r') : ViewOk r' v :=
  ⟨h.flags, fun hclosed => (h.closed hclosed).imp_left hr, h.idle⟩

theorem ViewOk.endSent (hidle : v.state ≠ .idle) : ViewOk r v.endSent := by
  rw [viewOk_iff] at h ⊢
  cases hstate : v.state <;> cases hsent : v.endStreamSent <;>
    simp_all [FlagsAgree, StreamView.endSent]

theorem ViewOk.opened : ViewOk r v.opened := by
  rw [viewOk_iff] at h ⊢
  cases hstate : v.state <;> simp_all [FlagsAgree, StreamView.opened]

theorem ViewOk.headersEnd (hidle : v.state ≠ .idle) (hclosed : v.state ≠ .closed)
    (hlocal : v.state ≠ .halfClosedLocal) :
    ViewOk r v.headersEnd := by
  rw [viewOk_iff] at h ⊢
  cases hstate : v.state <;> simp_all [FlagsAgree, StreamView.headersEnd]

theorem ViewOk.dataEnd (hidle : v.state ≠ .idle) (hclosed : v.state ≠ .closed) :
    ViewOk r v.dataEnd := by
  rw [viewOk_iff] at h ⊢
  cases hstate : v.state <;> simp_all [FlagsAgree, StreamView.dataEnd]

theorem ViewOk.congr {v' : StreamView} (hstate : v'.state = v.state)
    (hsent : v'.endStreamSent = v.endStreamSent)
    (hreceived : v'.endStreamReceived = v.endStreamReceived)
    (hpending : v.state = .idle → v'.pendingEnd = true → v.pendingEnd = true) :
    ViewOk r v' := by
  rw [viewOk_iff, FlagsAgree, hstate, hsent, hreceived]
  refine ⟨h.flags, h.closed, fun hidle => ?_⟩
  have := h.idle hidle
  cases hp : v'.pendingEnd with
  | false => rfl
  | true => simpa [this] using hpending hidle hp

theorem ViewOk.edit (he : EditOk v e) : ViewOk r (e.apply v) := by
  cases e with
  | close => exact he.elim
  | reset => exact he.elim
  | unlink | inflate | readEnd => exact h.congr rfl rfl rfl fun _ => id
  | clearQueue => exact h.congr rfl rfl rfl fun _ hpending => by cases hpending
  | queueEnd endStream =>
    refine h.congr rfl rfl rfl fun hidle hpending => ?_
    cases endStream with
    | false => simpa [apply] using hpending
    | true => exact absurd hidle (he rfl)
  | request endStream =>
    cases endStream with
    | false =>
      refine h.opened.congr (by rfl) ?_ (by rfl) (fun _ => id)
      simp [apply, StreamView.opened]
    | true =>
      rcases he rfl with hclosed | hsent
      · refine ⟨?_, ?_, ?_⟩
        · simp [FlagsAgree, apply, StreamView.opened, hclosed]
        · intro _
          refine (h.closed hclosed).imp_right fun hboth => ⟨?_, hboth.2⟩
          simp [apply]
        · simp [apply, StreamView.opened, hclosed]
      · refine h.opened.congr (by rfl) ?_ (by rfl) (fun _ => id)
        simp [apply, StreamView.opened, hsent]
  | headers endStream =>
    obtain ⟨hreceived, hclosed, hlocal⟩ := he
    cases endStream with
    | false => exact h.opened
    | true =>
      refine h.opened.headersEnd ?_ ?_ ?_ <;>
        cases hstate : v.state <;> simp_all [StreamView.opened]
  | data payload endStream =>
    obtain ⟨hreceived, hclosed, hidle⟩ := he
    have hbody : ViewOk r { v with body := v.body ++ payload } := h.congr rfl rfl rfl fun _ => id
    cases endStream with
    | false => exact hbody
    | true => exact hbody.dataEnd (hidle rfl) hclosed
  | endSent => exact h.endSent he

end

theorem ViewOk.stateAgrees {reset : Bool} {s : Http2Stream} (h : ViewOk (reset = true) s.view)
    (hreset : reset = true → s.state = .closed) :
    StateAgrees reset s := by
  have hflags := h.flags
  have hclosed := h.closed
  simp only [Http2Stream.view] at hflags hclosed
  refine ⟨⟨hclosed, ?_⟩, ?_⟩
  · rintro (hr | ⟨hsent, hreceived⟩)
    · exact hreset hr
    · cases hstate : s.state <;> simp_all [FlagsAgree]
  · intro hopen
    cases hstate : s.state <;> simp_all [FlagsAgree]

theorem EditOk.closed (he : EditOk v e) (hclosed : v.state = .closed) :
    (e.apply v).state = .closed := by
  cases e with
  | close => exact he.elim
  | reset => exact he.elim
  | headers | data => exact absurd hclosed he.2.1
  | request endStream => simp [apply, StreamView.opened, hclosed]
  | endSent =>
    simp only [apply, StreamView.endSent]
    split
    · exact hclosed
    · simp [hclosed]
  | _ => exact hclosed

/-! ### The table during an event -/

/-- A stream that the event under way may close. -/
def closing : Event → StreamPtr → Prop
  | .recvFrame f, _ => f.forStream ∨ f.type = frameRstStream
  | .close q, p => p = q
  | _, _ => False

/-- What every operation of an event keeps of the table. -/
structure TableOk (resets : StreamPtr → Bool) (e : Event) (t : StreamTable) : Prop where
  view : ∀ p, (t.view p).linked = true → ViewOk (resets p = true ∨ closing e p) (t.view p)
  closed : ∀ p, (t.view p).linked = true → resets p = true → (t.view p).state = .closed
  resets_lt : ∀ p, resets p = true → p < t.nextPtr

theorem Flushing.editOk {q : StreamPtr} (h : Flushing q t (.edit p e))
    (hview : ViewOk r (t.view p)) : EditOk (t.view p) e := by
  cases h with
  | clearQueue => trivial
  | endSent hpending =>
    intro hidle
    rw [hview.idle hidle] at hpending
    cases hpending

/-- An allowed edit keeps the agreement, or it closes the stream. -/
theorem Allowed.editOk
    (h : Allowed ctx ev t (.edit p e)) (hev : stateEvent ctx ev) (hview : ViewOk r (t.view p)) :
    EditOk (t.view p) e ∨ (e.apply (t.view p)).state = .closed ∧ closing ev p := by
  cases h with
  | drain _ hdrain =>
    cases hdrain with
    | unlink => exact Or.inl trivial
    | flush hflush => exact Or.inl (hflush.editOk hview)
  | headers htype hfind hreceived hclosed hstart hend =>
    refine Or.inl ⟨hreceived, hclosed, fun hendStream => ?_⟩
    rcases hstart with rfl | hidle
    · exact (hev p hfind).2 htype (hend hendStream)
    · rw [hidle]
      decide
  | data htype hfind hreceived _ hclosed => exact Or.inl ⟨hreceived, hclosed, (hev p hfind).1 htype⟩
  | reset hstream => exact Or.inr ⟨rfl, Or.inl hstream⟩
  | rstStream htype => exact Or.inr ⟨rfl, Or.inr htype⟩
  | request =>
    refine Or.inl fun hend => hev ?_
    simpa using hend
  | writeQueue hstate =>
    refine Or.inl fun hend => ?_
    rw [hstate]
    exact hev hend
  | writeEnd hstate =>
    refine Or.inl ?_
    rw [EditOk, hstate]
    exact hev rfl
  | inflate => exact Or.inl trivial
  | readEnd => exact Or.inl trivial
  | close => exact Or.inr ⟨rfl, rfl⟩

theorem StreamEdit.apply_linked (h : (e.apply v).linked = true) : v.linked = true := by
  cases e with
  | unlink => cases h
  | headers endStream | data _ endStream => cases endStream <;> exact h
  | endSent =>
    simp only [apply, StreamView.endSent] at h
    split at h <;> exact h
  | _ => exact h

theorem TableOk.edit
    (h : TableOk resets ev t) (hop : Allowed ctx ev t (.edit p e)) (hev : stateEvent ctx ev) :
    TableOk resets ev (t.edit p e) := by
  have hother : ∀ q, q ≠ p → (t.edit p e).view q = t.view q := by
    intro q hq
    simp [StreamTable.edit, StreamTable.setView, hq]
  have hself : (t.edit p e).view p = e.apply (t.view p) := t.setView_view_self p _
  have hlinked : ∀ q, ((t.edit p e).view q).linked = true → (t.view q).linked = true := by
    intro q hq
    by_cases hqp : q = p
    · subst hqp
      rw [hself] at hq
      exact e.apply_linked hq
    · rwa [hother q hqp] at hq
  refine ⟨fun q hq => ?_, fun q hq hreset => ?_, h.resets_lt⟩
  · by_cases hqp : q = p
    · subst hqp
      have hview := h.view q (hlinked q hq)
      rw [hself]
      rcases hop.editOk hev hview with hok | ⟨hclosed, hclosing⟩
      · exact hview.edit hok
      · exact ⟨by simp [FlagsAgree, hclosed], fun _ => Or.inl (Or.inr hclosing), by simp [hclosed]⟩
    · rw [hother q hqp] at hq ⊢
      exact h.view q hq
  · by_cases hqp : q = p
    · subst hqp
      rw [hself]
      rcases hop.editOk hev (h.view q (hlinked q hq)) with hok | ⟨hclosed, -⟩
      · exact hok.closed (h.closed q (hlinked q hq) hreset)
      · exact hclosed
    · rw [hother q hqp] at hq ⊢
      exact h.closed q hq hreset

theorem TableOk.create (h : TableOk resets ev t) (streamId : Nat) :
    TableOk resets ev (t.create streamId) := by
  have hnew : (t.create streamId).view t.nextPtr = .fresh streamId := if_pos rfl
  have hother : ∀ q, q ≠ t.nextPtr → (t.create streamId).view q = t.view q := fun q hq => if_neg hq
  refine ⟨fun q hq => ?_, fun q hq hreset => ?_, fun q hreset => ?_⟩
  · by_cases hqp : q = t.nextPtr
    · rw [hqp, hnew]
      refine ⟨⟨rfl, rfl⟩, ?_, fun _ => rfl⟩
      intro hclosed
      cases hclosed
    · rw [hother q hqp] at hq ⊢
      exact h.view q hq
  · have hlt := h.resets_lt q hreset
    rw [hother q hlt.ne] at hq ⊢
    exact h.closed q hq hreset
  · exact (h.resets_lt q hreset).trans (Nat.lt_succ_self _)

theorem TableOk.apply
    {op : TableOp} (h : TableOk resets ev t) (hop : Allowed ctx ev t op) (hev : stateEvent ctx ev) :
    TableOk resets ev (t.apply op) := by
  cases op with
  | create streamId => exact h.create streamId
  | unmap | disconnect => exact ⟨h.view, h.closed, h.resets_lt⟩
  | edit p e => exact h.edit hop hev

/-! ### Resets -/

/-- The streams in `R` are those that are closed on the way without an end of both directions. -/
structure Exact (R : StreamPtr → Bool) (t t' : StreamTable) : Prop where
  lt : ∀ q, R q = true → q < t'.nextPtr
  closed : ∀ q, R q = true → (t'.view q).state = .closed
  only : ∀ q, (t'.view q).linked = true → (t'.view q).state = .closed → R q = true ∨
    ((t.view q).linked = true ∧ (t.view q).state = .closed) ∨
    (t'.view q).endStreamSent = true ∧ (t'.view q).endStreamReceived = true

section Exact

variable {R : StreamPtr → Bool} {t₁ t' : StreamTable}

theorem Exact.same (hR : ∀ q, R q = false) (h : t' = t) : Exact R t t' := by
  subst h
  refine ⟨fun q hq => ?_, fun q hq => ?_, fun q hl hc => Or.inr (Or.inl ⟨hl, hc⟩)⟩
  all_goals
    rw [hR q] at hq
    cases hq

/-- A change of one stream. -/
theorem Exact.of_view (hlt : p < t'.nextPtr) (hR : ∀ q, q ≠ p → R q = false)
    (hother : ∀ q, q ≠ p → t'.view q = t.view q)
    (hclosed : R p = true → (t'.view p).state = .closed)
    (honly : (t'.view p).linked = true → (t'.view p).state = .closed → R p = true ∨
      ((t.view p).linked = true ∧ (t.view p).state = .closed) ∨
      (t'.view p).endStreamSent = true ∧ (t'.view p).endStreamReceived = true) :
    Exact R t t' := by
  have hself : ∀ q, R q = true → q = p := fun q hq => by
    by_contra hne
    rw [hR q hne] at hq
    cases hq
  refine ⟨fun q hq => hself q hq ▸ hlt, fun q hq => ?_, fun q hl hc => ?_⟩
  · obtain rfl := hself q hq
    exact hclosed hq
  by_cases hq : q = p
  · exact hq ▸ honly (hq ▸ hl) (hq ▸ hc)
  · rw [hother q hq] at hl hc
    exact Or.inr (Or.inl ⟨hl, hc⟩)

theorem Exact.edit (hlt : p < t.nextPtr) (hR : ∀ q, q ≠ p → R q = false)
    (hclosed : R p = true → (e.apply (t.view p)).state = .closed)
    (honly : (e.apply (t.view p)).state = .closed → R p = true ∨ (t.view p).state = .closed ∨
      (e.apply (t.view p)).endStreamSent = true ∧ (e.apply (t.view p)).endStreamReceived = true) :
    Exact R t (t.edit p e) := by
  have hself : (t.edit p e).view p = e.apply (t.view p) := t.setView_view_self p _
  refine Exact.of_view (p := p) hlt hR (fun q hq => if_neg hq) ?_ ?_
  all_goals rw [hself]
  · exact hclosed
  · exact fun hl hc => (honly hc).imp_right (Or.imp_left fun h => ⟨e.apply_linked hl, h⟩)

theorem Exact.congr {R' : StreamPtr → Bool} (h : Exact R t t') (hR : ∀ q, R' q = R q) :
    Exact R' t t' :=
  (funext hR : R' = R) ▸ h

/-- A change in front that closes nothing. -/
theorem Exact.after (h : Exact R t₁ t') (hback : ∀ q, (t₁.view q).linked = true →
    (t₁.view q).state = .closed → (t.view q).linked = true ∧ (t.view q).state = .closed) :
    Exact R t t' :=
  ⟨h.lt, h.closed,
    fun q hl hc => (h.only q hl hc).imp_right (Or.imp_left fun hq => hback q hq.1 hq.2)⟩

end Exact

/-- Headers close no stream. -/
theorem closed_of_headers {endStream : Bool}
    (h : ((StreamEdit.headers endStream).apply v).state = .closed) : v.state = .closed := by
  cases endStream <;> cases hstate : v.state <;>
    simp_all [apply, StreamView.headersEnd, StreamView.opened]

theorem headersFalse_closed (t : StreamTable) (p q : StreamPtr)
    (hl : ((t.edit p (.headers false)).view q).linked = true)
    (hc : ((t.edit p (.headers false)).view q).state = .closed) :
    (t.view q).linked = true ∧ (t.view q).state = .closed := by
  by_cases hq : q = p
  · subst hq
    rw [StreamTable.edit, StreamTable.setView_view_self] at hl hc
    exact ⟨hl, closed_of_headers hc⟩
  · have hview : (t.edit p (.headers false)).view q = t.view q := if_neg hq
    rw [hview] at hl hc
    exact ⟨hl, hc⟩

theorem headersReceived_exact (hp : p < ctx.nextPtr) (streamId headersFlags : Nat) :
    Exact (fun q => q = p && (hasFlag headersFlags flagEndStream &&
        contentLengthMismatch (ctx.heap p) (ctx.heap p).bodyBuffer.length true)) ctx.table
      (headersReceived ctx p streamId headersFlags).1.table := by
  rw [headersReceived_table]
  split
  next hend =>
    split
    next hlength =>
      refine Exact.after (Exact.edit hp (fun q hq => by simp [hq]) (fun _ => rfl) fun _ => ?_)
        (headersFalse_closed ctx.table p)
      exact Or.inl (by simp [hend, hlength])
    next hlength =>
      refine Exact.edit hp (fun q hq => by simp [hq]) (fun h => absurd h (by simp [hlength])) ?_
      exact fun hc => Or.inr (Or.inl (closed_of_headers hc))
  next hend =>
    exact Exact.after (Exact.same (fun q => by simp [hend]) rfl) (headersFalse_closed _ p)

theorem decodeHeaderBlock_exact (hp : p < ctx.nextPtr) (refuse : Bool)
    (streamId headersFlags : Nat) :
    Exact (fun q => q = p && decodedResets ctx p refuse headersFlags) ctx.table
      (decodeHeaderBlock ctx (.stream p) refuse streamId headersFlags).1.table := by
  have hran : (decoderRan ctx (.stream p)).table = ctx.table := setStream_table_same _ p rfl
  unfold decodeHeaderBlock decodedResets
  dsimp only
  split
  next hfail =>
    rw [Bool.not_eq_true'] at hfail
    exact Exact.same (fun q => by simp [hfail]) hran
  next hok =>
  rw [Bool.not_eq_true', Bool.not_eq_false] at hok
  split
  next hrefuse => exact Exact.same (fun q => by simp [hrefuse]) hran
  next hrefuse =>
  have hexact := @headersReceived_exact p (http2ClearContinuation (decoderRan ctx (.stream p))) hp
    streamId headersFlags
  rw [show (http2ClearContinuation (decoderRan ctx (.stream p))).table = ctx.table from hran]
    at hexact
  exact hexact.congr fun q => by simp [hok, hrefuse, http2ClearContinuation]

theorem appendHeaderBlock_exact (hp : p < ctx.nextPtr) (refuse : Bool) (streamId : Nat)
    (fragment : Bytes) (flags : Nat) (isContinuation : Bool) :
    Exact (fun q => q = p && blockResets ctx p refuse fragment flags isContinuation) ctx.table
      (appendHeaderBlock ctx (.stream p) refuse streamId fragment flags
        isContinuation).1.table := by
  have hfields : (if isContinuation then ctx else setTargetHeaders ctx [] (.stream p)).table =
      ctx.table := by
    split
    · rfl
    · exact setStream_table_same ctx p rfl
  have hnext : (if isContinuation then ctx else setTargetHeaders ctx [] (.stream p)).nextPtr =
      ctx.nextPtr := congrArg StreamTable.nextPtr hfields
  unfold appendHeaderBlock blockResets
  dsimp only
  rw [← hnext] at hp
  rw [← hfields]
  generalize (if isContinuation then ctx else setTargetHeaders ctx [] (.stream p)) = ctx' at hp ⊢
  generalize (if isContinuation then ctx'.continuationFlags else flags) = headersFlags
  split
  next hlong => exact Exact.same (fun q => by simp [Nat.not_le.mpr hlong]) rfl
  next hshort =>
  split
  next hmore =>
    rw [Bool.not_eq_true'] at hmore
    exact Exact.same (fun q => by simp [hmore]) (by split <;> rfl)
  next hends =>
  rw [Bool.not_eq_true', Bool.not_eq_false] at hends
  have hblock := @decodeHeaderBlock_exact p
    { ctx' with headerBlockBuffer := ctx'.headerBlockBuffer ++ fragment } hp refuse streamId
    headersFlags
  exact hblock.congr fun q => by simp [hends, Nat.not_lt.mp hshort]

theorem headersForStream_exact (hwf : StreamsWf ctx) (streamId : Nat) (fragment : Bytes)
    (flags : Nat) (isContinuation refuse : Bool) :
    Exact (headersReset ctx streamId fragment flags isContinuation refuse) ctx.table
      (headersForStream ctx streamId fragment flags isContinuation refuse).1.table := by
  unfold headersForStream headersReset
  cases hfind : http2FindStream ctx streamId with
  | none =>
    dsimp only
    split
    next hlost => exact Exact.same (fun q => by simp_all) rfl
    next hfirst =>
    split
    next hrefuse =>
      refine Exact.same (fun q => by cases refuse <;> cases isContinuation <;> simp_all) ?_
      unfold appendHeaderBlock decodeHeaderBlock
      dsimp only
      repeat' split
      all_goals rfl
    next hkept =>
    obtain rfl : isContinuation = false := by cases isContinuation <;> simp_all
    rw [Bool.not_eq_true, Bool.or_eq_false_iff] at hkept
    obtain ⟨rfl, hlimit⟩ := hkept
    simp only [Bool.not_false, Bool.true_and] at hlimit
    simp only [hlimit, Bool.not_false, Bool.true_and, Bool.or_false]
    have hcreate := http2CreateStream_table ctx streamId
    have hroom : tooManyStreams ctx streamId = (http2CreateStream ctx streamId).2.isNone := by
      unfold http2CreateStream
      split
      next h => simp [h]
      next h => simp [h]
    generalize http2CreateStream ctx streamId = r at hcreate hroom
    obtain ⟨ctx₁, new⟩ := r
    rcases hcreate with ⟨rfl, htable⟩ | ⟨rfl, htable⟩
    · exact Exact.same (fun q => by simp [hroom]) htable
    have hlt : ctx.nextPtr < ctx₁.nextPtr := by
      rw [show ctx₁.nextPtr = ctx.nextPtr + 1 from congrArg StreamTable.nextPtr htable]
      exact Nat.lt_succ_self _
    have hblock := appendHeaderBlock_exact hlt false streamId fragment flags false
    refine Exact.after (hblock.congr fun q => ?_) fun q hl hc => ?_
    · by_cases hq : q = ctx.nextPtr
      · simp [hq, hroom]
      · simp [hq]
    · rw [htable] at hl hc
      by_cases hq : q = ctx.nextPtr
      · rw [hq, show (ctx.table.create streamId).view ctx.nextPtr = .fresh streamId from if_pos rfl]
          at hc
        cases hc
      · have hview : (ctx.table.create streamId).view q = ctx.table.view q := if_neg hq
        rw [hview] at hl hc
        exact ⟨hl, hc⟩
  | some q =>
  have hlt : q < ctx.nextPtr := hwf.lt q (hwf.mapLinked q (List.mem_of_find?_eq_some hfind))
  have hother : ∀ q', q' ≠ q → (decide (q' = q) && !((ctx.heap q').endStreamReceived ||
      (ctx.heap q').state == .closed) && blockResets ctx q' refuse fragment flags isContinuation)
      = false := fun q' hq => by simp [hq]
  dsimp only
  split
  next hended =>
    split
    next hclosed =>
      rw [http2MarkStreamReset_table]
      simp only [Bool.and_eq_true, beq_iff_eq] at hclosed
      exact Exact.edit hlt hother (fun _ => rfl) fun _ => Or.inr (Or.inl hclosed.1)
    · refine Exact.same (fun q' => ?_) rfl
      by_cases hq : q' = q
      · simp [hq, hended]
      · exact hother q' hq
  next hopen =>
  refine (appendHeaderBlock_exact hlt refuse streamId fragment flags isContinuation).congr ?_
  intro q'
  by_cases hq : q' = q
  · simp [hq, hopen]
  · simp [hq]

theorem http2ProcessDataFrame_exact (hwf : StreamsWf ctx)
    (hflags : ∀ p, (ctx.heap p).linked = true → FlagsAgree (ctx.heap p).view) (streamId : Nat)
    (data : Bytes) (flags : Nat) :
    Exact (dataReset ctx streamId data flags) ctx.table
      (http2ProcessDataFrame ctx streamId data flags).1.table := by
  unfold http2ProcessDataFrame
  split
  next hzero => exact Exact.same (fun q => by simp [dataReset, hzero]) rfl
  next hid =>
  cases hfind : http2FindStream ctx streamId with
  | none => exact Exact.same (fun q => by simp [dataReset, hfind]) (by dsimp only; split <;> rfl)
  | some p =>
  have hmem := hwf.mapLinked p (List.mem_of_find?_eq_some hfind)
  have hother : ∀ q, q ≠ p → dataReset ctx streamId data flags q = false :=
    fun q hq => by simp [dataReset, hfind, Ne.symm hq]
  have hnone (h : dataReset ctx streamId data flags p = false) :
      ∀ q, dataReset ctx streamId data flags q = false :=
    fun q => if hq : q = p then hq ▸ h else hother q hq
  dsimp only
  split
  next hended =>
    split
    next hclosed =>
      rw [http2MarkStreamReset_table]
      simp only [Bool.and_eq_true, beq_iff_eq] at hclosed
      exact Exact.edit (hwf.lt p hmem) hother (fun _ => rfl) fun _ => Or.inr (Or.inl hclosed.1)
    · exact Exact.same (hnone (by simp [dataReset, hended])) rfl
  next hopen =>
  split
  next hlong => exact Exact.same (hnone (by simp [dataReset, Int.not_le.mpr hlong])) rfl
  next hshort =>
  have hresult := (http2CheckContentLength_result ctx p streamId
    ((ctx.heap p).bodyBuffer.length + data.length) (hasFlag flags flagEndStream)).1
  have hcheck := http2CheckContentLength_still ctx (List.mem_singleton_self Kind.plain) p streamId
    ((ctx.heap p).bodyBuffer.length + data.length) (hasFlag flags flagEndStream)
  have hreset : dataReset ctx streamId data flags p = contentLengthMismatch (ctx.heap p)
      ((ctx.heap p).bodyBuffer.length + data.length) (hasFlag flags flagEndStream) := by
    simp [dataReset, hid, hfind, hopen, Int.not_lt.mp hshort]
  split
  next heq =>
    rw [heq] at hresult
    rw [http2MarkStreamReset_table, (hcheck.fst heq).table]
    exact Exact.edit (hwf.lt p hmem) hother (fun _ => rfl)
      fun _ => Or.inl (hreset.trans hresult.symm)
  next ctx₁ heq =>
  rw [heq] at hresult
  have hR := hnone (hreset.trans hresult.symm)
  have hsame := (hcheck.fst heq).table
  repeat' split
  · exact Exact.same hR hsame
  · exact Exact.same hR hsame
  · exact Exact.same hR hsame
  obtain ⟨-, htable⟩ := acceptData_edits (K := [.plain, .recvWindow]) ctx₁ (by simp) (by simp) p
    streamId data (hasFlag flags flagEndStream) _
  rw [htable, hsame]
  refine Exact.edit (hwf.lt p hmem) hother (fun h => ?_) fun hc => ?_
  · rw [hR p] at h
    cases h
  have hview := hflags p ((hwf.linked_iff p).mpr hmem)
  change FlagsAgree (ctx.table.view p) at hview
  generalize ctx.table.view p = v at hview hc ⊢
  cases hend : hasFlag flags flagEndStream <;> cases hstate : v.state <;>
    simp_all [apply, StreamView.dataEnd, FlagsAgree]

theorem http2ProcessHeadersFrame_exact (hwf : StreamsWf ctx)
    (hactive : ctx.continuationActive = false) (streamId : Nat) (data : Bytes) (flags : Nat) :
    Exact (fun q => streamId != 0 && (headersFragment data flags).any
        fun fragment => headersReset ctx streamId fragment flags false false q)
      ctx.table (http2ProcessHeadersFrame ctx streamId data flags).1.table := by
  unfold http2ProcessHeadersFrame
  split
  next hzero => exact Exact.same (fun q => by simp [hzero]) rfl
  next hid =>
  rw [if_neg (by simp [hactive])]
  cases headersFragment data flags with
  | none => exact Exact.same (fun q => by simp) rfl
  | some fragment => exact (headersForStream_exact hwf _ _ _ _ _).congr fun q => by simp [hid]

theorem http2ProcessContinuationFrame_exact (hwf : StreamsWf ctx) (streamId : Nat)
    (data : Bytes) (flags : Nat) :
    Exact (fun q => streamId != 0 && ctx.continuationStreamId == streamId &&
        ctx.continuationActive && !hasFlag flags (0xFF - flagEndHeaders) &&
        headersReset ctx streamId data flags true ctx.continuationRefuseStream q)
      ctx.table (http2ProcessContinuationFrame ctx streamId data flags).1.table := by
  unfold http2ProcessContinuationFrame
  split
  next hzero => exact Exact.same (fun q => by simp [hzero]) rfl
  next hid =>
  split
  next hstray =>
    refine Exact.same (fun q => ?_) rfl
    cases hactive : ctx.continuationActive <;> simp_all
  next hexpected =>
  split
  next hextra => exact Exact.same (fun q => by simp [hextra]) rfl
  next hplain =>
  refine (headersForStream_exact hwf _ _ _ _ _).congr fun q => ?_
  simp_all

theorem processRstStream_exact (hwf : StreamsWf ctx) (f : Frame) :
    Exact (fun q => f.payload.length == 4 && f.streamId != 0 &&
        http2FindStream ctx f.streamId == some q)
      ctx.table (processRstStream ctx f).table := by
  unfold processRstStream
  split
  next hbad =>
    refine Exact.same (fun q => ?_) rfl
    rcases hbad with hbad | hbad <;> simp [hbad]
  next hgood =>
  rw [not_or, not_not] at hgood
  cases hfind : http2FindStream ctx f.streamId with
  | none => exact Exact.same (fun q => by simp) rfl
  | some p =>
    have hlt : p < ctx.nextPtr := hwf.lt p (hwf.mapLinked p (List.mem_of_find?_eq_some hfind))
    have hedit : (ctx.modifyStream p fun s => { s with state := .closed }).table =
        ctx.table.edit p .close := setStream_table ctx p .close rfl
    dsimp only
    rw [hedit]
    refine Exact.edit hlt (fun q hq => ?_) (fun _ => rfl) fun _ => Or.inl ?_
    · simp [Ne.symm hq]
    · simp [hgood]

theorem recvFrame_exact (hwf : StreamsWf ctx)
    (hflags : ∀ p, (ctx.heap p).linked = true → FlagsAgree (ctx.heap p).view) {f : Frame}
    (htype : f.forStream ∨ f.type = frameRstStream) :
    Exact (resetBy ctx (.recvFrame f)) ctx.table (http2ProcessFrame ctx f).table := by
  unfold http2ProcessFrame
  split
  next hclosed => exact Exact.same (fun q => by simp [resetBy, hclosed]) rfl
  next hclosed =>
  split
  next hlong =>
    refine Exact.same (fun q => ?_) rfl
    rcases hlong with h | h <;> simp [resetBy, Nat.not_le.mpr h]
  next hshort =>
  split
  next hcont => exact Exact.same (fun q => by simp [resetBy, hcont]) rfl
  next hcont =>
  rw [not_or, Nat.not_lt, Nat.not_lt] at hshort
  rw [Bool.not_eq_true] at hclosed hcont
  have hR : ∀ q, resetBy ctx (.recvFrame f) q = frameResets ctx f q := fun q => by
    simp [resetBy, hclosed, hshort, hcont]
  refine Exact.congr ?_ hR
  rcases htype with (h | h | h) | h
  · simp only [dispatchFrame, if_pos h, frameResult_table]
    refine (http2ProcessDataFrame_exact hwf hflags _ _ _).congr fun q => ?_
    simp [frameResets, h]
  · have hdata : f.type ≠ frameData := by rw [h]; decide
    have hactive : ctx.continuationActive = false := by
      simpa [h, frameHeaders, frameContinuation] using hcont
    simp only [dispatchFrame, if_neg hdata, if_pos h, frameResult_table]
    refine (http2ProcessHeadersFrame_exact hwf hactive _ _ _).congr fun q => ?_
    rw [frameResets, if_neg hdata, if_pos h]
  · have hdata : f.type ≠ frameData := by rw [h]; decide
    have hheaders : f.type ≠ frameHeaders := by rw [h]; decide
    simp only [dispatchFrame, if_neg hdata, if_neg hheaders, if_pos h, frameResult_table]
    refine (http2ProcessContinuationFrame_exact hwf _ _ _).congr fun q => ?_
    rw [frameResets, if_neg hdata, if_neg hheaders, if_pos h]
  · have hdispatch : dispatchFrame ctx f = processRstStream ctx f := by
      simp [dispatchFrame, h, frameData, frameHeaders, frameContinuation, frameRstStream,
        frameSettings, frameWindowUpdate, framePing]
    rw [hdispatch]
    refine (processRstStream_exact hwf f).congr fun q => ?_
    simp [frameResets, h, frameData, frameHeaders, frameContinuation, frameRstStream]

/-! ### Closing -/

theorem flush_table (h : ViewOk r (ctx.heap p).view) :
    let t := (http2StreamFlushPendingSend ctx p).1.table
    t.nextPtr = ctx.nextPtr ∧ (∀ q, q ≠ p → t.view q = ctx.table.view q) ∧
      (t.view p).linked = (ctx.heap p).linked ∧ ViewOk r (t.view p) := by
  obtain ⟨ops, hok, hrun⟩ := ((http2StreamFlushPendingSend_sends (K := [.plain, .body p])
    (A := Flushing p) (fun _ _ => id) ctx).traced (by simp) (by simp)).performs
  dsimp only
  rw [← hrun]
  refine run_invariant _ (fun t : StreamTable => t.nextPtr = ctx.nextPtr ∧
    (∀ q, q ≠ p → t.view q = ctx.table.view q) ∧ (t.view p).linked = (ctx.heap p).linked ∧
    ViewOk r (t.view p)) ?_ ⟨rfl, fun _ _ => rfl, rfl, h⟩ hok
  rintro t op ⟨hnext, hother, hlinked, hview⟩ hop
  obtain ⟨e, rfl, he⟩ : ∃ e, op = .edit p e ∧ (e.apply (t.view p)).linked = (t.view p).linked := by
    cases hop with
    | endSent =>
      refine ⟨_, rfl, ?_⟩
      simp only [apply, StreamView.endSent]
      split <;> rfl
    | clearQueue => exact ⟨_, rfl, rfl⟩
  have hself : (t.apply (.edit p e)).view p = e.apply (t.view p) := t.setView_view_self p _
  refine ⟨hnext, fun q hq => (if_neg hq).trans (hother q hq), ?_, ?_⟩
  · rw [hself, he, hlinked]
  · rw [hself]
    exact hview.edit (hop.editOk hview)

theorem closeNow_view (hmem : p ∈ ctx.streams) :
    let t := (closeNow ctx p).table
    t.nextPtr = ctx.nextPtr ∧ (∀ q, q ≠ p → t.view q = ctx.table.view q) ∧
      (t.view p).linked = false ∧ (t.view p).state = .closed := by
  have hremove : ∀ ctx₁ : Http2Ctx, p ∈ ctx₁.streams → ctx₁.nextPtr = ctx.nextPtr →
      (∀ q, q ≠ p → ctx₁.heap q = ctx.heap q) → (ctx₁.heap p).state = .closed →
      (http2RemoveStream ctx₁ p).nextPtr = ctx.nextPtr ∧
      (∀ q, q ≠ p → ((http2RemoveStream ctx₁ p).heap q).view = (ctx.heap q).view) ∧
      ((http2RemoveStream ctx₁ p).heap p).linked = false ∧
      ((http2RemoveStream ctx₁ p).heap p).state = .closed := by
    intro ctx₁ hmem₁ hnext hother hstate
    simp only [http2RemoveStream, if_pos hmem₁]
    refine ⟨hnext, fun q hq => ?_, by simp, by simpa using hstate⟩
    rw [if_neg hq, hother q hq]
  have hother : ∀ q, q ≠ p → (ctx.modifyStream p fun s => { s with state := .closed }).heap q =
      ctx.heap q := fun q hq => ctx.setStream_heap_ne _ hq
  have hstate : ((ctx.modifyStream p fun s => { s with state := .closed }).heap p).state =
      .closed := by rw [Http2Ctx.modifyStream, Http2Ctx.setStream_heap_self]
  unfold closeNow
  dsimp only
  split
  · exact hremove _ hmem rfl hother hstate
  · exact hremove _ hmem rfl hother hstate

theorem closeFlush_table {limit : Int} (h : Counted limit ctx)
    (hview : ViewOk r (ctx.heap p).view) :
    let ctx' := (closeFlush ctx p).1
    ctx'.nextPtr = ctx.nextPtr ∧ (∀ q, q ≠ p → (ctx'.heap q).view = (ctx.heap q).view) ∧
      ((ctx.heap p).linked = true → p ∈ ctx'.streams) ∧ ViewOk r (ctx'.heap p).view := by
  have hmark := modifyStream_still ctx Kind.plain_only p
    (fun s => { s with closeAfterSend := true }) fun _ => ⟨rfl, rfl⟩
  unfold closeFlush
  generalize ctx.modifyStream p (fun s => { s with closeAfterSend := true }) = ctx₁ at hmark ⊢
  have hviews : ∀ q, (ctx₁.heap q).view = (ctx.heap q).view :=
    fun q => congrArg (fun t : StreamTable => t.view q) hmark.table
  obtain ⟨hnext, hother, hlinked, hview₂⟩ := @flush_table r p ctx₁ (hviews p ▸ hview)
  have hsends := (http2StreamFlushPendingSend_sends (K := [.plain, .body p])
    (A := fun _ _ => True) (p := p) (fun _ _ _ => trivial) ctx₁).traced (by simp) (by simp)
  have hcounted := hsends.changes.preserves (fun _ => Change.counted)
    (hmark.changes.preserves (fun _ => Change.counted) h)
  refine ⟨hnext.trans (congrArg StreamTable.nextPtr hmark.table),
    fun q hq => (hother q hq).trans (hviews q), fun hl => (hcounted.wf.linked_iff p).mp ?_, hview₂⟩
  exact hlinked.trans ((congrArg StreamView.linked (hviews p)).trans hl)

/-- A stream that is closed now, or whose queue is left. -/
theorem Exact.closeNow {ctx' : Http2Ctx} {R : StreamPtr → Bool} (hlt : p < ctx.nextPtr)
    (hR : ∀ q, q ≠ p → R q = false) (hnext : ctx'.nextPtr = ctx.nextPtr)
    (hother : ∀ q, q ≠ p → (ctx'.heap q).view = (ctx.heap q).view) (hmem : p ∈ ctx'.streams) :
    Exact R ctx.table (Http2.closeNow ctx' p).table := by
  obtain ⟨hnext', hother', hgone, hclosed⟩ := closeNow_view hmem
  refine Exact.of_view (p := p) (hnext' ▸ hnext ▸ hlt) hR
    (fun q hq => (hother' q hq).trans (hother q hq)) (fun _ => hclosed) fun hl => ?_
  rw [hgone] at hl
  cases hl

theorem close_exact {limit : Int} (h : Counted limit ctx)
    (hview : (ctx.heap p).linked = true →
      ViewOk ((ctx.heap p).state = .closed) (ctx.heap p).view) :
    Exact (resetBy ctx (.close p)) ctx.table (http2StreamClose ctx p).table := by
  have hR : ∀ q, q ≠ p → resetBy ctx (.close p) q = false := fun q hq => by simp [resetBy, hq]
  unfold http2StreamClose
  split
  next hunlinked =>
    refine Exact.same (fun q => ?_) rfl
    by_cases hq : q = p
    · subst hq
      simp_all [resetBy]
    · exact hR q hq
  next hlinked =>
  rw [Bool.not_eq_true, Bool.not_eq_false'] at hlinked
  have hmem := (h.wf.linked_iff p).mp hlinked
  have hlt := h.wf.lt p hmem
  split
  next hpending =>
    obtain ⟨hnext, hother, hmem', hview'⟩ := closeFlush_table h (hview hlinked)
    have hRp : resetBy ctx (.close p) p =
        (!(closeFlush ctx p).2 && (closeFlush ctx p).1.io.errno != .eagain) := by
      simp [resetBy, hlinked, hpending]
    dsimp only
    rw [← closeFlush]
    generalize closeFlush ctx p = flushed at hnext hother hmem' hview' hRp ⊢
    obtain ⟨ctx', ok⟩ := flushed
    split
    next hfail =>
      have hclosed : ((ctx'.modifyStream p fun s => { s with state := .closed }).heap p).state =
          .closed := by rw [Http2Ctx.modifyStream, Http2Ctx.setStream_heap_self]
      have hother' : ∀ q, q ≠ p → ((ctx'.modifyStream p fun s =>
          { s with state := .closed }).heap q).view = (ctx.heap q).view := fun q hq => by
        rw [← hother q hq, Http2Ctx.modifyStream, ctx'.setStream_heap_ne _ hq]
      split
      · exact Exact.of_view (p := p) (lt_of_lt_of_eq hlt hnext.symm) hR hother' (fun _ => hclosed)
          fun _ _ => Or.inl (hRp.trans hfail)
      · exact Exact.closeNow hlt hR hnext hother' (hmem' hlinked)
    next hgood =>
      split
      · refine Exact.of_view (p := p) (lt_of_lt_of_eq hlt hnext.symm) hR hother ?_ fun _ hc => ?_
        · exact fun hreset => absurd (hRp.symm.trans hreset) hgood
        · exact Or.inr ((hview'.closed hc).imp_left fun hbefore => ⟨hlinked, hbefore⟩)
      · exact Exact.closeNow hlt hR hnext hother (hmem' hlinked)
  next hidle => exact Exact.closeNow hlt hR rfl (fun _ _ => rfl) hmem

/-! ### Whole runs -/

/-- The invariant of a run and its resets. -/
structure StateInv (limit : Int) (ctx : Http2Ctx) (resets : StreamPtr → Bool) : Prop where
  counted : Counted limit ctx
  view : ∀ p, (ctx.heap p).linked = true → ViewOk (resets p = true) (ctx.heap p).view
  closed : ∀ p, (ctx.heap p).linked = true → resets p = true → (ctx.heap p).state = .closed
  resets_lt : ∀ p, resets p = true → p < ctx.nextPtr

theorem closing_of_resetBy (h : resetBy ctx ev p = true) : closing ev p := by
  cases ev with
  | recvFrame f =>
    by_contra hother
    simp only [closing, Frame.forStream, not_or] at hother
    simp [resetBy, frameResets, hother] at h
  | close q =>
    simp only [resetBy, Bool.and_eq_true, decide_eq_true_eq] at h
    exact h.1.1.1.1
  | _ => cases h

theorem StateInv.exact {limit : Int} (h : StateInv limit ctx resets) (hclosing : closing ev p) :
    Exact (resetBy ctx ev) ctx.table (step ctx ev).table := by
  cases ev with
  | recvFrame f => exact recvFrame_exact h.counted.wf (fun p hp => (h.view p hp).flags) hclosing
  | close q =>
    refine close_exact h.counted fun hlinked => ?_
    exact ⟨(h.view q hlinked).flags, Or.inl, (h.view q hlinked).idle⟩
  | _ => exact hclosing.elim

theorem StateInv.step {limit : Int} (h : StateInv limit ctx resets) (hev : stateEvent ctx ev) :
    StateInv limit (step ctx ev) (observeResets ctx ev resets) := by
  obtain ⟨ops, hok, hrun⟩ := step_performs ctx ev
  have hinit : TableOk resets ev ctx.table :=
    ⟨fun p hp => (h.view p hp).mono Or.inl, h.closed, h.resets_lt⟩
  have hfinal : TableOk resets ev (Http2.step ctx ev).table := by
    rw [← hrun]
    exact run_invariant _ (TableOk resets ev) (fun _ _ h hop => h.apply hop hev) hinit hok
  have hreset : ∀ p, resetBy ctx ev p = true → _ :=
    fun p hp => h.exact (closing_of_resetBy hp)
  refine ⟨(step_changes ctx ev).preserves (fun _ => Change.counted) h.counted, fun p hp => ?_,
    fun p hp hresets => ?_, fun p hresets => ?_⟩
  · have hview := hfinal.view p hp
    simp only [observeResets, Bool.or_eq_true]
    refine ⟨hview.flags, fun hclosed => ?_, hview.idle⟩
    rcases hview.closed hclosed with (hold | hclosing) | hboth
    · exact Or.inl (Or.inl hold)
    · -- the event may close the stream: it has reset it, or it was closed, or both ends are in
      rcases (h.exact hclosing).only p hp hclosed with hnew | ⟨hl, hc⟩ | hboth
      · exact Or.inl (Or.inr hnew)
      · refine ((h.view p hl).closed hc).imp Or.inl fun hboth => ?_
        have honward := (step_onward (h.counted.wf.lt p ((h.counted.wf.linked_iff p).mp hl)) ev).2
        exact ⟨honward.sent hboth.1, honward.received hboth.2⟩
      · exact Or.inr hboth
    · exact Or.inr hboth
  all_goals rcases Bool.or_eq_true_iff.mp hresets with hold | hnew
  · exact hfinal.closed p hp hold
  · exact (hreset p hnew).closed p hnew
  · exact hfinal.resets_lt p hold
  · exact (hreset p hnew).lt p hnew

/--
**Stream state agrees with the end-of-stream flags.**  In every run of a
connection whose events all meet `stateEvent`, every linked stream is closed
exactly when it was reset or both directions have ended, and half closed on the
side that has ended otherwise.
-/
theorem state_agrees
    (isClient : Bool) (server : CStr) (maxConcurrentStreams : Int) (bio : List BioWrite)
    (events : List Event)
    (hok : Admissible step stateEvent (http2CtxNew isClient server maxConcurrentStreams bio) events)
    (p : StreamPtr)
    (hlinked : ((run step (http2CtxNew isClient server maxConcurrentStreams bio) events).heap
      p).linked = true) :
    StateAgrees (observed step observeResets (http2CtxNew isClient server maxConcurrentStreams bio)
        (fun _ => false) events p)
      ((run step (http2CtxNew isClient server maxConcurrentStreams bio) events).heap p) := by
  have hnew := (http2CtxNew_changes isClient server maxConcurrentStreams bio).preserves
    (fun _ => Change.counted) (counted_init isClient server maxConcurrentStreams bio)
  have hunlinked : ∀ p, ((http2CtxNew isClient server maxConcurrentStreams bio).heap p).linked =
      false := by
    intro p
    cases isClient <;> rfl
  have hinit : StateInv maxConcurrentStreams
      (http2CtxNew isClient server maxConcurrentStreams bio) (fun _ => false) := by
    refine ⟨hnew, fun p hp => ?_, fun p hp => ?_, by simp⟩ <;> rw [hunlinked p] at hp <;> cases hp
  have hinv := observed_invariant step observeResets (StateInv maxConcurrentStreams)
    (fun _ _ _ h hev => h.step hev) hinit hok
  exact (hinv.view p hlinked).stateAgrees (hinv.closed p hlinked)

/-- A request with a body and its answer. -/
def postRun : List Event :=
  [.streamNew, .setRequest 0 (CStr.ofString "POST") (CStr.ofString "/q") none [],
    .writeBody 0 [1] true, .recvFrame ⟨frameHeaders, flagEndHeaders, 1, [0x88]⟩,
    .recvFrame ⟨frameData, flagEndStream, 1, [2]⟩]

theorem postRun_states :
    ¬((CStr.ofString "POST").bytes = ascii "GET" ∨ (CStr.ofString "POST").bytes = ascii "HEAD") ∧
      ((run step blockedClient (postRun.take 2)).heap 0).state ≠ .idle ∧
      http2FindStream (run step blockedClient (postRun.take 4)) 1 = some 0 ∧
      ((run step blockedClient (postRun.take 4)).heap 0).state ≠ .idle ∧
      ((run step blockedClient postRun).heap 0).linked = true := by
  decide +kernel

theorem state_agrees_postRun :
    StateAgrees (observed step observeResets blockedClient (fun _ => false) postRun 0)
      ((run step blockedClient postRun).heap 0) := by
  obtain ⟨hmethod, hwrite, hfound, hdata, hlinked⟩ := postRun_states
  rw [blockedClient] at hwrite hfound hdata hlinked ⊢
  refine state_agrees true (CStr.ofString "dns") 0 [] postRun ⟨trivial, ?_, ?_, ?_, ?_, trivial⟩ 0
    hlinked
  · exact fun hget => absurd hget hmethod
  · exact fun _ => hwrite
  · intro p hfind
    refine ⟨fun htype => absurd htype (by decide), fun _ hend => absurd hend (by decide)⟩
  · intro p hfind
    obtain rfl : p = 0 := Option.some.inj (hfind.symm.trans hfound)
    exact ⟨fun _ _ => hdata, fun htype => absurd htype (by decide)⟩

/-- A request without a body. -/
def getRun : List Event :=
  [.streamNew, .setRequest 0 (CStr.ofString "GET") (CStr.ofString "/q") none []]

/-- A request without a body ends the own direction and leaves the stream open. -/
theorem state_behind_flags :
    ((run step blockedClient getRun).heap 0).linked = true ∧
      ((run step blockedClient getRun).heap 0).endStreamSent = true ∧
      ((run step blockedClient getRun).heap 0).state = .opened ∧
      ¬StateAgrees (observed step observeResets blockedClient (fun _ => false) getRun 0)
        ((run step blockedClient getRun).heap 0) := by
  obtain ⟨hlinked, hsent, hstate, hopen⟩ : ((run step blockedClient getRun).heap 0).linked = true ∧
      ((run step blockedClient getRun).heap 0).endStreamSent = true ∧
      ((run step blockedClient getRun).heap 0).state = .opened ∧
      ¬(observed step observeResets blockedClient (fun _ => false) getRun 0 = true ∨
        ((run step blockedClient getRun).heap 0).endStreamSent = true ∧
          ((run step blockedClient getRun).heap 0).endStreamReceived = true) := by
    decide +kernel
  refine ⟨hlinked, hsent, hstate, fun h => ?_⟩
  have hlocal := (h.halfClosed hopen).1.mpr hsent
  rw [hstate] at hlocal
  cases hlocal

end SmartDns.Http2
