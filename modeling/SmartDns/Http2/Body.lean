import SmartDns.Http2.BodyQueue

/-!
# Bodies are delivered in order

A body that the application writes reaches the frame sender in pieces: some of
it at once, the rest from a queue that window updates and flushes drain.
-/

namespace SmartDns.Http2

open Hpack Http2Ctx Http2Stream List Bool

variable {p : StreamPtr} {ctx ctx' : Http2Ctx} {accepted data rest : Bytes} {streamId : Nat}
variable {endStream isEnd : Bool} {e : Event}

def payloadBytes (frames : List (Bytes × Bool)) : Bytes :=
  (frames.map Prod.fst).flatten

@[simp] theorem payloadBytes_append (frames frames' : List (Bytes × Bool)) :
    payloadBytes (frames ++ frames') = payloadBytes frames ++ payloadBytes frames' := by
  simp [payloadBytes]

@[simp] theorem payloadBytes_singleton (payload : Bytes) (endStream : Bool) :
    payloadBytes [(payload, endStream)] = payload := by
  simp [payloadBytes]

/-- What is still queued. -/
def queuedBody (s : Http2Stream) : Bytes :=
  s.pendingSendBody.drop s.pendingSendBodyOffset

theorem length_queuedBody (s : Http2Stream) :
    (queuedBody s).length = s.pendingSendBody.length - s.pendingSendBodyOffset :=
  length_drop

/-- No frame but the last has the end flag. -/
def EndsOnce (frames : List (Bytes × Bool)) : Prop :=
  ∀ f ∈ frames.dropLast, f.2 = false

/-- The queue as `_http2_stream_clear_pending_send` leaves it. -/
structure QueueIdle (s : Http2Stream) : Prop where
  body : s.pendingSendBody = []
  size : s.pendingSendBodySize = 0
  offset : s.pendingSendBodyOffset = 0
  endStream : s.pendingSendEndStream = false

/-- Sent and queued bytes together are the accepted ones. -/
structure BodyCore (p : StreamPtr) (ctx : Http2Ctx) (accepted : Bytes) :
    Prop where
  allocated : p < ctx.nextPtr
  delivered :
    payloadBytes (bodyFrames p ctx.sent) ++ queuedBody (ctx.heap p) = accepted
  offset_le :
    (ctx.heap p).pendingSendBodyOffset ≤ (ctx.heap p).pendingSendBody.length
  opened :
    (ctx.heap p).endStreamSent = false →
      ∀ f ∈ bodyFrames p ctx.sent, f.2 = false
  ended :
    (ctx.heap p).endStreamSent = true →
      (ctx.heap p).pendingSendBodyOffset =
          (ctx.heap p).pendingSendBody.length ∧
        EndsOnce (bodyFrames p ctx.sent)

/-- The invariant of a stream between two events: a queue with nothing to send
is cleared. -/
structure BodyInv (p : StreamPtr) (ctx : Http2Ctx) (accepted : Bytes) : Prop
    extends BodyCore p ctx accepted where
  idle :
    http2StreamHasPendingSend (ctx.heap p) = false → QueueIdle (ctx.heap p)

theorem http2StreamClearPendingSend_idle (s : Http2Stream) :
    QueueIdle (http2StreamClearPendingSend s) :=
  ⟨rfl, rfl, rfl, rfl⟩

theorem BodyInv.bodyQuiet (h : BodyInv p ctx accepted) (hquiet : BodyQuiet p ctx ctx') :
    BodyInv p ctx' accepted := by
  have hview := hquiet.view
  simp only [bodyView, BodyView.mk.injEq] at hview
  obtain ⟨hbody, hsize, hoffset, hend, hsent⟩ := hview
  obtain ⟨⟨hallocated, hdelivered, hle, hopened, hended⟩, hidle⟩ := h
  refine ⟨⟨hallocated.trans_le hquiet.nextPtr, ?_, ?_, ?_, ?_⟩, ?_⟩
  · rw [hquiet.frames, queuedBody, hbody, hoffset]
    exact hdelivered
  · rwa [hbody, hoffset]
  · rwa [hsent, hquiet.frames]
  · rwa [hsent, hquiet.frames, hbody, hoffset]
  intro hpending
  have h : QueueIdle (ctx.heap p) := by
    apply hidle
    simpa [http2StreamHasPendingSend, hbody, hoffset, hend, hsent] using hpending
  exact ⟨hbody.trans h.body, hsize.trans h.size, hoffset.trans h.offset, hend.trans h.endStream⟩

theorem BodyCore.inv_of_idle (h : BodyCore p ctx accepted) (hidle : QueueIdle (ctx.heap p)) :
    BodyInv p ctx accepted :=
  ⟨h, fun _ => hidle⟩

theorem BodyCore.inv_of_queued (h : BodyCore p ctx accepted) (hne : queuedBody (ctx.heap p) ≠ []) :
    BodyInv p ctx accepted := by
  refine ⟨h, fun hidle => absurd ?_ hne⟩
  simp only [http2StreamHasPendingSend, or_eq_false_iff,
    decide_eq_false_iff_not, not_lt] at hidle
  exact drop_eq_nil_of_le hidle.1

/-- A refused DATA frame is recorded as a failure of the sender. -/
theorem http2SendDataFrame_refused_failed
    (heq : http2SendDataFrame ctx p streamId data endStream = (ctx', false)) :
    ctx'.io.sendFailed = true := by
  unfold http2SendDataFrame sendRecorded at heq
  simp only [Prod.mk.injEq] at heq
  obtain ⟨rfl, hrefused⟩ := heq
  rw [http2SendFrame_sendFailed, hrefused]
  simp

theorem EndsOnce.append {frames : List (Bytes × Bool)} (h : ∀ f ∈ frames, f.2 = false)
    (f : Bytes × Bool) :
    EndsOnce (frames ++ [f]) := by
  simpa [EndsOnce] using h

/-- One more frame is sent, with the end flag only when nothing is queued then. -/
theorem BodyCore.sends (h : BodyCore p ctx accepted) (hopen : (ctx.heap p).endStreamSent = false)
    {payload accepted' : Bytes} (hnext : ctx'.nextPtr = ctx.nextPtr)
    (hdata : ctx'.sent = ctx.sent ++ [.data p streamId payload isEnd])
    (hsent : (ctx'.heap p).endStreamSent = isEnd)
    (hdelivered : payloadBytes (bodyFrames p ctx.sent) ++
      (payload ++ queuedBody (ctx'.heap p)) = accepted')
    (hle : (ctx'.heap p).pendingSendBodyOffset ≤ (ctx'.heap p).pendingSendBody.length)
    (hend : isEnd = true →
      (ctx'.heap p).pendingSendBodyOffset = (ctx'.heap p).pendingSendBody.length) :
    BodyCore p ctx' accepted' := by
  have hframes : bodyFrames p ctx'.sent = bodyFrames p ctx.sent ++ [(payload, isEnd)] := by
    rw [hdata, bodyFrames_append, bodyFrames_data_self]
  refine ⟨hnext ▸ h.allocated, ?_, hle, ?_, ?_⟩
  · rw [hframes, payloadBytes_append, payloadBytes_singleton, append_assoc]
    exact hdelivered
  · intro hfalse f hf
    rw [hsent] at hfalse
    rw [hframes, mem_append, mem_singleton] at hf
    rcases hf with hf | rfl
    · exact h.opened hopen f hf
    · exact hfalse
  · intro htrue
    rw [hsent] at htrue
    rw [hframes]
    exact ⟨hend htrue, EndsOnce.append (h.opened hopen) _⟩

@[simp] theorem http2StreamMarkEndSent_bodyView (s : Http2Stream) :
    (http2StreamMarkEndSent s).bodyView = { s.bodyView with endStreamSent := true } := by
  unfold http2StreamMarkEndSent bodyView
  split
  next h => simp [h]
  · rfl

theorem spendWindow_bodyView (ctx : Http2Ctx) (p : StreamPtr) (n : Nat) (isEnd : Bool)
    (hopen : (ctx.heap p).endStreamSent = false) :
    ((spendWindow ctx p n isEnd).heap p).bodyView =
      { (ctx.heap p).bodyView with endStreamSent := isEnd } := by
  unfold spendWindow
  rw [setStream_heap_self]
  cases isEnd with
  | true => rw [if_pos rfl, http2StreamMarkEndSent_bodyView]; rfl
  | false => simp [bodyView, hopen]

/-! ### Draining the queue -/

/-- A frame that takes the next bytes of the queue, with the end flag only when
they are the last ones. -/
theorem BodyCore.emit
    (h : BodyCore p ctx accepted) (hopen : (ctx.heap p).endStreamSent = false) {n : Nat}
    (hn : n ≤ (queuedBody (ctx.heap p)).length)
    (hend : isEnd = true → n = (queuedBody (ctx.heap p)).length)
    (hnext : ctx'.nextPtr = ctx.nextPtr)
    (hdata : ctx'.sent = ctx.sent ++ [.data p streamId ((queuedBody (ctx.heap p)).take n) isEnd])
    (hview : (ctx'.heap p).bodyView = { (ctx.heap p).bodyView with
        pendingSendBodyOffset := (ctx.heap p).pendingSendBodyOffset + n
        endStreamSent := isEnd }) :
    BodyCore p ctx' accepted ∧ queuedBody (ctx'.heap p) = (queuedBody (ctx.heap p)).drop n := by
  simp only [bodyView, BodyView.mk.injEq] at hview
  obtain ⟨hbody, -, hoffset, -, hsent⟩ := hview
  have hle := h.offset_le
  have hlen := length_queuedBody (ctx.heap p)
  have hqueue : queuedBody (ctx'.heap p) = (queuedBody (ctx.heap p)).drop n := by
    rw [queuedBody, hbody, hoffset, ← drop_drop, queuedBody]
  refine ⟨h.sends hopen hnext hdata hsent ?_ ?_ fun htrue => ?_, hqueue⟩
  · rw [hqueue, take_append_drop]
    exact h.delivered
  · rw [hbody, hoffset]
    omega
  · have hall := hend htrue
    rw [hbody, hoffset]
    omega

theorem BodyCore.flushTurn
    (h : BodyCore p ctx accepted) (hopen : (ctx.heap p).endStreamSent = false) {n : Nat}
    (hn : n ≤ (queuedBody (ctx.heap p)).length)
    (hend : isEnd = true → n = (queuedBody (ctx.heap p)).length)
    (heq : http2SendDataFrame ctx p streamId ((queuedBody (ctx.heap p)).take n)
        isEnd = (ctx', true)) :
    BodyCore p ((spendWindow ctx' p n isEnd).modifyStream p (advancePending n)) accepted ∧
      queuedBody (((spendWindow ctx' p n isEnd).modifyStream p (advancePending n)).heap p) =
        (queuedBody (ctx.heap p)).drop n := by
  obtain ⟨io, rfl⟩ := http2SendDataFrame_accepted heq
  have hspend := spendWindow_bodyView { ctx with
      io := io
      sent := ctx.sent ++ [.data p streamId ((queuedBody (ctx.heap p)).take n) isEnd] }
    p n isEnd hopen
  simp only [bodyView, BodyView.mk.injEq] at hspend
  obtain ⟨hbody, hsize, hoffset, hendStream, hsent⟩ := hspend
  refine h.emit hopen hn hend rfl rfl ?_
  simp [modifyStream, advancePending, bodyView, hbody, hsize, hoffset, hendStream, hsent]

/-- The outcome of the flush loop: the queue is empty, or it waits. -/
def FlushOutcome (p : StreamPtr) (r : Http2Ctx × Bool) : Prop :=
  if r.2 then queuedBody (r.1.heap p) = []
  else queuedBody (r.1.heap p) ≠ [] ∧ r.1.io.errno = .eagain

theorem flushLoop_body
    (fuel : Nat) (h : BodyCore p ctx accepted) (hfuel : (queuedBody (ctx.heap p)).length ≤ fuel)
    (hok : (flushLoop fuel ctx p).1.io.sendFailed = false) :
    BodyCore p (flushLoop fuel ctx p).1 accepted ∧ FlushOutcome p (flushLoop fuel ctx p) := by
  induction fuel generalizing ctx with
  | zero => exact ⟨h, eq_nil_of_length_eq_zero (Nat.le_zero.mp hfuel)⟩
  | succ fuel ih =>
  have hlen := length_queuedBody (ctx.heap p)
  unfold flushLoop at hok ⊢
  dsimp only at hok ⊢
  split
  next hlt =>
    rw [if_pos hlt] at hok
    have hne : queuedBody (ctx.heap p) ≠ [] := ne_nil_of_length_pos (by omega)
    split
    · exact ⟨⟨h.allocated, h.delivered, h.offset_le, h.opened, h.ended⟩, hne, rfl⟩
    next hpos =>
    rw [if_neg hpos] at hok
    rw [not_eq_true, or_eq_false_iff, beq_eq_false_iff_ne] at hpos
    split
    next heq =>
      simp only [heq] at hok
      exact absurd (http2SendDataFrame_refused_failed heq) (by simp [hok])
    next ctx' heq =>
    simp only [heq] at hok
    have hopen : (ctx.heap p).endStreamSent = false := by
      by_contra hsent
      have := (h.ended (by simpa using hsent)).1
      omega
    obtain ⟨hcore, hqueue⟩ := h.flushTurn hopen
      (toSend_le_remain _ _ _) (by simp [queuedBody]) heq
    refine ih hcore ((congrArg List.length hqueue).le.trans ?_) hok
    have := hpos.2
    simp only [length_drop, queuedBody] at hfuel this ⊢
    omega
  next hge => exact ⟨h, drop_eq_nil_of_le (not_lt.mp hge)⟩

theorem flushEnd_body (h : BodyCore p ctx accepted) (hempty : queuedBody (ctx.heap p) = [])
    (hok : (flushEnd ctx p).1.io.sendFailed = false) :
    BodyInv p (flushEnd ctx p).1 accepted ∧ (flushEnd ctx p).2 = true := by
  have hdelivered := h.delivered
  rw [hempty, append_nil] at hdelivered
  unfold flushEnd at hok ⊢
  dsimp only at hok ⊢
  split
  next hend =>
    rw [if_pos hend] at hok
    rw [and_eq_true, not_eq_true'] at hend
    split
    next heq =>
      simp only [heq] at hok
      exact absurd (http2SendDataFrame_refused_failed heq) (by simp [hok])
    next ctx' heq =>
    obtain ⟨io, rfl⟩ := http2SendDataFrame_accepted heq
    have hidle := http2StreamClearPendingSend_idle (http2StreamMarkEndSent (ctx.heap p))
    refine ⟨BodyCore.inv_of_idle (h.sends hend.2 rfl rfl ?_ ?_ ?_ ?_) ?_, rfl⟩
    · have hsent := congrArg BodyView.endStreamSent (http2StreamMarkEndSent_bodyView (ctx.heap p))
      simp only [bodyView] at hsent
      simp [http2StreamClearPendingSend, hsent]
    · simpa [queuedBody, hidle.body] using hdelivered
    · simp [hidle.offset]
    · simp [hidle.offset, hidle.body]
    · simpa using hidle
  · refine ⟨BodyCore.inv_of_idle ⟨h.allocated, ?_, ?_, ?_, ?_⟩ ?_, rfl⟩
    · simpa [setStream, queuedBody, http2StreamClearPendingSend] using hdelivered
    · simp [http2StreamClearPendingSend]
    · simpa [http2StreamClearPendingSend, setStream] using h.opened
    · intro hsent
      refine ⟨by simp [http2StreamClearPendingSend], ?_⟩
      exact (h.ended (by simpa [http2StreamClearPendingSend] using hsent)).2
    · rw [setStream_heap_self]
      exact http2StreamClearPendingSend_idle _

theorem http2StreamFlushPendingSend_body
    (h : BodyCore p ctx accepted) (hlinked : (ctx.heap p).linked = true)
    (hok : (http2StreamFlushPendingSend ctx p).1.io.sendFailed = false) :
    BodyInv p (http2StreamFlushPendingSend ctx p).1 accepted ∧
      ((http2StreamFlushPendingSend ctx p).2 = false →
        (http2StreamFlushPendingSend ctx p).1.io.errno = .eagain) := by
  unfold http2StreamFlushPendingSend at hok ⊢
  simp only [hlinked, Bool.not_true, Bool.false_eq_true, if_false] at hok ⊢
  have hloop := flushLoop_body _ h (length_queuedBody _).le
  have hlinked' := (flushLoop_sends (K := [.plain, .body p]) (fun _ _ h => h)
    ((ctx.heap p).pendingSendBody.length - (ctx.heap p).pendingSendBodyOffset) hlinked).2
  generalize flushLoop ((ctx.heap p).pendingSendBody.length -
      (ctx.heap p).pendingSendBodyOffset) ctx p = r at hok hloop hlinked' ⊢
  obtain ⟨ctx', ok⟩ := r
  cases ok with
  | false =>
    obtain ⟨hcore, hne, herrno⟩ := hloop hok
    exact ⟨hcore.inv_of_queued hne, fun _ => herrno⟩
  | true =>
  have hmid : ctx'.io.sendFailed = false :=
    (flushEnd_sends (fun _ _ h => h) hlinked').kept.io.sendFailed_mono hok
  obtain ⟨hcore, hempty⟩ := hloop hmid
  obtain ⟨hinv, hsucc⟩ := flushEnd_body hcore hempty hok
  refine ⟨hinv, fun hfail => ?_⟩
  rw [hsucc] at hfail
  cases hfail

/-! ### Writing -/

theorem http2StreamQueueSendBody_body (h : BodyCore p ctx accepted)
    (heq : http2StreamQueueSendBody ctx p data endStream = (ctx', true)) :
    BodyCore p ctx' (accepted ++ data) ∧
      queuedBody (ctx'.heap p) = queuedBody (ctx.heap p) ++ data ∧
      (ctx'.heap p).linked = (ctx.heap p).linked := by
  unfold http2StreamQueueSendBody at heq
  dsimp only at heq
  split at heq
  · cases heq
  next hopen =>
  rw [not_eq_true, or_eq_false_iff] at hopen
  split at heq
  · cases heq
  · cases heq
    have hqueue : ∀ bytes : Bytes, ((ctx.heap p).pendingSendBody ++ bytes).drop
            (ctx.heap p).pendingSendBodyOffset =
          queuedBody (ctx.heap p) ++ bytes :=
      fun bytes => drop_append_of_le_length h.offset_le
    refine ⟨⟨h.allocated, ?_, ?_, ?_, ?_⟩, ?_, ?_⟩
    · rw [queuedBody, setStream_heap_self]
      dsimp only
      rw [hqueue, ← append_assoc, ← h.delivered]
      rfl
    · rw [setStream_heap_self]
      simpa using h.offset_le.trans (Nat.le_add_right _ _)
    · intro _
      exact h.opened hopen.1
    · intro hsent
      rw [setStream_heap_self] at hsent
      exact absurd hsent (by simp [hopen.1])
    · rw [queuedBody, setStream_heap_self]
      exact hqueue data
    · rw [setStream_heap_self]

theorem http2StreamQueueSendBody_refused
    (heq : http2StreamQueueSendBody ctx p data endStream = (ctx', false)) :
    SendQuiet ctx ctx' := by
  unfold http2StreamQueueSendBody at heq
  dsimp only at heq
  split at heq
  · cases heq
    exact setErrno_sendQuiet ctx _
  split at heq
  · cases heq
    exact .refl ctx
  · cases heq

/-- A cleared queue takes anything up to half of what an `int` counts. -/
theorem http2StreamQueueSendBody_accepts (endStream : Bool) (hidle : QueueIdle (ctx.heap p))
    (hopen : (ctx.heap p).endStreamSent = false) (hfits : data.length ≤ 2 ^ 30) :
    (http2StreamQueueSendBody ctx p data endStream).2 = true := by
  unfold http2StreamQueueSendBody
  simp only [hopen, hidle.endStream, hidle.body, hidle.size, Bool.or_self,
    Bool.false_eq_true, if_false, length_nil, Nat.zero_add]
  by_cases hlt : 0 < data.length
  · obtain ⟨size, hgrow⟩ :=
      growBuffer_isSome (j := 9) (by omega) (.inl rfl) hlt hfits
    norm_num at hgrow
    simp only [if_pos hlt, hgrow]
  · simp only [if_neg hlt]

theorem queueRest_body
    (endStream : Bool) (totalSent : Nat) (h : BodyInv p ctx accepted) (hne : rest ≠ []) :
    ((queueRest ctx p rest endStream totalSent).2 = -1 ∧
        BodyInv p (queueRest ctx p rest endStream totalSent).1 accepted) ∨
      ((queueRest ctx p rest endStream totalSent).2 = totalSent + rest.length ∧
        BodyInv p (queueRest ctx p rest endStream totalSent).1 (accepted ++ rest)) := by
  unfold queueRest
  split
  next heq => exact .inl ⟨rfl, h.bodyQuiet ((http2StreamQueueSendBody_refused heq).bodyQuiet p)⟩
  next heq =>
  obtain ⟨hcore, hqueue, -⟩ :=
    http2StreamQueueSendBody_body h.toBodyCore heq
  refine .inr ⟨rfl, hcore.inv_of_queued ?_⟩
  rw [hqueue]
  exact append_ne_nil_of_right_ne_nil _ hne

theorem queueRest_ret
    (totalSent : Nat) (hok : (http2StreamQueueSendBody ctx p rest endStream).2 = true) :
    (queueRest ctx p rest endStream totalSent).2 = totalSent + rest.length := by
  unfold queueRest
  split
  next heq => simp [heq] at hok
  · rfl

theorem BodyCore.writeTurn (h : BodyCore p ctx accepted) (hidle : QueueIdle (ctx.heap p))
    (hopen : (ctx.heap p).endStreamSent = false) (rest : Bytes) (n : Nat)
    (heq : http2SendDataFrame ctx p streamId (rest.take n) isEnd = (ctx', true)) :
    BodyCore p (spendWindow ctx' p n isEnd) (accepted ++ rest.take n) ∧
      QueueIdle ((spendWindow ctx' p n isEnd).heap p) ∧
      ((spendWindow ctx' p n isEnd).heap p).endStreamSent = isEnd := by
  obtain ⟨io, rfl⟩ := http2SendDataFrame_accepted heq
  have hspend := spendWindow_bodyView { ctx with
      io := io
      sent := ctx.sent ++ [.data p streamId (rest.take n) isEnd] }
    p n isEnd hopen
  simp only [bodyView, BodyView.mk.injEq] at hspend
  obtain ⟨hbody, hsize, hoffset, hendStream, hsent⟩ := hspend
  have hempty : queuedBody (ctx.heap p) = [] := by simp [queuedBody, hidle.body]
  have hdelivered := h.delivered
  rw [hempty, append_nil] at hdelivered
  refine ⟨h.sends hopen rfl rfl hsent ?_ ?_ ?_, ⟨hbody.trans hidle.body, hsize.trans hidle.size,
      hoffset.trans hidle.offset, hendStream.trans hidle.endStream⟩, hsent⟩
  · simp [queuedBody, hbody, hidle.body, hdelivered]
  · rw [hbody, hoffset]
    exact h.offset_le
  · rw [hbody, hoffset, hidle.body, hidle.offset]
    exact fun _ => rfl

@[simp] theorem spendWindow_sendWindowSize
    (ctx : Http2Ctx) (p : StreamPtr) (n : Nat) (isEnd : Bool) :
    ((spendWindow ctx p n isEnd).heap p).sendWindowSize = (ctx.heap p).sendWindowSize - n := by
  cases isEnd
  all_goals simp [spendWindow]

/-- The room that both windows leave for a stream. -/
def windowRoom (ctx : Http2Ctx) (p : StreamPtr) : Nat :=
  min (ctx.heap p).sendWindowSize.toNat ctx.sendConnWindowSize.toNat

theorem windowRoom_spendWindow (ctx : Http2Ctx) (p : StreamPtr) (n : Nat) (isEnd : Bool) :
    windowRoom (spendWindow ctx p n isEnd) p = windowRoom ctx p - n := by
  have hconn : (spendWindow ctx p n isEnd).sendConnWindowSize = ctx.sendConnWindowSize - n := rfl
  unfold windowRoom
  rw [spendWindow_sendWindowSize, hconn]
  omega

/--
**The write loop.**  What does not fit the windows is queued; when that is not
too much, the whole rest is accepted.
-/
theorem writeBodyLoop_body
    (fuel : Nat) (endStream : Bool) (totalSent : Nat) (h : BodyCore p ctx accepted)
    (hidle : QueueIdle (ctx.heap p)) (hopen : rest ≠ [] → (ctx.heap p).endStreamSent = false)
    (hfuel : rest.length ≤ fuel) (hmax : 0 < ctx.peerMaxFrameSize)
    (hfits : rest.length ≤ 2 ^ 30 + windowRoom ctx p)
    (hok : (writeBodyLoop fuel ctx p rest endStream totalSent).1.io.sendFailed = false) :
    (writeBodyLoop fuel ctx p rest endStream totalSent).2 = totalSent + rest.length ∧
      BodyInv p (writeBodyLoop fuel ctx p rest endStream totalSent).1 (accepted ++ rest) := by
  induction fuel generalizing ctx rest totalSent accepted with
  | zero =>
    have hnil := eq_nil_of_length_eq_zero (Nat.le_zero.mp hfuel)
    subst hnil
    simpa [writeBodyLoop] using h.inv_of_idle hidle
  | succ fuel ih =>
  by_cases hnil : rest = []
  · subst hnil
    simpa [writeBodyLoop] using h.inv_of_idle hidle
  have hsent := hopen hnil
  have hpos : 0 < rest.length := length_pos_iff.mpr hnil
  unfold writeBodyLoop at hok ⊢
  dsimp only at hok ⊢
  rw [if_neg hnil, if_neg (by simp [hsent])] at hok ⊢
  by_cases hclosed : (windowsClosed ctx (ctx.heap p) ||
        toSend ctx (ctx.heap p) rest.length == 0) = true
  · rw [if_pos hclosed]
    have hroom : windowRoom ctx p = 0 := by
      simp only [windowsClosed, toSend, or_eq_true, decide_eq_true_eq, beq_iff_eq] at hclosed
      unfold windowRoom
      omega
    have hret := queueRest_ret totalSent (http2StreamQueueSendBody_accepts endStream hidle hsent
        (by omega : rest.length ≤ 2 ^ 30))
    rcases queueRest_body endStream totalSent (h.inv_of_idle hidle) hnil with ⟨hfail, -⟩ | hsucc
    · omega
    · exact hsucc
  · rw [if_neg hclosed] at hok ⊢
    rw [not_eq_true, or_eq_false_iff, beq_eq_false_iff_ne] at hclosed
    split
    next heq =>
      have hfailed := http2SendDataFrame_refused_failed heq
      simp only [heq] at hok
      split at hok
      · have := (queueRest_sends (A := fun _ _ => True) _ _ _ trivial).kept.io.sendFailed_mono hok
        simp [hfailed] at this
      · simp [hfailed] at hok
    next ctx' heq =>
    simp only [heq] at hok
    obtain ⟨hcore, hidle', hsent'⟩ := h.writeTurn hidle hsent rest _ heq
    have hle := toSend_le_remain ctx (ctx.heap p) rest.length
    have hstep := ih _ hcore hidle' ?_ ?_ ?_ ?_ hok
    · rw [append_assoc, take_append_drop] at hstep
      refine ⟨?_, hstep.2⟩
      rw [hstep.1, length_drop]
      push_cast
      omega
    · intro hrest
      rw [hsent']
      simp only [and_eq_false_iff, beq_eq_false_iff_ne]
      refine .inr fun hall => hrest ?_
      exact drop_eq_nil_of_le hall.ge
    · rw [length_drop]
      have := hclosed.2
      omega
    · obtain ⟨io, rfl⟩ := http2SendDataFrame_accepted heq
      exact hmax
    · obtain ⟨io, rfl⟩ := http2SendDataFrame_accepted heq
      have hroom : toSend ctx (ctx.heap p) rest.length ≤ windowRoom ctx p := by
        unfold toSend windowRoom
        omega
      rw [length_drop, windowRoom_spendWindow]
      change _ ≤ 2 ^ 30 + (windowRoom ctx p - _)
      omega

/--
The sizes for which a write works: a queue stays within an `int`, and what an
immediate write cannot send is at most `2 ^ 30` bytes.
-/
def WriteFits (ctx : Http2Ctx) (p : StreamPtr) (data : Bytes) : Prop :=
  if http2StreamHasPendingSend (ctx.heap p) then
    (ctx.heap p).pendingSendBody.length + data.length ≤ intMax
  else windowRoom ctx p = 0 ∨ data.length ≤ 2 ^ 30 + windowRoom ctx p

/-- What a write reports as accepted. -/
def acceptedBytes (data : Bytes) (ret : Int) : Bytes :=
  data.take ret.toNat

theorem writeBodyQueued_body
    (endStream : Bool) (h : BodyInv p ctx accepted) (hlinked : (ctx.heap p).linked = true)
    (hok : (writeBodyQueued ctx p data endStream).1.io.sendFailed = false) :
    BodyInv p (writeBodyQueued ctx p data endStream).1 (accepted ++
        acceptedBytes data (writeBodyQueued ctx p data endStream).2) := by
  unfold writeBodyQueued at hok ⊢
  rcases heq : http2StreamQueueSendBody ctx p data endStream with ⟨ctx', ok⟩
  cases ok with
  | false =>
    simpa [acceptedBytes] using h.bodyQuiet ((http2StreamQueueSendBody_refused heq).bodyQuiet p)
  | true =>
  obtain ⟨hcore, -, hlinked'⟩ :=
    http2StreamQueueSendBody_body h.toBodyCore heq
  simp only [heq] at hok ⊢
  have hflush := http2StreamFlushPendingSend_body hcore (hlinked'.trans hlinked)
  generalize http2StreamFlushPendingSend ctx' p = r at hok hflush ⊢
  obtain ⟨ctx₁, ok⟩ := r
  have hfailed : ctx₁.io.sendFailed = false := by
    split at hok
    all_goals exact hok
  obtain ⟨hinv, herrno⟩ := hflush hfailed
  have hret : ¬(!ok && ctx₁.io.errno != .eagain) = true := by
    cases ok with
    | true => simp
    | false => simpa using herrno rfl
  rw [if_neg hret]
  simpa [acceptedBytes] using hinv

theorem writeBodyEnd_body
    (h : BodyInv p ctx accepted) (hidle : http2StreamHasPendingSend (ctx.heap p) = false)
    (hok : (writeBodyEnd ctx p).1.io.sendFailed = false) :
    BodyInv p (writeBodyEnd ctx p).1 accepted := by
  unfold writeBodyEnd at hok ⊢
  split
  · exact h
  next hsent =>
  rw [if_neg hsent] at hok
  split
  next heq =>
    simp only [heq] at hok
    exact absurd (http2SendDataFrame_refused_failed heq) (by simp [hok])
  next ctx' heq =>
  obtain ⟨hcore, hidle', -⟩ := h.toBodyCore.writeTurn (h.idle hidle) (by simpa using hsent) [] 0 heq
  rw [take_nil, append_nil] at hcore
  refine (hcore.inv_of_idle hidle').bodyQuiet ⟨?_, rfl, le_refl _⟩
  simp [spendWindow, modifyStream, bodyView]

/-- A write on a stream with nothing queued: nothing happens, or the whole
body is accepted. -/
theorem writeBodyDirect_body (endStream : Bool) (h : BodyInv p ctx accepted)
    (hidle : http2StreamHasPendingSend (ctx.heap p) = false) (hne : data ≠ [])
    (hfits : windowRoom ctx p = 0 ∨ data.length ≤ 2 ^ 30 + windowRoom ctx p)
    (hok : (writeBodyLoop data.length ctx p data endStream 0).1.io.sendFailed = false) :
    BodyInv p (writeBodyLoop data.length ctx p data endStream 0).1 (accepted ++ acceptedBytes data
          (writeBodyLoop data.length ctx p data endStream 0).2) := by
  have hqueue := h.idle hidle
  by_cases hopen : windowsClosed ctx (ctx.heap p) = false ∧
      toSend ctx (ctx.heap p) data.length ≠ 0 ∧
      (ctx.heap p).endStreamSent = false
  · obtain ⟨hwindows, hsome, hsent⟩ := hopen
    simp only [windowsClosed, or_eq_false_iff, decide_eq_false_iff_not] at hwindows
    have hmax : 0 < ctx.peerMaxFrameSize := by
      unfold toSend at hsome
      omega
    have hroom : data.length ≤ 2 ^ 30 + windowRoom ctx p := by
      refine hfits.resolve_left ?_
      unfold windowRoom
      omega
    obtain ⟨hret, hinv⟩ := writeBodyLoop_body data.length endStream 0
      h.toBodyCore hqueue (fun _ => hsent) (le_refl _) hmax hroom hok
    rw [hret]
    simpa [acceptedBytes] using hinv
  · obtain ⟨fuel, hfuel⟩ :=
      Nat.exists_eq_succ_of_ne_zero (length_pos_iff.mpr hne).ne'
    rw [hfuel]
    unfold writeBodyLoop
    rw [if_neg hne]
    split
    · simpa [acceptedBytes] using h.bodyQuiet ((setErrno_sendQuiet ctx .epipe).bodyQuiet p)
    next hsent =>
    have hclosed : (windowsClosed ctx (ctx.heap p) ||
          toSend ctx (ctx.heap p) data.length == 0) = true := by
      rw [not_eq_true] at hsent
      by_contra hcontra
      rw [not_eq_true, or_eq_false_iff, beq_eq_false_iff_ne] at hcontra
      exact hopen ⟨hcontra.1, hcontra.2, hsent⟩
    rw [if_pos hclosed]
    rcases queueRest_body endStream 0 h hne with
      ⟨hret, hinv⟩ | ⟨hret, hinv⟩
    all_goals
      rw [hret]
      simpa [acceptedBytes] using hinv

/-- **One write.** -/
theorem http2StreamWriteBody_body
    (endStream : Bool) (h : BodyInv p ctx accepted) (hfits : WriteFits ctx p data)
    (hok : (http2StreamWriteBody ctx p data endStream).1.io.sendFailed = false) :
    BodyInv p (http2StreamWriteBody ctx p data endStream).1 (accepted ++ acceptedBytes data
          (http2StreamWriteBody ctx p data endStream).2) := by
  have hrefused : ∀ ctx', SendQuiet ctx ctx' →
      BodyInv p ctx' (accepted ++ acceptedBytes data (-1)) := by
    intro ctx' hquiet
    simpa [acceptedBytes] using h.bodyQuiet (hquiet.bodyQuiet p)
  unfold http2StreamWriteBody at hok ⊢
  split_ifs at hok ⊢ with hdata hlinked hstatus hpending hnil
  · exact hrefused _ (.refl ctx)
  · exact hrefused _ (.refl ctx)
  · exact hrefused _ (setErrno_sendQuiet ctx _)
  · exact writeBodyQueued_body endStream h (by simpa using hlinked) hok
  · subst hnil
    simpa [acceptedBytes] using writeBodyEnd_body h (by simpa using hpending) hok
  · rw [WriteFits, if_neg hpending] at hfits
    exact writeBodyDirect_body endStream h (by simpa using hpending) hnil hfits hok

/-! ### Whole runs -/

section

variable (h : BodyInv p ctx accepted)
include h

theorem flushPendingSend_body (q : StreamPtr)
    (hok : (http2StreamFlushPendingSend ctx q).1.io.sendFailed = false) :
    BodyInv p (http2StreamFlushPendingSend ctx q).1 accepted := by
  by_cases hq : p = q
  · subst hq
    by_cases hlinked : (ctx.heap p).linked = true
    · exact (http2StreamFlushPendingSend_body h.toBodyCore hlinked hok).1
    have hsame : http2StreamFlushPendingSend ctx p = (ctx, false) := by
      simp [http2StreamFlushPendingSend, hlinked]
    rwa [hsame]
  · exact h.bodyQuiet ((http2StreamFlushPendingSend_sends (fun _ _ h => h) ctx).changes.bodyQuiet
      (by simpa using hq) h.allocated)

theorem flushStream_body (q : StreamPtr) (hok : (flushStream ctx q).io.sendFailed = false) :
    BodyInv p (flushStream ctx q) accepted := by
  have hflush := flushPendingSend_body h q
  unfold flushStream at hok ⊢
  dsimp only at hok ⊢
  split_ifs at hok ⊢ with hpending hfail hclose
  · exact hflush hok
  · have hmid := (http2RemoveStream_quiet _ q).io.sendFailed_mono hok
    exact (hflush hmid).bodyQuiet (http2RemoveStream_bodyQuiet _ q p)
  · exact hflush hok
  · exact h

theorem http2CtxFlushPendingSendBodies_body
    (hok : (http2CtxFlushPendingSendBodies ctx).io.sendFailed = false) :
    BodyInv p (http2CtxFlushPendingSendBodies ctx) accepted := by
  unfold http2CtxFlushPendingSendBodies at hok ⊢
  generalize ctx.streams = streams at hok ⊢
  induction streams generalizing ctx with
  | nil => exact h
  | cons q rest ih =>
  have hquiet : ∀ (streams : List StreamPtr) (ctx : Http2Ctx),
      Kept ctx (streams.foldl flushStream ctx) := by
    intro streams
    induction streams with
    | nil => exact fun ctx => .refl ctx
    | cons q rest ih => exact fun ctx => (flushStream_sends ctx (by simp)).kept.trans (ih _)
  have hmid := (hquiet rest (flushStream ctx q)).io.sendFailed_mono hok
  exact ih (flushStream_body h q hmid) hok

theorem http2StreamClose_body (hok : (http2StreamClose ctx p).io.sendFailed = false) :
    BodyInv p (http2StreamClose ctx p) accepted := by
  have hmark : SendQuiet ctx (ctx.modifyStream p fun s => { s with closeAfterSend := true }) :=
    setStream_sendQuiet ctx rfl
  have hnow := fun ctx₁ => closeNow_changes ctx₁ p
  have hflush := flushPendingSend_body (h.bodyQuiet (hmark.bodyQuiet p)) p
  unfold http2StreamClose at hok ⊢
  dsimp only at hok ⊢
  generalize http2StreamFlushPendingSend
      (ctx.modifyStream p fun s => { s with closeAfterSend := true }) p = r at hok hflush ⊢
  obtain ⟨ctx', ok⟩ := r
  have hleaf : ∀ ctx₁, Changes [.plain, .remove] ctx' ctx₁ →
      ctx₁.io.sendFailed = false → BodyInv p ctx₁ accepted := by
    intro ctx₁ hchanges hok
    have hinv := hflush (hchanges.kept.io.sendFailed_mono hok)
    exact hinv.bodyQuiet (hchanges.bodyQuiet (by simp) hinv.allocated)
  have hclosed : Changes [.plain, .remove] ctx'
      (ctx'.modifyStream p fun s => { s with state := .closed }) :=
    .one (.stream p rfl rfl) (by simp)
  split_ifs at hok ⊢ with hlinked hpending hfail hwait hwait
  · exact h
  · exact hleaf _ hclosed hok
  · exact hleaf _ (hclosed.trans (hnow _)) hok
  · exact hflush hok
  · exact hleaf _ (hnow ctx') hok
  · exact h.bodyQuiet ((hnow ctx).bodyQuiet (by simp) h.allocated)

end

/-- The bytes that the writes of a run report as accepted. -/
def observeAccepted (p : StreamPtr) (ctx : Http2Ctx) :
    Event → Bytes → Bytes
  | .writeBody q data endStream, accepted =>
    if q = p then
      accepted ++
        acceptedBytes data (http2StreamWriteBody ctx p data endStream).2
    else accepted
  | _, accepted => accepted

/-- The effect of an event on the body of a stream. -/
inductive BodyStep (p : StreamPtr) (ctx : Http2Ctx) :
    Event → Http2Ctx → Prop
  | quiet {e : Event} {ctx' : Http2Ctx} :
      BodyQuiet p ctx ctx' →
        (∀ accepted, observeAccepted p ctx e accepted = accepted) →
        BodyStep p ctx e ctx'
  /-- All queues are drained, after a window update maybe. -/
  | flush {e : Event} {ctx₁ : Http2Ctx} :
      BodyQuiet p ctx ctx₁ →
        (∀ accepted, observeAccepted p ctx e accepted = accepted) →
        BodyStep p ctx e (http2CtxFlushPendingSendBodies ctx₁)
  | request (method path : CStr) (scheme : Option CStr)
      (headers : List HeaderPair) :
      BodyStep p ctx (.setRequest p method path scheme headers)
        (http2StreamSetRequest ctx p method path scheme headers).1
  | write (data : Bytes) (endStream : Bool) :
      BodyStep p ctx (.writeBody p data endStream)
        (http2StreamWriteBody ctx p data endStream).1
  | close : BodyStep p ctx (.close p) (http2StreamClose ctx p)

theorem windowUpdate_bodyStep (p : StreamPtr) (ctx : Http2Ctx) (f : Frame) :
    BodyStep p ctx (.recvFrame f) (frameResult
        (http2ProcessWindowUpdateFrame ctx f.streamId f.payload)) := by
  have hquiet : ∀ r : Http2Ctx × Bool, BodyQuiet p ctx r.1 →
      BodyStep p ctx (.recvFrame f) (frameResult r) := fun r hr =>
    .quiet (hr.trans ((frameResult_sendQuiet r).bodyQuiet p)) fun _ => rfl
  have hcredit := (creditWindow_regrants ctx f.streamId (windowIncrement f.payload)).bodyQuiet p
  unfold http2ProcessWindowUpdateFrame
  split
  · exact hquiet _ ((failConnection_sendQuiet ctx _).bodyQuiet p)
  split
  · split
    · exact hquiet _ ((failConnection_sendQuiet ctx _).bodyQuiet p)
    · exact hquiet _ ((failStream_sendQuiet ctx _ _).bodyQuiet p)
  split
  next heq =>
    rw [heq] at hcredit
    exact hquiet _ hcredit
  next heq =>
  rw [heq] at hcredit
  exact .flush hcredit fun _ => rfl

/-- An event of kinds other than the body's own leaves it alone. -/
theorem BodyStep.of_kinds (hp : p < ctx.nextPtr) (hkinds : .body p ∉ e.kinds ctx)
    (hacc : ∀ accepted, observeAccepted p ctx e accepted = accepted) :
    BodyStep p ctx e (step ctx e) :=
  .quiet ((step_changes ctx e).bodyQuiet hkinds hp) hacc

theorem http2ProcessFrame_bodyStep (hp : p < ctx.nextPtr) (f : Frame) :
    BodyStep p ctx (.recvFrame f) (http2ProcessFrame ctx f) := by
  by_cases hupdate : f.type = frameWindowUpdate
  · have hquiet : ∀ ctx', SendQuiet ctx ctx' → BodyStep p ctx (.recvFrame f) ctx' :=
      fun ctx' hq => .quiet (hq.bodyQuiet p) fun _ => rfl
    have hdispatch : dispatchFrame ctx f =
        frameResult (http2ProcessWindowUpdateFrame ctx f.streamId f.payload) := by
      simp [dispatchFrame, hupdate, frameData, frameHeaders, frameContinuation, frameSettings,
        frameWindowUpdate]
    unfold http2ProcessFrame
    rw [hdispatch]
    repeat' split
    · exact hquiet _ (.refl ctx)
    · exact hquiet _ (setStatus_sendQuiet ctx _)
    · exact hquiet _ (failConnection_sendQuiet ctx _)
    · exact windowUpdate_bodyStep p ctx f
  · refine BodyStep.of_kinds hp (e := .recvFrame f) ?_ fun _ => rfl
    simp only [Event.kinds, Frame.kinds, if_neg hupdate]
    repeat' split
    all_goals simp

/-- **One event and one body.** -/
theorem step_bodyStep (hp : p < ctx.nextPtr) (e : Event) : BodyStep p ctx e (step ctx e) := by
  cases e with
  | recvFrame f => exact http2ProcessFrame_bodyStep hp f
  | flushBodies => exact .flush (.refl p ctx) fun _ => rfl
  | setRequest q method path scheme headers =>
    by_cases hq : p = q
    · subst hq
      exact .request method path scheme headers
    · exact .of_kinds hp (by simpa [Event.kinds] using hq) fun _ => rfl
  | writeBody q data endStream =>
    by_cases hq : p = q
    · subst hq
      exact .write data endStream
    · exact .of_kinds hp (by simpa [Event.kinds] using hq) fun _ => by
        simp [observeAccepted, Ne.symm hq]
  | close q =>
    by_cases hq : p = q
    · subst hq
      exact .close
    · exact .of_kinds hp (by simpa [Event.kinds] using hq) fun _ => rfl
  | _ => exact .of_kinds hp (by simp [Event.kinds]) fun _ => rfl

/-- The side condition on the events of a run: no further request on the
stream, and writes of a size that works. -/
def bodyEvent (p : StreamPtr) (ctx : Http2Ctx) : Event → Prop
  | .setRequest q _ _ _ _ => q ≠ p
  | .writeBody q data _ => q = p → WriteFits ctx p data
  | _ => True

theorem BodyStep.inv
    (hstep : BodyStep p ctx e ctx') (h : BodyInv p ctx accepted) (he : bodyEvent p ctx e)
    (hok : ctx'.io.sendFailed = false) :
    BodyInv p ctx' (observeAccepted p ctx e accepted) := by
  cases hstep with
  | quiet hquiet hacc =>
    rw [hacc]
    exact h.bodyQuiet hquiet
  | flush hquiet hacc =>
    rw [hacc]
    exact http2CtxFlushPendingSendBodies_body (h.bodyQuiet hquiet) hok
  | request => exact absurd rfl he
  | write data endStream =>
    simp only [observeAccepted, if_true]
    exact http2StreamWriteBody_body endStream h (he rfl) hok
  | close => exact http2StreamClose_body h hok

/-! ### After the end -/

structure BodyFinished (p : StreamPtr) (ctx : Http2Ctx) : Prop where
  allocated : p < ctx.nextPtr
  sent : (ctx.heap p).endStreamSent = true
  queue : QueueIdle (ctx.heap p)

section

variable (h : BodyFinished p ctx)
include h

theorem BodyFinished.bodyQuiet (hquiet : BodyQuiet p ctx ctx') : BodyFinished p ctx' := by
  have hview := hquiet.view
  simp only [bodyView, BodyView.mk.injEq] at hview
  obtain ⟨hbody, hsize, hoffset, hend, hsent⟩ := hview
  exact ⟨h.allocated.trans_le hquiet.nextPtr, hsent.trans h.sent,
    ⟨hbody.trans h.queue.body, hsize.trans h.queue.size,
      hoffset.trans h.queue.offset, hend.trans h.queue.endStream⟩⟩

theorem BodyFinished.not_pending : http2StreamHasPendingSend (ctx.heap p) = false := by
  simp [http2StreamHasPendingSend, h.queue.body, h.queue.endStream]

theorem BodyFinished.flushBodies : BodyQuiet p ctx (http2CtxFlushPendingSendBodies ctx) := by
  unfold http2CtxFlushPendingSendBodies
  generalize ctx.streams = streams
  induction streams generalizing ctx with
  | nil => exact .refl p ctx
  | cons q rest ih =>
  have hfirst : BodyQuiet p ctx (flushStream ctx q) := by
    by_cases hq : p = q
    · subst hq
      simp only [flushStream, h.not_pending, false_eq_true, if_false]
      exact .refl p ctx
    · exact (flushStream_sends ctx (by simp)).changes.bodyQuiet (by simpa using hq) h.allocated
  exact hfirst.trans (ih (h.bodyQuiet hfirst))

theorem BodyFinished.writeBody (data : Bytes) (endStream : Bool) :
    BodyQuiet p ctx (http2StreamWriteBody ctx p data endStream).1 := by
  unfold http2StreamWriteBody
  split
  · exact .refl p ctx
  split
  · exact .refl p ctx
  split
  · exact (setErrno_sendQuiet ctx _).bodyQuiet p
  rw [if_neg (by simp [h.not_pending])]
  split
  · simp only [writeBodyEnd, h.sent, if_true]
    exact .refl p ctx
  next hne =>
  obtain ⟨fuel, hfuel⟩ :=
    Nat.exists_eq_succ_of_ne_zero (length_pos_iff.mpr hne).ne'
  rw [hfuel]
  simp only [writeBodyLoop, if_neg hne, h.sent, if_true]
  exact (setErrno_sendQuiet ctx _).bodyQuiet p

end

theorem BodyStep.finished
    (hstep : BodyStep p ctx e ctx') (h : BodyFinished p ctx) (he : bodyEvent p ctx e) :
    BodyQuiet p ctx ctx' := by
  cases hstep with
  | quiet hquiet _ => exact hquiet
  | flush hquiet _ => exact hquiet.trans (h.bodyQuiet hquiet).flushBodies
  | request => exact absurd rfl he
  | write data endStream => exact h.writeBody data endStream
  | close =>
    unfold http2StreamClose
    split
    · exact .refl p ctx
    rw [if_neg (by simp [h.not_pending])]
    exact (closeNow_changes ctx p).bodyQuiet (by simp) h.allocated

theorem run_finished {events : List Event} (h : BodyFinished p ctx)
    (hevents : Admissible step (bodyEvent p) ctx events) :
    BodyQuiet p ctx (run step ctx events) := by
  induction events generalizing ctx with
  | nil => exact .refl p ctx
  | cons e events ih =>
    have hfirst := (step_bodyStep h.allocated e).finished h hevents.1
    exact hfirst.trans (ih (h.bodyQuiet hfirst) hevents.2)

/-! ### The theorem -/

/-- A stream on which nothing has been written yet. -/
structure BodyFresh (p : StreamPtr) (ctx : Http2Ctx) : Prop where
  allocated : p < ctx.nextPtr
  queue : QueueIdle (ctx.heap p)
  frames : bodyFrames p ctx.sent = []

theorem BodyFresh.bodyInv (h : BodyFresh p ctx) : BodyInv p ctx [] := by
  refine BodyCore.inv_of_idle ⟨h.allocated, ?_, ?_, ?_, ?_⟩ h.queue
  · simp [h.frames, queuedBody, h.queue.body, payloadBytes]
  · rw [h.queue.offset]
    exact Nat.zero_le _
  · simp [h.frames]
  · intro _
    rw [h.queue.offset, h.queue.body, h.frames]
    exact ⟨rfl, by simp [EndsOnce]⟩

/--
**Bodies are delivered in order.**  In every run in which the sender refuses
nothing and every write on the stream is of a size that works, the payloads
sent on the stream and its queue together are the accepted bytes.  The end flag
is on no frame but the last; when it was sent nothing is left in the queue, and
no frame follows a request that ended the stream itself.
-/
theorem body_delivered (p : StreamPtr) (ctx : Http2Ctx) (events : List Event)
    (hfresh : BodyFresh p ctx) (hevents : Admissible step (bodyEvent p) ctx events)
    (hok : (run step ctx events).io.sendFailed = false) :
    payloadBytes (bodyFrames p (run step ctx events).sent) ++
          queuedBody ((run step ctx events).heap p) =
        observed step (observeAccepted p) ctx [] events ∧
      EndsOnce (bodyFrames p (run step ctx events).sent) ∧
      ((∃ f ∈ bodyFrames p (run step ctx events).sent, f.2 = true) →
        queuedBody ((run step ctx events).heap p) = []) ∧
      ((ctx.heap p).endStreamSent = true → bodyFrames p (run step ctx events).sent = []) := by
  have hinv := observed_invariant step (observeAccepted p)
    (fun ctx accepted => ctx.io.sendFailed = false → BodyInv p ctx accepted)
    (fun ctx accepted e h he hok => by
      have hprev := h ((step_kept ctx e).io.sendFailed_mono hok)
      exact (step_bodyStep hprev.allocated e).inv hprev he hok)
    (fun _ => hfresh.bodyInv) hevents hok
  refine ⟨hinv.delivered, ?_, ?_, fun hsent => ?_⟩
  · cases hsent : ((run step ctx events).heap p).endStreamSent with
    | true => exact (hinv.ended hsent).2
    | false => exact fun f hf => hinv.opened hsent f (mem_of_mem_dropLast hf)
  · rintro ⟨f, hf, hend⟩
    have hsent : ((run step ctx events).heap p).endStreamSent = true := by
      by_contra hopen
      have := hinv.opened (by simpa using hopen) f hf
      simp [hend] at this
    exact drop_eq_nil_of_le (hinv.ended hsent).1.ge
  · exact (run_finished ⟨hfresh.allocated, hsent, hfresh.queue⟩ hevents).frames.trans hfresh.frames

/-- A client with one stream, on which nothing was written. -/
def openClient : Http2Ctx :=
  run step blockedClient [.streamNew]

theorem openClient_bodyFresh : BodyFresh 0 openClient :=
  ⟨by decide +kernel, ⟨by decide +kernel, by decide +kernel,
    by decide +kernel, by decide +kernel⟩, by decide +kernel⟩

/-- Three bytes are written in two calls, and the body is ended. -/
def writeRun : List Event :=
  [.writeBody 0 [1, 2] false, .flushBodies, .writeBody 0 [3] true]

theorem body_delivered_writeRun :
    payloadBytes (bodyFrames 0 (run step openClient writeRun).sent) ++
        queuedBody ((run step openClient writeRun).heap 0) =
      observed step (observeAccepted 0) openClient [] writeRun :=
  (body_delivered 0 openClient writeRun openClient_bodyFresh
    ⟨fun _ => .inr (by decide +kernel), trivial,
      fun _ => .inr (by decide +kernel), trivial⟩
    (by decide +kernel)).1

/-! ### A write that is sent in part and reported as refused -/

/-- A client whose peer allows one byte on the stream. -/
def oneByteClient : Http2Ctx :=
  run step blockedClient
    [.recvFrame ⟨frameSettings, 0, 0, [0, 4, 0, 0, 0, 1]⟩, .streamNew]

/-- The client after the first byte was sent. -/
def oneByteSent : Http2Ctx :=
  spendWindow
    (http2SendDataFrame oneByteClient 0 (oneByteClient.heap 0).streamId [0] false).1 0 1 false

theorem oneByteSent_refuses (hlen : 2 ^ 30 < rest.length) (totalSent : Nat) :
    queueRest oneByteSent 0 rest false totalSent = (oneByteSent, -1) := by
  have hopen : ((oneByteSent.heap 0).endStreamSent ||
      (oneByteSent.heap 0).pendingSendEndStream) = false := by
    decide +kernel
  have hbody : (oneByteSent.heap 0).pendingSendBody = [] := by decide +kernel
  have hsize : (oneByteSent.heap 0).pendingSendBodySize = 0 := by decide +kernel
  have hgrow : growBuffer 512 0 rest.length = none := growLoop_eq_none (k := 9) (by omega) hlen
  have hqueue : http2StreamQueueSendBody oneByteSent 0 rest false = (oneByteSent, false) := by
    unfold http2StreamQueueSendBody
    simp only [hopen, hbody, hsize, false_eq_true, if_false, length_nil, Nat.zero_add, hgrow]
    rw [if_pos (by omega)]
  unfold queueRest
  rw [hqueue]

theorem oneByteClient_writeBody (hlen : 2 ^ 30 < rest.length) :
    http2StreamWriteBody oneByteClient 0 (0 :: rest) false = (oneByteSent, -1) := by
  have hlinked : (oneByteClient.heap 0).linked = true := by decide +kernel
  have hstatus : ¬oneByteClient.status < 0 := by decide +kernel
  have hidle : http2StreamHasPendingSend (oneByteClient.heap 0) = false := by decide +kernel
  have hopen : (oneByteClient.heap 0).endStreamSent = false := by decide +kernel
  have hwindow : (oneByteClient.heap 0).sendWindowSize = 1 := by decide +kernel
  have hconn : oneByteClient.sendConnWindowSize = 65535 := by decide +kernel
  have hmax : oneByteClient.peerMaxFrameSize = 16384 := by decide +kernel
  have hsend : http2SendDataFrame oneByteClient 0 (oneByteClient.heap 0).streamId [0] false =
        ((http2SendDataFrame oneByteClient 0 (oneByteClient.heap 0).streamId [0] false).1, true) :=
    Prod.ext rfl (by decide +kernel)
  have hopen' : (oneByteSent.heap 0).endStreamSent = false := by decide +kernel
  have hclosed : windowsClosed oneByteSent (oneByteSent.heap 0) = true := by decide +kernel
  have hamount : toSend oneByteClient (oneByteClient.heap 0) (0 :: rest).length = 1 := by
    simp only [toSend, hwindow, hconn, hmax, length_cons]
    omega
  have hwindows : windowsClosed oneByteClient (oneByteClient.heap 0) = false := by decide +kernel
  have hne : rest ≠ [] := ne_nil_of_length_pos (by omega)
  obtain ⟨fuel, hfuel⟩ := Nat.exists_eq_succ_of_ne_zero (length_pos_iff.mpr hne).ne'
  unfold http2StreamWriteBody
  rw [if_neg (by simp), if_neg (by simp [hlinked]), if_neg hstatus,
    if_neg (by simp [hidle]), if_neg (by simp)]
  rw [length_cons, writeBodyLoop]
  dsimp only
  rw [if_neg (by simp), if_neg (by simp [hopen]), hamount, if_neg (by simp [hwindows])]
  simp only [Bool.false_and, take_succ_cons, take_zero, drop_succ_cons, drop_zero]
  rw [hsend, hfuel]
  dsimp only
  rw [writeBodyLoop]
  dsimp only
  rw [if_neg hne, ← oneByteSent, if_neg (by simp [hopen']), if_pos (by simp [hclosed])]
  exact oneByteSent_refuses hlen _

/-- The bytes that are sent need not be the ones that were accepted. -/
theorem body_sent_not_accepted :
    ∃ data : Bytes, data.length = 2 ^ 30 + 2 ∧
      (run step oneByteClient [.writeBody 0 data false]).io.sendFailed = false ∧ payloadBytes
              (bodyFrames 0 (run step oneByteClient [.writeBody 0 data false]).sent) ++
            queuedBody ((run step oneByteClient [.writeBody 0 data false]).heap 0) ≠
          observed step (observeAccepted 0) oneByteClient [] [.writeBody 0 data false] := by
  obtain ⟨rest, hrest⟩ : ∃ rest : Bytes, rest.length = 2 ^ 30 + 1 :=
    ⟨List.replicate (2 ^ 30 + 1) 0, length_replicate⟩
  refine ⟨0 :: rest, by rw [length_cons, hrest], ?_⟩
  have hwrite := @oneByteClient_writeBody rest (by omega)
  have hnone : acceptedBytes (0 :: rest) (-1) = [] := rfl
  simp only [run_cons, run_nil, step, observed, observeAccepted, hwrite, if_true, hnone]
  decide +kernel

end SmartDns.Http2
