import SmartDns.Http2.ReadBuffer

/-!
# Frames do not depend on `errno`

`errno` belongs to the thread, not to the connection, and a read that finds
nothing sets it.  The functions that handle a frame do the same for every value
it has at their start, and leave connections that differ in it only.
-/

namespace SmartDns.Http2

open Hpack

variable {β : Type} {ctx' : Http2Ctx} {p : StreamPtr}

/-- Two results that differ in `errno` only. -/
def SameResult {β : Type} (r r' : Http2Ctx × β) : Prop :=
  (∃ errno, r'.1 = r.1.setErrno errno) ∧ r'.2 = r.2

/-- A function whose result does not depend on `errno`. -/
def ErrnoFree {β : Type} (f : Http2Ctx → Http2Ctx × β) : Prop :=
  ∀ ctx errno, SameResult (f ctx) (f (ctx.setErrno errno))

def ErrnoFree₁ (f : Http2Ctx → Http2Ctx) : Prop :=
  ∀ ctx errno, ∃ errno', f (ctx.setErrno errno) = (f ctx).setErrno errno'

theorem SameResult.refl (ctx : Http2Ctx) (errno : Errno) (b : β) :
    SameResult (ctx, b) (ctx.setErrno errno, b) :=
  ⟨⟨errno, rfl⟩, rfl⟩

theorem SameResult.ite
    {c : Prop} [Decidable c] {r₁ r₁' r₂ r₂' : Http2Ctx × β} (h₁ : SameResult r₁ r₁')
    (h₂ : SameResult r₂ r₂') : SameResult (if c then r₁ else r₂) (if c then r₁' else r₂') := by
  split
  · exact h₁
  · exact h₂

theorem SameResult.ite₂
    {c : Prop} [Decidable c] {ctx₁ ctx₁' ctx₂ ctx₂' : Http2Ctx} {b₁ b₁' b₂ b₂' : β}
    (h₁ : SameResult (ctx₁, b₁) (ctx₁', b₁')) (h₂ : SameResult (ctx₂, b₂) (ctx₂', b₂')) :
    SameResult (if c then ctx₁ else ctx₂, if c then b₁ else b₂)
      (if c then ctx₁' else ctx₂', if c then b₁' else b₂') := by
  split
  · exact h₁
  · exact h₂

theorem SameResult.andThen {r r' : Http2Ctx × Bool} {k : Http2Ctx → Http2Ctx × Bool} :
    SameResult r r' → (∀ ctx errno, SameResult (k ctx) (k (ctx.setErrno errno))) →
    SameResult (match r with
        | (ctx, false) => (ctx, false)
        | (ctx, true) => k ctx)
      (match r' with
        | (ctx, false) => (ctx, false)
        | (ctx, true) => k ctx) := by
  intro h hk
  obtain ⟨ctx, ok⟩ := r
  obtain ⟨ctx', ok'⟩ := r'
  obtain ⟨⟨errno, hfst⟩, hsnd⟩ := h
  dsimp only at hfst hsnd
  subst hfst hsnd
  cases ok' with
  | false => exact .refl ctx errno false
  | true => exact hk ctx errno

theorem ErrnoFree.eq
    {f : Http2Ctx → Http2Ctx × β} (h : ErrnoFree f) (ctx : Http2Ctx) (errno : Errno) :
    ∃ errno', f (ctx.setErrno errno) = ((f ctx).1.setErrno errno', (f ctx).2) := by
  obtain ⟨⟨e, hfst⟩, hsnd⟩ := h ctx errno
  exact ⟨e, Prod.ext hfst hsnd⟩

section Fields

variable (ctx : Http2Ctx) (e e' : Errno)

theorem setErrno_setErrno : (ctx.setErrno e).setErrno e' = ctx.setErrno e' := rfl

theorem setErrno_heap : (ctx.setErrno e).heap = ctx.heap := rfl

theorem setErrno_modifyStream (p : StreamPtr) (f : Http2Stream → Http2Stream) :
    (ctx.setErrno e).modifyStream p f = (ctx.modifyStream p f).setErrno e := rfl

theorem setErrno_findStream (streamId : Nat) :
    http2FindStream (ctx.setErrno e) streamId = http2FindStream ctx streamId := rfl

end Fields

/-! ### The frame sender -/

theorem flushPendingWrite_errno (io : Http2Io) (errno : Errno) :
    ∃ errno', (flushPendingWrite { io with errno := errno }).1 =
        { (flushPendingWrite io).1 with errno := errno' } ∧
      ((flushPendingWrite { io with errno := errno }).2 = (flushPendingWrite io).2 ∨
        ∃ e, (flushPendingWrite { io with errno := errno }).2 = .failed errEof e ∧
          ∃ e', (flushPendingWrite io).2 = .failed errEof e') := by
  unfold flushPendingWrite
  dsimp only
  split
  · exact ⟨errno, rfl, Or.inl rfl⟩
  split
  · exact ⟨_, rfl, Or.inl rfl⟩
  · exact ⟨_, rfl, Or.inl rfl⟩
  · exact ⟨_, rfl, Or.inl rfl⟩
  split
  · exact ⟨_, rfl, Or.inr ⟨_, rfl, _, rfl⟩⟩
  split
  · exact ⟨_, rfl, Or.inl rfl⟩
  · exact ⟨_, rfl, Or.inl rfl⟩

theorem bufferNewData_errno (io : Http2Io) (errno : Errno) (unsent : Bytes) :
    bufferNewData { io with errno := errno } unsent =
      ({ (bufferNewData io unsent).1 with errno := errno }, (bufferNewData io unsent).2) := by
  unfold bufferNewData
  dsimp only
  split
  · rfl
  generalize (if io.pendingWriteCapacity < io.pendingWriteBuffer.length + unsent.length then
      growBuffer 8192 io.pendingWriteCapacity (io.pendingWriteBuffer.length + unsent.length)
    else some io.pendingWriteCapacity) = capacity
  cases capacity <;> rfl

theorem writeLoop_accept
    (n : Nat) (bio : List BioWrite) {data : Bytes} (errno : Errno) (hne : data ≠ []) :
    writeLoop (.accept n :: bio) data errno = if min n data.length = 0 then
        (bio, [], data, .failed errEof errno)
      else
        ((writeLoop bio (data.drop (min n data.length)) errno).1, data.take (min n data.length) ++
            (writeLoop bio (data.drop (min n data.length)) errno).2.1,
          (writeLoop bio (data.drop (min n data.length)) errno).2.2) := by
  cases data with
  | nil => exact absurd rfl hne
  | cons b data => rfl

theorem writeLoop_errno (bio : List BioWrite) (data : Bytes) (e e' : Errno) :
    (writeLoop bio data e').1 = (writeLoop bio data e).1 ∧
      (writeLoop bio data e').2.1 = (writeLoop bio data e).2.1 ∧
      (writeLoop bio data e').2.2.1 = (writeLoop bio data e).2.2.1 ∧
      ((writeLoop bio data e').2.2.2 = (writeLoop bio data e).2.2.2 ∨
        (writeLoop bio data e').2.2.2 = .failed errEof e' ∧
          (writeLoop bio data e).2.2.2 = .failed errEof e) := by
  fun_induction writeLoop bio data e with
  | case1 => simp [writeLoop]
  | case2 => simp_all [writeLoop]
  | case3 => simp_all [writeLoop]
  | case4 => simp_all [writeLoop]
  | case5 n bio data errno hne ret hret =>
    have hret : min n data.length = 0 := hret
    simp [writeLoop_accept n bio _ hne, hret]
  | case6 n bio data errno hne ret hret r ih =>
    have hret : ¬min n data.length = 0 := hret
    simp only [writeLoop_accept n bio _ hne, if_neg hret]
    exact ⟨ih.1, congrArg _ ih.2.1, ih.2.2.1, ih.2.2.2⟩

theorem http2SendFrame_errno (io : Http2Io) (errno : Errno) (data : Bytes) :
    ∃ errno', http2SendFrame { io with errno := errno } data =
      ({ (http2SendFrame io data).1 with errno := errno' }, (http2SendFrame io data).2) := by
  obtain ⟨e₁, hflush, hout⟩ := flushPendingWrite_errno io errno
  by_cases hneg : io.status < 0
  · refine ⟨errno, ?_⟩
    rw [http2SendFrame_of_status_neg hneg,
      @http2SendFrame_of_status_neg { io with errno := errno } hneg]
  simp only [http2SendFrame, if_neg hneg]
  generalize flushPendingWrite { io with errno := errno } = flushed' at hflush hout ⊢
  generalize flushPendingWrite io = flushed at hflush hout ⊢
  obtain ⟨io₁, out⟩ := flushed
  obtain ⟨io₁', out'⟩ := flushed'
  simp only at hflush hout
  subst hflush
  cases out with
  | failed status e => rcases hout with rfl | ⟨e, rfl, -⟩ <;> exact ⟨_, rfl⟩
  | blocked =>
    obtain rfl : out' = .blocked := by
      rcases hout with rfl | ⟨_, _, _, h⟩
      · rfl
      · cases h
    exact ⟨e₁, bufferNewData_errno io₁ e₁ data⟩
  | done =>
  obtain rfl : out' = .done := by
    rcases hout with rfl | ⟨_, _, _, h⟩
    · rfl
    · cases h
  dsimp only
  obtain ⟨hbio, htaken, hrest, hend⟩ := writeLoop_errno io₁.bio data io₁.errno e₁
  generalize writeLoop io₁.bio data io₁.errno = loop at hbio htaken hrest hend ⊢
  generalize writeLoop io₁.bio data e₁ = loop' at hbio htaken hrest hend ⊢
  obtain ⟨bio, taken, rest, end₁⟩ := loop
  obtain ⟨bio', taken', rest', end₁'⟩ := loop'
  subst hbio htaken hrest
  rcases hend with rfl | ⟨rfl, rfl⟩
  · cases end₁' with
    | done => exact ⟨e₁, rfl⟩
    | blocked => exact ⟨_, rfl⟩
    | failed status e => exact ⟨e, rfl⟩
  · exact ⟨e₁, rfl⟩

theorem sendRecorded_errno (bytes : Bytes) (frame : SentFrame) :
    ErrnoFree fun ctx => sendRecorded ctx bytes frame := by
  intro ctx errno
  obtain ⟨e, hsend⟩ := http2SendFrame_errno ctx.io errno bytes
  have hsend : http2SendFrame (ctx.setErrno errno).io bytes = _ := hsend
  refine ⟨⟨e, ?_⟩, ?_⟩
  · simp only [sendRecorded, hsend]
    rfl
  · simp only [sendRecorded, hsend]

theorem http2SendRstStream_errno (streamId errorCode : Nat) :
    ErrnoFree fun ctx => http2SendRstStream ctx streamId errorCode :=
  sendRecorded_errno _ _

theorem http2SendWindowUpdate_errno (streamId increment : Nat) :
    ErrnoFree fun ctx => http2SendWindowUpdate ctx streamId increment :=
  sendRecorded_errno _ _

theorem http2SendDataFrame_errno
    (p : StreamPtr) (streamId : Nat) (data : Bytes) (endStream : Bool) :
    ErrnoFree fun ctx => http2SendDataFrame ctx p streamId data endStream :=
  sendRecorded_errno _ _

theorem send_errno {send : Http2Ctx → Http2Ctx × Bool} (hsend : ErrnoFree send) (b : β) :
    ErrnoFree fun ctx => ((send ctx).1, b) :=
  fun ctx errno => ⟨(hsend ctx errno).1, rfl⟩

theorem send_setStatus_errno
    {send : Http2Ctx → Http2Ctx × Bool} (hsend : ErrnoFree send) (status : Int) (b : β) :
    ErrnoFree fun ctx => ((send ctx).1.setStatus status, b) := by
  intro ctx errno
  obtain ⟨e, h⟩ := (hsend ctx errno).1
  refine ⟨⟨e, ?_⟩, rfl⟩
  dsimp only
  rw [h]
  rfl

theorem failStream_errno (streamId errorCode : Nat) :
    ErrnoFree fun ctx => failStream ctx streamId errorCode :=
  send_setStatus_errno (http2SendRstStream_errno streamId errorCode) errProtocol false

theorem failConnection_errno (errorCode : Nat) :
    ErrnoFree fun ctx => failConnection ctx errorCode :=
  @send_setStatus_errno _ (http2SendGoaway · 0 errorCode) (sendRecorded_errno _ _) errProtocol false

/-! ### DATA frames -/

theorem http2CheckContentLength_errno (p : StreamPtr) (streamId bodyLen : Nat) (endStream : Bool) :
    ErrnoFree fun ctx => http2CheckContentLength ctx p streamId bodyLen endStream := by
  intro ctx errno
  obtain ⟨e, herrno⟩ : ∃ e,
      contentLengthErrno (ctx.setErrno errno) p = (contentLengthErrno ctx p).setErrno e := by
    simp only [contentLengthErrno, setErrno_heap]
    split
    · exact ⟨errno, rfl⟩
    split
    · exact ⟨errno, rfl⟩
    · exact ⟨.clear, rfl⟩
  simp only [http2CheckContentLength, herrno]
  refine .ite ?_ (.refl _ e false)
  exact send_errno (http2SendRstStream_errno streamId rstProtocolError) true _ e

theorem replenishWindows_errno (p : StreamPtr) (streamId len : Nat) :
    ErrnoFree fun ctx => replenishWindows ctx p streamId len := by
  intro ctx errno
  obtain ⟨e₁, h₁⟩ := (http2SendWindowUpdate_errno 0 len).eq ctx errno
  simp only [replenishWindows, h₁]
  generalize http2SendWindowUpdate ctx 0 len = r₁
  obtain ⟨ctx₁, ok₁⟩ := r₁
  cases ok₁ with
  | false => exact .refl ctx₁ e₁ false
  | true =>
  refine .ite ?_ (.refl _ e₁ true)
  obtain ⟨e₂, h₂⟩ := (http2SendWindowUpdate_errno streamId len).eq
    { ctx₁ with recvConnWindowSize := ctx₁.recvConnWindowSize + len } e₁
  simp only [Http2Ctx.setErrno] at h₂ ⊢
  rw [h₂]
  generalize http2SendWindowUpdate _ streamId len = r₂
  obtain ⟨ctx₂, ok₂⟩ := r₂
  cases ok₂ with
  | false => exact .refl _ e₂ false
  | true => exact .refl _ e₂ true

/-- The answer to a frame for a stream whose receiving side is over. -/
theorem lateFrame_errno (p : StreamPtr) (streamId : Nat) (read : Bool) :
    ErrnoFree fun ctx =>
      if read then
        ((http2SendRstStream ctx streamId rstStreamClosed).1.modifyStream p
          http2MarkStreamReset, true)
      else
        ((http2SendRstStream ctx streamId rstStreamClosed).1.setStatus errProtocol, false) := by
  intro ctx errno
  obtain ⟨e, h⟩ := (http2SendRstStream_errno streamId rstStreamClosed).eq ctx errno
  dsimp only
  rw [h]
  exact .ite (.refl _ e true) (.refl _ e false)

theorem http2ProcessDataFrame_errno (streamId : Nat) (data : Bytes) (flags : Nat) :
    ErrnoFree fun ctx => http2ProcessDataFrame ctx streamId data flags := by
  intro ctx errno
  simp only [http2ProcessDataFrame, setErrno_findStream]
  refine .ite (failConnection_errno _ ctx errno) ?_
  cases http2FindStream ctx streamId with
  | none =>
    exact .ite (send_errno (http2SendRstStream_errno streamId _) true ctx errno)
      (failStream_errno streamId _ ctx errno)
  | some p =>
  refine .ite (lateFrame_errno p streamId _ ctx errno) ?_
  refine .ite (send_errno (http2SendRstStream_errno streamId _) false ctx errno) ?_
  obtain ⟨e, h⟩ := (http2CheckContentLength_errno p streamId
    ((ctx.heap p).bodyBuffer.length + data.length) (hasFlag flags flagEndStream)).eq ctx errno
  simp only [setErrno_heap, h]
  generalize http2CheckContentLength ctx p streamId _ _ = r
  obtain ⟨ctx₁, mismatch⟩ := r
  cases mismatch with
  | true => exact .refl _ e true
  | false =>
    refine .ite (failStream_errno streamId _ ctx₁ e) ?_
    refine .ite (failStream_errno streamId _ ctx₁ e) ?_
    cases growBodyBuffer _ _ with
    | none => exact send_errno (http2SendRstStream_errno streamId _) false ctx₁ e
    | some size => exact .ite (.refl _ e true) (replenishWindows_errno p streamId data.length _ e)

/-! ### HEADERS and CONTINUATION frames -/

theorem headersReceived_errno (p : StreamPtr) (streamId headersFlags : Nat) :
    ErrnoFree fun ctx => headersReceived ctx p streamId headersFlags := by
  intro ctx errno
  simp only [headersReceived, setErrno_modifyStream, setErrno_heap]
  refine .ite ?_ (.refl _ errno true)
  generalize ctx.modifyStream p headersOpen = ctx₁
  obtain ⟨e, h⟩ := (http2CheckContentLength_errno p streamId
    (ctx₁.heap p).bodyBuffer.length true).eq ctx₁ errno
  rw [h]
  generalize http2CheckContentLength ctx₁ p streamId _ true = r
  obtain ⟨ctx₂, mismatch⟩ := r
  cases mismatch with
  | true => exact .refl _ e true
  | false => exact .refl _ e true

theorem setErrno_decoderRan (ctx : Http2Ctx) (errno : Errno) (target : HeaderTarget) :
    decoderRan (ctx.setErrno errno) target = (decoderRan ctx target).setErrno errno := by
  cases target <;> rfl

theorem setErrno_runDecoder (ctx : Http2Ctx) (errno : Errno) (target : HeaderTarget) :
    runDecoder (ctx.setErrno errno) target = runDecoder ctx target := by
  cases target <;> rfl

theorem clearContinuation_errno (streamId errorCode : Nat) :
    ErrnoFree fun ctx =>
      (http2ClearContinuation (http2SendRstStream ctx streamId errorCode).1, false) := by
  intro ctx errno
  obtain ⟨e, h⟩ := (http2SendRstStream_errno streamId errorCode).eq ctx errno
  dsimp only
  rw [h]
  exact .refl _ e false

theorem decodeHeaderBlock_errno
    (target : HeaderTarget) (refuse : Bool) (streamId headersFlags : Nat) :
    ErrnoFree fun ctx => decodeHeaderBlock ctx target refuse streamId headersFlags := by
  intro ctx errno
  simp only [decodeHeaderBlock, setErrno_decoderRan, setErrno_runDecoder]
  refine .ite (clearContinuation_errno streamId _ _ errno) ?_
  refine .ite ?_ ?_
  · exact send_errno (http2SendRstStream_errno streamId _) true
      (http2ClearContinuation (decoderRan ctx target)) errno
  · cases target with
    | stream p =>
      exact headersReceived_errno p streamId headersFlags
        (http2ClearContinuation (decoderRan ctx (.stream p))) errno
    | tmp => exact .refl _ errno true

theorem appendHeaderBlock_errno
    (target : HeaderTarget) (refuse : Bool) (streamId : Nat) (fragment : Bytes) (flags : Nat)
    (isContinuation : Bool) :
    ErrnoFree fun ctx =>
      appendHeaderBlock ctx target refuse streamId fragment flags isContinuation := by
  intro ctx errno
  have hstart : (if isContinuation then ctx.setErrno errno
        else setTargetHeaders (ctx.setErrno errno) [] target) =
        (if isContinuation then ctx else setTargetHeaders ctx [] target).setErrno errno := by
    split
    · rfl
    · cases target <;> rfl
  simp only [appendHeaderBlock, hstart]
  generalize (if isContinuation then ctx else setTargetHeaders ctx [] target) = ctx₁
  refine .ite (clearContinuation_errno streamId _ ctx₁ errno) ?_
  refine .ite ?_ (decodeHeaderBlock_errno target refuse streamId _ _ errno)
  exact .ite (.refl _ errno true) (.refl _ errno true)

theorem http2CreateStream_errno (streamId : Nat) :
    ErrnoFree fun ctx => http2CreateStream ctx streamId := by
  intro ctx errno
  exact .ite (.refl _ .enospc none) (.refl _ errno _)

theorem headersForStream_errno
    (streamId : Nat) (fragment : Bytes) (flags : Nat) (isContinuation refuse : Bool) :
    ErrnoFree fun ctx =>
      headersForStream ctx streamId fragment flags isContinuation refuse := by
  intro ctx errno
  simp only [headersForStream, setErrno_findStream]
  cases http2FindStream ctx streamId with
  | some p =>
    exact .ite (lateFrame_errno p streamId _ ctx errno)
      (appendHeaderBlock_errno _ refuse streamId fragment flags _ ctx errno)
  | none =>
  refine .ite (failConnection_errno _ ctx errno) ?_
  refine .ite (appendHeaderBlock_errno .tmp _ streamId fragment flags _ ctx errno) ?_
  obtain ⟨e, h⟩ := (http2CreateStream_errno streamId).eq ctx errno
  rw [h]
  generalize http2CreateStream ctx streamId = r
  obtain ⟨ctx₁, created⟩ := r
  cases created with
  | none => exact .refl ctx₁ e false
  | some p => exact appendHeaderBlock_errno _ _ streamId fragment flags _ ctx₁ e

theorem http2ProcessHeadersFrame_errno (streamId : Nat) (data : Bytes) (flags : Nat) :
    ErrnoFree fun ctx => http2ProcessHeadersFrame ctx streamId data flags := by
  intro ctx errno
  refine .ite (failConnection_errno _ ctx errno) ?_
  refine .ite (failConnection_errno _ ctx errno) ?_
  cases headersFragment data flags with
  | none => exact .refl ctx errno false
  | some fragment => exact headersForStream_errno streamId fragment flags _ _ ctx errno

theorem http2ProcessContinuationFrame_errno (streamId : Nat) (data : Bytes) (flags : Nat) :
    ErrnoFree fun ctx => http2ProcessContinuationFrame ctx streamId data flags := by
  intro ctx errno
  refine .ite (failConnection_errno _ ctx errno) ?_
  refine .ite (failConnection_errno _ ctx errno) ?_
  refine .ite (failConnection_errno _ ctx errno) ?_
  exact headersForStream_errno streamId data flags true _ ctx errno

/-! ### SETTINGS frames -/

theorem shiftWindows_errno (delta : Int) (streams : List StreamPtr) :
    ErrnoFree fun ctx => shiftWindows delta streams ctx := by
  induction streams with
  | nil => exact fun ctx errno => .refl ctx errno true
  | cons p rest ih =>
    intro ctx errno
    exact .ite (failConnection_errno _ ctx errno) (ih _ errno)

theorem applySetting_errno (id value : Nat) : ErrnoFree fun ctx => applySetting ctx id value := by
  intro ctx errno
  refine .ite (.refl _ errno true) ?_
  refine .ite (.ite (failConnection_errno _ ctx errno) (.refl _ errno true)) ?_
  refine .ite (.refl _ errno true) ?_
  refine .ite (.ite (failConnection_errno _ ctx errno)
    (shiftWindows_errno _ ctx.streams _ errno)) ?_
  refine .ite (.ite (failConnection_errno _ ctx errno) (.refl _ errno true)) ?_
  exact .ite (.refl _ errno true) (.refl _ errno true)

theorem applySettings_errno (entries : List (Nat × Nat)) :
    ErrnoFree fun ctx => applySettings entries ctx := by
  induction entries with
  | nil => exact fun ctx errno => .refl ctx errno true
  | cons entry rest ih =>
    intro ctx errno
    exact (applySetting_errno entry.1 entry.2 ctx errno).andThen ih

theorem http2ProcessSettingsFrame_errno (data : Bytes) (flags : Nat) :
    ErrnoFree fun ctx => http2ProcessSettingsFrame ctx data flags := by
  intro ctx errno
  refine .ite (.ite (failConnection_errno _ ctx errno) (.refl _ errno true)) ?_
  refine .ite (failConnection_errno _ ctx errno) ?_
  refine (applySettings_errno (settingsEntries data) ctx errno).andThen fun ctx₁ errno' => ?_
  exact sendRecorded_errno _ _ { ctx₁ with settingsReceived := true } errno'

/-! ### WINDOW_UPDATE frames and the flush of the queues -/

theorem creditWindow_errno (streamId increment : Nat) :
    ErrnoFree fun ctx => creditWindow ctx streamId increment := by
  intro ctx errno
  simp only [creditWindow, setErrno_findStream]
  refine .ite (.ite (failConnection_errno _ ctx errno) (.refl _ errno true)) ?_
  cases http2FindStream ctx streamId with
  | none => exact .refl ctx errno true
  | some p =>
    exact .ite (send_errno (http2SendRstStream_errno streamId _) false ctx errno)
      (.refl _ errno true)

theorem flushLoop_errno (fuel : Nat) (p : StreamPtr) :
    ErrnoFree fun ctx => flushLoop fuel ctx p := by
  induction fuel with
  | zero => exact fun ctx errno => .refl ctx errno true
  | succ fuel ih =>
    intro ctx errno
    refine .ite ?_ (.refl ctx errno true)
    refine .ite (.refl _ .eagain false) ?_
    refine (http2SendDataFrame_errno p _ _ _ ctx errno).andThen fun _ errno' => ?_
    exact ih _ errno'

theorem flushEnd_errno (p : StreamPtr) : ErrnoFree fun ctx => flushEnd ctx p := by
  intro ctx errno
  refine .ite ?_ (.refl _ errno true)
  refine (http2SendDataFrame_errno p _ _ _ ctx errno).andThen fun _ errno' => ?_
  exact .refl _ errno' true

theorem http2StreamFlushPendingSend_errno (p : StreamPtr) :
    ErrnoFree fun ctx => http2StreamFlushPendingSend ctx p := by
  intro ctx errno
  refine .ite (.refl ctx errno false) ?_
  exact (flushLoop_errno _ p ctx errno).andThen (flushEnd_errno p)

theorem flushLoop_pending
    {fuel : Nat} {ctx : Http2Ctx} (heq : flushLoop fuel ctx p = (ctx', false)) :
    http2StreamHasPendingSend (ctx'.heap p) = true := by
  induction fuel generalizing ctx with
  | zero => cases heq
  | succ fuel ih =>
  simp only [flushLoop] at heq
  split at heq
  case isTrue hlt =>
    have hpending : http2StreamHasPendingSend (ctx.heap p) = true := by
      simp [http2StreamHasPendingSend, hlt]
    split at heq
    · cases heq
      exact hpending
    split at heq
    case h_1 ctx₁ hsend =>
      cases heq
      have hheap : ctx'.heap = ctx.heap := congrArg (fun r => r.1.heap) hsend.symm
      rw [hheap]
      exact hpending
    case h_2 => exact ih heq
  case isFalse => cases heq

theorem flushEnd_pending {ctx : Http2Ctx} (heq : flushEnd ctx p = (ctx', false)) :
    http2StreamHasPendingSend (ctx'.heap p) = true := by
  simp only [flushEnd] at heq
  split at heq
  case isTrue hend =>
    split at heq
    case h_1 ctx₁ hsend =>
      cases heq
      have hheap : ctx'.heap = ctx.heap := congrArg (fun r => r.1.heap) hsend.symm
      rw [hheap, http2StreamHasPendingSend, hend, Bool.or_true]
    case h_2 => cases heq
  case isFalse => cases heq

theorem http2StreamFlushPendingSend_pending
    {ctx : Http2Ctx} (hpending : http2StreamHasPendingSend (ctx.heap p) = true)
    (heq : http2StreamFlushPendingSend ctx p = (ctx', false)) :
    http2StreamHasPendingSend (ctx'.heap p) = true := by
  simp only [http2StreamFlushPendingSend] at heq
  split at heq
  · cases heq
    exact hpending
  split at heq
  case h_1 hloop =>
    cases heq
    exact flushLoop_pending hloop
  case h_2 => exact flushEnd_pending heq

/-- `errno` decides nothing in the loop over the streams: a stream whose flush
failed has a queue, and is not removed. -/
theorem flushStream_eq (ctx : Http2Ctx) (p : StreamPtr) :
    flushStream ctx p = if http2StreamHasPendingSend (ctx.heap p) then
        let r := http2StreamFlushPendingSend ctx p
        if r.2 && !http2StreamHasPendingSend (r.1.heap p) && (r.1.heap p).closeAfterSend then
          http2RemoveStream r.1 p
        else r.1
      else
        ctx := by
  rw [flushStream]
  split
  case isTrue hpending =>
    generalize hr : http2StreamFlushPendingSend ctx p = r
    obtain ⟨ctx', ok⟩ := r
    cases ok with
    | true => simp
    | false => simp [http2StreamFlushPendingSend_pending hpending hr]
  case isFalse => rfl

theorem setErrno_removeStream (ctx : Http2Ctx) (errno : Errno) (p : StreamPtr) :
    http2RemoveStream (ctx.setErrno errno) p = (http2RemoveStream ctx p).setErrno errno := by
  by_cases hmem : p ∈ ctx.streams
  · have hmem' : p ∈ (ctx.setErrno errno).streams := hmem
    simp only [http2RemoveStream, if_pos hmem, if_pos hmem']
    rfl
  have hmem' : p ∉ (ctx.setErrno errno).streams := hmem
  simp only [http2RemoveStream, if_neg hmem, if_neg hmem']
  rfl

theorem flushStream_errno (p : StreamPtr) : ErrnoFree₁ fun ctx => flushStream ctx p := by
  intro ctx errno
  obtain ⟨e, h⟩ := (http2StreamFlushPendingSend_errno p).eq ctx errno
  simp only [flushStream_eq, h, setErrno_heap]
  split
  · split
    · exact ⟨e, setErrno_removeStream _ e p⟩
    · exact ⟨e, rfl⟩
  · exact ⟨errno, rfl⟩

theorem flushStreams_errno (streams : List StreamPtr) :
    ErrnoFree₁ fun ctx => streams.foldl flushStream ctx := by
  induction streams with
  | nil => exact fun ctx errno => ⟨errno, rfl⟩
  | cons p rest ih =>
    intro ctx errno
    obtain ⟨e, h⟩ := flushStream_errno p ctx errno
    dsimp only [List.foldl_cons] at h ⊢
    rw [h]
    exact ih _ e

theorem http2ProcessWindowUpdateFrame_errno (streamId : Nat) (data : Bytes) :
    ErrnoFree fun ctx => http2ProcessWindowUpdateFrame ctx streamId data := by
  intro ctx errno
  refine .ite (failConnection_errno _ ctx errno) ?_
  refine .ite (.ite (failConnection_errno _ ctx errno) (failStream_errno streamId _ ctx errno)) ?_
  refine (creditWindow_errno streamId _ ctx errno).andThen fun ctx₁ errno' => ?_
  exact ⟨flushStreams_errno ctx₁.streams ctx₁ errno', rfl⟩

/-! ### The switch on the frame type -/

theorem frameResult_errno {r r' : Http2Ctx × Bool} (h : SameResult r r') :
    SameResult (frameResult r, frameReturn r) (frameResult r', frameReturn r') := by
  obtain ⟨ctx, ok⟩ := r
  obtain ⟨ctx', ok'⟩ := r'
  obtain ⟨⟨errno, hfst⟩, hsnd⟩ := h
  dsimp only at hfst hsnd
  subst hfst hsnd
  cases ok' with
  | true => exact .refl ctx errno none
  | false =>
  by_cases hstatus : 0 ≤ ctx.status
  · have hstatus' : 0 ≤ (ctx.setErrno errno).status := hstatus
    simp only [frameResult, frameReturn, if_pos hstatus, if_pos hstatus']
    exact .refl _ errno _
  have hstatus' : ¬0 ≤ (ctx.setErrno errno).status := hstatus
  simp only [frameResult, frameReturn, if_neg hstatus, if_neg hstatus']
  exact .refl _ errno _

/-- A frame does the same to the connection, and ends the call the same way, for
every value of `errno`. -/
theorem dispatchFrame_errno (ctx : Http2Ctx) (errno : Errno) (f : Frame) :
    SameResult (dispatchFrame ctx f, dispatchReturn ctx f)
      (dispatchFrame (ctx.setErrno errno) f, dispatchReturn (ctx.setErrno errno) f) := by
  have hfail : ∀ ret : Option Int, SameResult ((failConnection ctx rstProtocolError).1, ret)
      ((failConnection (ctx.setErrno errno) rstProtocolError).1, ret) :=
    fun ret => ⟨(failConnection_errno _ ctx errno).1, rfl⟩
  simp only [dispatchFrame, dispatchReturn]
  refine .ite₂ ?_ <| .ite₂ ?_ <| .ite₂ ?_ <| .ite₂ ?_ <| .ite₂ ?_ <| .ite₂ ?_ <| .ite₂ ?_ <|
    .ite₂ ?_ (.refl ctx errno none)
  · exact frameResult_errno (http2ProcessDataFrame_errno _ _ _ ctx errno)
  · exact frameResult_errno (http2ProcessHeadersFrame_errno _ _ _ ctx errno)
  · exact frameResult_errno (http2ProcessContinuationFrame_errno _ _ _ ctx errno)
  · refine .ite₂ (hfail _) ?_
    exact frameResult_errno (http2ProcessSettingsFrame_errno _ _ ctx errno)
  · exact frameResult_errno (http2ProcessWindowUpdateFrame_errno _ _ ctx errno)
  · simp only [processPing]
    refine .ite₂ (hfail _) (.ite₂ (.refl ctx errno none) ?_)
    have hsend : ErrnoFree fun ctx => http2SendPong ctx f.payload := sendRecorded_errno _ _
    obtain ⟨e, h⟩ := hsend.eq ctx errno
    simp only [h]
    exact .refl _ e _
  · simp only [processRstStream, setErrno_findStream]
    split
    · exact ⟨(failConnection_errno _ ctx errno).1, rfl⟩
    · cases http2FindStream ctx f.streamId with
      | none => exact .refl ctx errno _
      | some p => exact .refl _ errno _
  · exact .refl _ errno _

end SmartDns.Http2
