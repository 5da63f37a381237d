import SmartDns.Http2.Quiet

/-!
# What leaves the sending side alone

Most frames and calls touch neither the windows nor the queued bodies, and
send no DATA frame.  `SendQuiet` says so; the send-side invariants treat all of
them at once.
-/

namespace SmartDns.Http2

open Hpack

variable {p : StreamPtr} {ctx ctx' : Http2Ctx}

/-- The DATA frames among the frames sent: stream, payload and end flag. -/
def dataFrames (frames : List SentFrame) : List (StreamPtr × Bytes × Bool) :=
  frames.filterMap fun
    | .data owner _ payload endStream => some (owner, payload, endStream)
    | _ => none

@[simp] theorem dataFrames_append (frames frames' : List SentFrame) :
    dataFrames (frames ++ frames') = dataFrames frames ++ dataFrames frames' := by
  simp [dataFrames]

/-- A change that leaves the sending side alone. -/
structure SendQuiet (ctx ctx' : Http2Ctx) : Prop where
  view : ∀ p, (ctx'.heap p).sendView = (ctx.heap p).sendView
  data : dataFrames ctx'.sent = dataFrames ctx.sent
  connWindow : ctx'.sendConnWindowSize = ctx.sendConnWindowSize
  initialWindow : ctx'.sendInitialWindowSize = ctx.sendInitialWindowSize
  maxFrame : ctx'.peerMaxFrameSize = ctx.peerMaxFrameSize
  streams : ctx'.streams = ctx.streams
  streamMap : ctx'.streamMap = ctx.streamMap
  nextPtr : ctx'.nextPtr = ctx.nextPtr

section

variable (ctx : Http2Ctx)

theorem SendQuiet.refl : SendQuiet ctx ctx :=
  ⟨fun _ => rfl, rfl, rfl, rfl, rfl, rfl, rfl, rfl⟩

theorem SendQuiet.trans {ctx₁ ctx₂ ctx₃ : Http2Ctx}
    (h₁ : SendQuiet ctx₁ ctx₂) (h₂ : SendQuiet ctx₂ ctx₃) :
    SendQuiet ctx₁ ctx₃ where
  view p := (h₂.view p).trans (h₁.view p)
  data := h₂.data.trans h₁.data
  connWindow := h₂.connWindow.trans h₁.connWindow
  initialWindow := h₂.initialWindow.trans h₁.initialWindow
  maxFrame := h₂.maxFrame.trans h₁.maxFrame
  streams := h₂.streams.trans h₁.streams
  streamMap := h₂.streamMap.trans h₁.streamMap
  nextPtr := h₂.nextPtr.trans h₁.nextPtr

theorem setErrno_sendQuiet (errno : Errno) : SendQuiet ctx (ctx.setErrno errno) :=
  ⟨fun _ => rfl, rfl, rfl, rfl, rfl, rfl, rfl, rfl⟩

theorem setStatus_sendQuiet (status : Int) : SendQuiet ctx (ctx.setStatus status) :=
  ⟨fun _ => rfl, rfl, rfl, rfl, rfl, rfl, rfl, rfl⟩

theorem setStream_sendQuiet {s : Http2Stream} (hview : s.sendView = (ctx.heap p).sendView) :
    SendQuiet ctx (ctx.setStream p s) := by
  refine ⟨fun q => ?_, rfl, rfl, rfl, rfl, rfl, rfl, rfl⟩
  rw [Http2Ctx.setStream_heap]
  split
  next h => rw [h, hview]
  · rfl

theorem sendRecorded_sendQuiet (bytes : Bytes) {frame : SentFrame}
    (hframe : dataFrames [frame] = []) :
    SendQuiet ctx (sendRecorded ctx bytes frame).1 := by
  refine ⟨fun _ => rfl, ?_, rfl, rfl, rfl, rfl, rfl, rfl⟩
  simp only [sendRecorded]
  split
  · rw [dataFrames_append, hframe, List.append_nil]
  · rfl

theorem http2SendRstStream_sendQuiet (streamId errorCode : Nat) :
    SendQuiet ctx (http2SendRstStream ctx streamId errorCode).1 :=
  sendRecorded_sendQuiet ctx _ rfl

theorem failStream_sendQuiet (streamId errorCode : Nat) :
    SendQuiet ctx (failStream ctx streamId errorCode).1 :=
  (http2SendRstStream_sendQuiet ctx streamId errorCode).trans (setStatus_sendQuiet _ _)

theorem failConnection_sendQuiet (errorCode : Nat) :
    SendQuiet ctx (failConnection ctx errorCode).1 :=
  (sendRecorded_sendQuiet ctx _ rfl).trans (setStatus_sendQuiet _ _)

end

theorem http2SendDataFrame_refused {streamId : Nat} {data : Bytes} {endStream : Bool}
    (heq : http2SendDataFrame ctx p streamId data endStream = (ctx', false)) :
    SendQuiet ctx ctx' := by
  unfold http2SendDataFrame sendRecorded at heq
  simp only [Prod.mk.injEq] at heq
  obtain ⟨rfl, hrefused⟩ := heq
  refine ⟨fun _ => rfl, ?_, rfl, rfl, rfl, rfl, rfl, rfl⟩
  simp only [hrefused]
  rfl

theorem http2SendDataFrame_accepted {streamId : Nat} {data : Bytes} {endStream : Bool}
    (heq : http2SendDataFrame ctx p streamId data endStream = (ctx', true)) :
    ∃ io, ctx' = { ctx with
        io := io
        sent := ctx.sent ++ [.data p streamId data endStream] } := by
  unfold http2SendDataFrame sendRecorded at heq
  simp only [Prod.mk.injEq] at heq
  obtain ⟨rfl, haccepted⟩ := heq
  exact ⟨_, by rw [if_pos haccepted]⟩

theorem http2SendHeadersFrame_sendQuiet (ctx : Http2Ctx) (streamId : Nat) (fields : List Header)
    (endStream : Bool) :
    SendQuiet ctx (http2SendHeadersFrame ctx streamId fields endStream).1 := by
  have hframe : ∀ block : Bytes,
      dataFrames [.headers streamId block endStream] = [] :=
    fun _ => rfl
  unfold http2SendHeadersFrame
  split
  · exact ⟨fun _ => rfl, rfl, rfl, rfl, rfl, rfl, rfl, rfl⟩
  · dsimp only
    repeat' split
    all_goals
      refine ⟨fun _ => rfl, ?_, rfl, rfl, rfl, rfl, rfl, rfl⟩
      simp [hframe]

theorem frameResult_sendQuiet (r : Http2Ctx × Bool) : SendQuiet r.1 (frameResult r) := by
  unfold frameResult
  repeat' split
  · exact .refl _
  · exact setStatus_sendQuiet _ _
  · exact .refl _

theorem settingsReceived_sendQuiet (ctx : Http2Ctx) :
    SendQuiet ctx (http2SendSettings { ctx with settingsReceived := true } true).1 := by
  have h : SendQuiet ctx { ctx with settingsReceived := true } :=
    ⟨fun _ => rfl, rfl, rfl, rfl, rfl, rfl, rfl, rfl⟩
  exact h.trans (sendRecorded_sendQuiet _ _ rfl)

/-- The kinds of change that leave the sending side alone. -/
def Kind.leavesSending : Kind → Bool
  | .plain | .recvWindow | .headerBlock | .encoder => true
  | _ => false

theorem Change.sendQuiet {k : Kind} (h : Change ctx k ctx') (hk : k.leavesSending = true) :
    SendQuiet ctx ctx' := by
  cases h with
  | @control bytes frame hframe hbytes =>
    refine sendRecorded_sendQuiet ctx bytes ?_
    cases frame <;> first | rfl | cases hframe
  | headers streamId fields endStream =>
    exact http2SendHeadersFrame_sendQuiet ctx streamId fields endStream
  | stream p hview hid => exact setStream_sendQuiet ctx hview
  | windowUpdate streamId increment => exact sendRecorded_sendQuiet ctx _ rfl
  | connWindow | initialWindow | maxFrame | streamWindow => cases hk
  | data | bodyWindow | bodyStream | create | remove | collect => cases hk
  | _ => exact ⟨fun _ => rfl, rfl, rfl, rfl, rfl, rfl, rfl, rfl⟩

theorem Changes.sendQuiet
    {K : List Kind} (h : Changes K ctx ctx') (hK : K.all Kind.leavesSending = true) :
    SendQuiet ctx ctx' :=
  h.related SendQuiet.refl SendQuiet.trans fun hk hc =>
    hc.sendQuiet (List.all_eq_true.mp hK _ hk)

/-! ### Frames that grant something -/

/-- The fields of a stream that sending uses, without the window. -/
def SendView.body (v : SendView) : SendView :=
  { v with sendWindowSize := 0 }

/-- A change that touches no part of the sending side but the windows and the
frame size. -/
structure Regrants (ctx ctx' : Http2Ctx) : Prop where
  body : ∀ p, (ctx'.heap p).sendView.body = (ctx.heap p).sendView.body
  data : dataFrames ctx'.sent = dataFrames ctx.sent
  streams : ctx'.streams = ctx.streams
  streamMap : ctx'.streamMap = ctx.streamMap
  nextPtr : ctx'.nextPtr = ctx.nextPtr

theorem SendQuiet.regrants (h : SendQuiet ctx ctx') : Regrants ctx ctx' :=
  ⟨fun p => congrArg SendView.body (h.view p), h.data, h.streams, h.streamMap, h.nextPtr⟩

theorem Regrants.trans {ctx₁ ctx₂ ctx₃ : Http2Ctx}
    (h₁ : Regrants ctx₁ ctx₂) (h₂ : Regrants ctx₂ ctx₃) :
    Regrants ctx₁ ctx₃ :=
  ⟨fun p => (h₂.body p).trans (h₁.body p), h₂.data.trans h₁.data,
    h₂.streams.trans h₁.streams, h₂.streamMap.trans h₁.streamMap, h₂.nextPtr.trans h₁.nextPtr⟩

theorem setWindow_regrants (ctx : Http2Ctx) (p : StreamPtr) (w : Int) :
    Regrants ctx (ctx.setStream p { ctx.heap p with sendWindowSize := w }) := by
  refine ⟨fun q => ?_, rfl, rfl, rfl, rfl⟩
  rw [Http2Ctx.setStream_heap]
  split
  next h => rw [h]; rfl
  · rfl

/-- The kinds of change that leave the queued bodies alone. -/
def Kind.leavesBodies : Kind → Bool
  | .grant => true
  | k => k.leavesSending

theorem Change.regrants {k : Kind} (h : Change ctx k ctx') (hk : k.leavesBodies = true) :
    Regrants ctx ctx' := by
  by_cases hgrant : k = .grant
  · cases h with
    | connWindow | initialWindow | maxFrame => exact ⟨fun _ => rfl, rfl, rfl, rfl, rfl⟩
    | streamWindow p size => exact setWindow_regrants ctx p size
    | _ => cases hgrant
  · refine (h.sendQuiet ?_).regrants
    cases k <;> first | exact hk | exact absurd rfl hgrant

theorem Changes.regrants
    {K : List Kind} (h : Changes K ctx ctx') (hK : K.all Kind.leavesBodies = true) :
    Regrants ctx ctx' :=
  h.related (fun ctx => (SendQuiet.refl ctx).regrants) Regrants.trans fun hk hc =>
    hc.regrants (List.all_eq_true.mp hK _ hk)

theorem http2ProcessSettingsFrame_regrants (ctx : Http2Ctx) (data : Bytes) (flags : Nat) :
    Regrants ctx (http2ProcessSettingsFrame ctx data flags).1 :=
  (http2ProcessSettingsFrame_still (K := [.plain, .grant, .encoder]) (by simp) (by simp) ctx data
    flags (by simp)).changes.regrants rfl

theorem creditWindow_regrants (ctx : Http2Ctx) (streamId increment : Nat) :
    Regrants ctx (creditWindow ctx streamId increment).1 :=
  (creditWindow_still (K := [.plain, .grant]) (by simp) (by simp) ctx streamId
    increment).changes.regrants rfl

end SmartDns.Http2
