import SmartDns.Http2.Quiet

/-!
# Conservation of the receive window

The peer may send DATA up to the connection window; the connection takes every
payload off its own variable and gives it back with WINDOW_UPDATE frames for
stream 0.  Three paths of `_http2_process_data_frame` drop a payload without
taking it off.  The drift is exactly the sum of those payloads.
-/

namespace SmartDns.Http2

variable {ctx ctx' : Http2Ctx} {streamId : Nat}

/-- The window variable without the credit that was returned for it. -/
def recvBalance (ctx : Http2Ctx) : Int :=
  ctx.recvConnWindowSize - totalConnCredit ctx.sent

/--
The DATA frames that are dropped without being charged to the connection: on a
stream that is gone, on a stream that is closed and read to its end, and on a
stream whose content length they break.
-/
def dataDropped (ctx : Http2Ctx) (f : Frame) : Bool :=
  match http2FindStream ctx f.streamId with
  | none => http2StreamIdWasSeen ctx f.streamId
  | some p =>
    let s := ctx.heap p
    if s.endStreamReceived || s.state == .halfClosedRemote ||
        s.state == .closed then
      s.state == .closed && s.endStreamReadHandled
    else
      contentLengthMismatch s (s.bodyBuffer.length + f.payload.length)
        (hasFlag f.flags flagEndStream)

/-- The payload length of a DATA frame that arrives on an open transport. -/
def dataLength (ctx : Http2Ctx) : Event → Nat
  | .recvFrame f => if f.type = frameData ∧ ctx.ioClosed = false then f.payload.length else 0
  | _ => 0

/-- The part of `dataLength` that is not charged. -/
def droppedLength (ctx : Http2Ctx) : Event → Nat
  | .recvFrame f => if dataDropped ctx f then dataLength ctx (.recvFrame f) else 0
  | _ => 0

theorem WindowKept.balance (h : WindowKept ctx ctx') : recvBalance ctx' = recvBalance ctx := by
  have hconn := congrArg Prod.fst h.window
  have hcredit := congrArg Prod.snd h.window
  simp only [Http2Ctx.recvWindow] at hconn hcredit
  simp only [recvBalance, hconn, hcredit]

theorem Quiet.balance (h : Quiet ctx ctx') : recvBalance ctx' = recvBalance ctx :=
  h.windowKept.balance

theorem sendWindowUpdate_balance
    {increment : Nat} (heq : http2SendWindowUpdate ctx streamId increment = (ctx', true)) :
    recvBalance ctx' = recvBalance ctx - (if streamId = 0 then increment else 0 : Nat) := by
  unfold http2SendWindowUpdate sendRecorded at heq
  simp only [Prod.mk.injEq] at heq
  obtain ⟨rfl, hsent⟩ := heq
  rw [if_pos hsent]
  simp only [recvBalance, totalConnCredit_append]
  split
  next hzero =>
    subst hzero
    simp [totalConnCredit, connCredit]
    omega
  next hne =>
  have : totalConnCredit [.windowUpdate streamId increment] = 0 := by
    cases streamId with
    | zero => exact absurd rfl hne
    | succ n => rfl
  simp [this]

/-- What is given back to the peer is given back to the variable. -/
theorem replenishWindows_balance {p : StreamPtr} {len : Nat} (hid : streamId ≠ 0)
    (hok : (replenishWindows ctx p streamId len).2 = true) :
    recvBalance (replenishWindows ctx p streamId len).1 = recvBalance ctx := by
  unfold replenishWindows at hok ⊢
  split
  next heq => simp [heq] at hok
  next ctx₁ heq =>
  have hfirst := sendWindowUpdate_balance heq
  rw [if_pos rfl] at hfirst
  simp only [heq] at hok
  have hback : recvBalance { ctx₁ with
            recvConnWindowSize := ctx₁.recvConnWindowSize + len } =
        recvBalance ctx := by
    unfold recvBalance at hfirst ⊢
    dsimp only
    omega
  dsimp only
  split
  next hcond =>
    rw [if_pos hcond] at hok
    split
    next heq' => simp [heq'] at hok
    next heq' =>
    have hsecond := sendWindowUpdate_balance heq'
    rw [if_neg hid] at hsecond
    rw [(setStream_quiet _ p _).balance, hsecond, hback]
    simp
  · exact hback

theorem acceptData_balance
    {p : StreamPtr} {data : Bytes} {endStream : Bool} {size : Nat} (hid : streamId ≠ 0)
    (hok : (acceptData ctx p streamId data endStream size).2 = true) :
    recvBalance (acceptData ctx p streamId data endStream size).1 =
      recvBalance ctx - data.length := by
  unfold acceptData at hok ⊢
  dsimp only at hok ⊢
  generalize hs : (if endStream then
      dataEndStream { ctx.heap p with
          bodyBuffer := (ctx.heap p).bodyBuffer ++ data
          bodyBufferSize := size
          recvWindowSize := (ctx.heap p).recvWindowSize - data.length }
    else
      { ctx.heap p with
        bodyBuffer := (ctx.heap p).bodyBuffer ++ data
        bodyBufferSize := size
        recvWindowSize := (ctx.heap p).recvWindowSize - data.length }) = s
    at hok ⊢
  have hcharge : recvBalance ({ ctx with
              recvConnWindowSize :=
                ctx.recvConnWindowSize - data.length }.setStream p s) =
        recvBalance ctx - data.length := by
    rw [(setStream_quiet _ p _).balance]
    unfold recvBalance
    dsimp only
    omega
  split
  · exact hcharge
  next hne =>
  rw [if_neg hne] at hok
  rw [replenishWindows_balance hid hok, hcharge]

/-- **One DATA frame.**  It is charged unless it is dropped. -/
theorem http2ProcessDataFrame_balance
    {f : Frame} (hok : (http2ProcessDataFrame ctx f.streamId f.payload f.flags).2 = true) :
    recvBalance (http2ProcessDataFrame ctx f.streamId f.payload f.flags).1 = recvBalance ctx -
        (if dataDropped ctx f then 0 else f.payload.length : Nat) := by
  have hreset := (http2SendRstStream_still ctx Kind.plain_only f.streamId
    rstStreamClosed).changes.quiet (by simp) (by simp)
  unfold http2ProcessDataFrame at hok ⊢
  unfold dataDropped
  by_cases hid : f.streamId = 0
  · simp [hid, failConnection] at hok
  rw [if_neg hid] at hok ⊢
  cases hfind : http2FindStream ctx f.streamId with
  | none =>
    simp only [hfind] at hok ⊢
    split
    · rw [hreset.balance]
      simp
    next hseen => simp [hseen, failStream] at hok
  | some p =>
  simp only [hfind] at hok ⊢
  split
  next hended =>
    rw [if_pos hended] at hok
    split
    · rw [(modifyStream_quiet _ p _).balance, hreset.balance]
      simp
    next hhandled => simp [hhandled] at hok
  next hended =>
  rw [if_neg hended] at hok
  split
  next hbig => simp [hbig] at hok
  next hbig =>
  rw [if_neg hbig] at hok
  have hcheck := (http2CheckContentLength_still ctx Kind.plain_only p f.streamId
    ((ctx.heap p).bodyBuffer.length + f.payload.length)
    (hasFlag f.flags flagEndStream)).changes.quiet (by simp) (by simp)
  have hmismatch := (http2CheckContentLength_result ctx p f.streamId
    ((ctx.heap p).bodyBuffer.length + f.payload.length) (hasFlag f.flags flagEndStream)).1
  generalize http2CheckContentLength ctx p f.streamId
      ((ctx.heap p).bodyBuffer.length + f.payload.length)
      (hasFlag f.flags flagEndStream) = r
    at hok hcheck hmismatch ⊢
  obtain ⟨ctx', mismatch⟩ := r
  simp only at hcheck hmismatch
  rw [← hmismatch]
  cases mismatch with
  | true =>
    rw [(modifyStream_quiet _ p _).balance, hcheck.balance]
    simp
  | false =>
  simp only [Bool.false_eq_true, if_false] at hok ⊢
  split
  next hlimit => simp [hlimit, failStream] at hok
  next hlimit =>
  rw [if_neg hlimit] at hok
  split
  next hflow => simp [hflow, failStream] at hok
  next hflow =>
  rw [if_neg hflow] at hok
  split
  next hgrow => simp [hgrow] at hok
  next hgrow =>
  simp only [hgrow] at hok
  rw [acceptData_balance hid hok, hcheck.balance]

theorem step_balance {e : Event} (hok : 0 ≤ (step ctx e).status) :
    recvBalance (step ctx e) = recvBalance ctx - dataLength ctx e + droppedLength ctx e := by
  by_cases hdata : ∃ f, e = .recvFrame f ∧ f.type = frameData ∧ ctx.ioClosed = false
  · obtain ⟨f, rfl, htype, hopen⟩ := hdata
    have hlen : dataLength ctx (.recvFrame f) = f.payload.length := by
      simp [dataLength, htype, hopen]
    rw [droppedLength, hlen]
    simp only [step] at hok ⊢
    obtain ⟨hdispatch, -⟩ := http2ProcessFrame_ok hopen hok
    simp only [hdispatch, dispatchFrame, if_pos htype] at hok ⊢
    obtain ⟨hsucc, heq⟩ := frameResult_ok hok
    rw [heq, http2ProcessDataFrame_balance hsucc]
    split
    all_goals omega
  have hlen : dataLength ctx e = 0 := by
    cases e with
    | recvFrame f =>
      have hnot : ¬(f.type = frameData ∧ ctx.ioClosed = false) := fun h => hdata ⟨f, rfl, h⟩
      simp [dataLength, hnot]
    | _ => rfl
  have hdrop : droppedLength ctx e = 0 := by
    cases e with
    | recvFrame f => simp [droppedLength, hlen]
    | _ => rfl
  have hkept : WindowKept ctx (step ctx e) := by
    by_cases htype : e.hasType frameData = false
    · exact step_windowKept ctx htype
    · cases e with
      | recvFrame f =>
        have hclosed : ctx.ioClosed = true := by
          by_contra hopen
          exact hdata ⟨f, rfl, by simpa [Event.hasType] using htype,
            by simpa using hopen⟩
        simp only [step, http2ProcessFrame, hclosed, if_true]
        exact (Quiet.refl ctx).windowKept
      | _ => exact absurd rfl htype
  rw [hkept.balance, hlen, hdrop]
  simp

/-- The drift of the window over a run is the sum of the dropped payloads. -/
theorem run_balance {events : List Event} (hok : 0 ≤ (run step ctx events).status) :
    recvBalance (run step ctx events) = recvBalance ctx - runSum step dataLength ctx events +
        runSum step droppedLength ctx events := by
  induction events generalizing ctx with
  | nil => simp [runSum]
  | cons e events ih =>
    rw [run_cons] at hok ⊢
    rw [ih hok, step_balance (run_status_nonneg hok)]
    simp only [runSum]
    omega

/-- A DATA frame that carries a payload is not dropped. -/
def dataCharged (ctx : Http2Ctx) : Event → Prop
  | .recvFrame f =>
    f.type = frameData → ctx.ioClosed = false → f.payload ≠ [] →
      dataDropped ctx f = false
  | _ => True

theorem droppedLength_eq_zero_iff (ctx : Http2Ctx) (e : Event) :
    droppedLength ctx e = 0 ↔ dataCharged ctx e := by
  cases e with
  | recvFrame f =>
    simp only [droppedLength, dataLength, dataCharged]
    by_cases hdrop : dataDropped ctx f = true
    · simp [hdrop]
    · simp [hdrop]
  | _ => simp [droppedLength, dataCharged]

/--
**Conservation of the receive window.**  In every run of a connection whose
status is not an error, the window variable is the initial window less all DATA
payloads received plus all credit returned, exactly when every DATA frame of
the run was charged.
-/
theorem recvWindow_conserved_iff (isClient : Bool) (server : CStr) (maxConcurrentStreams : Int)
    (bio : List BioWrite) (events : List Event)
    (hok : 0 ≤ (run step (http2CtxNew isClient server maxConcurrentStreams bio) events).status) :
    (run step (http2CtxNew isClient server maxConcurrentStreams bio) events).recvConnWindowSize =
        defaultWindowSize - runSum step dataLength
            (http2CtxNew isClient server maxConcurrentStreams bio) events +
          totalConnCredit (run step (http2CtxNew isClient server maxConcurrentStreams bio)
              events).sent ↔
      Admissible step dataCharged
        (http2CtxNew isClient server maxConcurrentStreams bio) events := by
  have hinit : recvBalance (http2CtxNew isClient server maxConcurrentStreams bio) =
        defaultWindowSize := by
    rw [(http2CtxNew_quiet isClient server maxConcurrentStreams bio).balance]
    rfl
  have hrun := run_balance hok
  rw [hinit] at hrun
  rw [← admissible_congr step droppedLength_eq_zero_iff, ← runSum_eq_zero_iff]
  unfold recvBalance at hrun
  omega

/-- Bytes arrive twice on a stream that the client has opened. -/
def chargedRun : List Event :=
  [.streamNew, .recvFrame ⟨frameData, 0, 1, [1, 2, 3, 4]⟩, .recvFrame ⟨frameData, 1, 1, [5]⟩]

theorem recvWindow_conserved_iff_charged :
    (run step blockedClient chargedRun).recvConnWindowSize =
      defaultWindowSize - runSum step dataLength blockedClient chargedRun +
        totalConnCredit (run step blockedClient chargedRun).sent :=
  (recvWindow_conserved_iff true (CStr.ofString "dns") 0 [] chargedRun (by decide +kernel)).mpr
    ⟨trivial, fun _ _ _ => by decide +kernel, fun _ _ _ => by decide +kernel, trivial⟩

/-- Four bytes arrive after the client has closed the stream. -/
def droppedRun : List Event :=
  [.streamNew, .close 0, .recvFrame ⟨frameData, 0, 1, [1, 2, 3, 4]⟩]

/-- A payload that arrives on a closed stream is never charged. -/
theorem recvWindow_drifts :
    0 ≤ (run step blockedClient droppedRun).status ∧
      (run step blockedClient droppedRun).recvConnWindowSize ≠
        defaultWindowSize - runSum step dataLength blockedClient droppedRun +
          totalConnCredit (run step blockedClient droppedRun).sent := by
  decide +kernel

end SmartDns.Http2
