import SmartDns.Http2.SendQuiet
import SmartDns.Http2.StreamCounts
import SmartDns.Lib.FlowControl

/-!
# The sending side as a flow-controlled sender

`Ledger` is the peer's side of the account: what the SETTINGS and WINDOW_UPDATE
frames that arrive grant.  `flowState` puts the connection's variables next to
the ledger; the send loops are stretches of sending of that state, and the
frames that grant something are its other operations.
-/

namespace SmartDns.Http2

open Hpack

variable {ctx ctx' : Http2Ctx} {p : StreamPtr}

/-- The account of the peer's grants. -/
structure Ledger where
  initialWindow : Int := defaultWindowSize
  maxFrame : Nat := defaultMaxFrameSize
  conn : Int := defaultWindowSize
  credit : StreamPtr → Int := fun _ => 0

/-- What the peer has granted a stream. -/
def Ledger.granted (l : Ledger) (p : StreamPtr) : Int :=
  l.initialWindow + l.credit p

/-- The DATA frames among the frames sent: the stream and the payload length
of each. -/
def dataPayloads (frames : List SentFrame) : List (StreamPtr × Nat) :=
  (dataFrames frames).map fun f => (f.1, f.2.1.length)

@[simp] theorem dataPayloads_append (frames frames' : List SentFrame) :
    dataPayloads (frames ++ frames') = dataPayloads frames ++ dataPayloads frames' := by
  simp [dataPayloads]

/-- The connection as a sender with flow control. -/
def flowState (ctx : Http2Ctx) (l : Ledger) : FlowState StreamPtr where
  initial := ctx.sendInitialWindowSize
  maxFrame := ctx.peerMaxFrameSize
  connGrant := l.conn
  credit := l.credit
  conn := ctx.sendConnWindowSize
  window := fun p => (ctx.heap p).sendWindowSize
  opened := fun p => (ctx.heap p).linked
  used := fun p => decide (p < ctx.nextPtr)
  sent := dataPayloads ctx.sent

/-- A stretch of sending, in which streams may be removed. -/
structure Flows (ctx ctx' : Http2Ctx) : Prop where
  spends : ∀ l, FlowState.Spends (flowState ctx l) (flowState ctx' l)
  wf : StreamsWf ctx → StreamsWf ctx'

theorem Flows.refl (ctx : Http2Ctx) : Flows ctx ctx :=
  ⟨fun _ => .refl _, id⟩

theorem Flows.trans {ctx₁ ctx₂ ctx₃ : Http2Ctx} (h₁ : Flows ctx₁ ctx₂) (h₂ : Flows ctx₂ ctx₃) :
    Flows ctx₁ ctx₃ :=
  ⟨fun l => (h₁.spends l).trans (h₂.spends l), h₂.wf ∘ h₁.wf⟩

/-- A change that leaves the account alone. -/
structure FlowQuiet (ctx ctx' : Http2Ctx) : Prop where
  flow : ∀ l, flowState ctx' l = flowState ctx l
  streams : ctx'.streams = ctx.streams
  streamMap : ctx'.streamMap = ctx.streamMap
  nextPtr : ctx'.nextPtr = ctx.nextPtr

theorem FlowQuiet.linked (h : FlowQuiet ctx ctx') (p : StreamPtr) :
    (ctx'.heap p).linked = (ctx.heap p).linked :=
  congrFun (congrArg FlowState.opened (h.flow {})) p

theorem FlowQuiet.wf (h : FlowQuiet ctx ctx') (hwf : StreamsWf ctx) : StreamsWf ctx' :=
  hwf.of_eq h.streams h.streamMap h.nextPtr h.linked

theorem FlowQuiet.flows (h : FlowQuiet ctx ctx') : Flows ctx ctx' := by
  refine ⟨fun l => ?_, h.wf⟩
  rw [h.flow l]
  exact .refl _

theorem SendQuiet.flowQuiet (h : SendQuiet ctx ctx') : FlowQuiet ctx ctx' := by
  have hwindow : ∀ p, (ctx'.heap p).sendWindowSize = (ctx.heap p).sendWindowSize :=
    fun p => congrArg SendView.sendWindowSize (h.view p)
  have hlinked : ∀ p, (ctx'.heap p).linked = (ctx.heap p).linked :=
    fun p => congrArg SendView.linked (h.view p)
  refine ⟨fun l => ?_, h.streams, h.streamMap, h.nextPtr⟩
  simp only [flowState, dataPayloads, hwindow, hlinked, h.data, h.connWindow,
    h.initialWindow, h.maxFrame, h.nextPtr]

theorem SendQuiet.flows (h : SendQuiet ctx ctx') : Flows ctx ctx' :=
  h.flowQuiet.flows

theorem setStream_flowQuiet
    (ctx : Http2Ctx) {s : Http2Stream} (hwindow : s.sendWindowSize = (ctx.heap p).sendWindowSize)
    (hlinked : s.linked = (ctx.heap p).linked) :
    FlowQuiet ctx (ctx.setStream p s) := by
  have hw : ∀ q, ((ctx.setStream p s).heap q).sendWindowSize = (ctx.heap q).sendWindowSize := by
    intro q
    rw [Http2Ctx.setStream_heap]
    split
    next h => rw [h, hwindow]
    · rfl
  have hl : ∀ q, ((ctx.setStream p s).heap q).linked = (ctx.heap q).linked := by
    intro q
    rw [Http2Ctx.setStream_heap]
    split
    next h => rw [h, hlinked]
    · rfl
  refine ⟨fun l => ?_, rfl, rfl, rfl⟩
  simp only [flowState, hw, hl]
  rfl

/-! ### The send loops -/

theorem toSend_maySpend (l : Ledger) (remain : Nat) (hlinked : (ctx.heap p).linked = true)
    (hopen : windowsClosed ctx (ctx.heap p) = false) :
    (flowState ctx l).MaySpend p (toSend ctx (ctx.heap p) remain) := by
  simp only [windowsClosed, Bool.or_eq_false_iff, decide_eq_false_iff_not] at hopen
  refine ⟨hlinked, .inr ⟨?_, ?_⟩, ?_⟩
  all_goals
    unfold toSend
    simp only [flowState]
    omega

theorem spendWindow_flow (ctx : Http2Ctx) (p : StreamPtr) (n : Nat) (isEnd : Bool) (l : Ledger) :
    flowState (spendWindow ctx p n isEnd) l = { flowState ctx l with
        conn := ctx.sendConnWindowSize - n
        window := Function.update (flowState ctx l).window p
          ((ctx.heap p).sendWindowSize - n) } := by
  have hwindow : ∀ q, ((spendWindow ctx p n isEnd).heap q).sendWindowSize =
      Function.update (flowState ctx l).window p ((ctx.heap p).sendWindowSize - n) q := by
    intro q
    by_cases hq : q = p
    · subst hq
      cases isEnd
      all_goals simp [spendWindow, Http2Ctx.setStream]
    · simp [spendWindow, Http2Ctx.setStream, hq, flowState]
  simp only [flowState, spendWindow_linked]
  congr 1
  exact funext hwindow

/--
**One DATA frame of a send loop.**  An accepted frame with the amount that the
loop computes, together with its bookkeeping, is one step of sending.
-/
theorem sendChunk_flows
    {streamId : Nat} {rest : Bytes} {isEnd : Bool} (hlinked : (ctx.heap p).linked = true)
    (hopen : windowsClosed ctx (ctx.heap p) = false) (heq : http2SendDataFrame ctx p streamId
        (rest.take (toSend ctx (ctx.heap p) rest.length)) isEnd = (ctx', true)) :
    Flows ctx (spendWindow ctx' p (toSend ctx (ctx.heap p) rest.length) isEnd) := by
  have hmay := fun l => toSend_maySpend l rest.length hlinked hopen
  have hlen := toSend_le_remain ctx (ctx.heap p) rest.length
  generalize toSend ctx (ctx.heap p) rest.length = n at heq hmay hlen ⊢
  obtain ⟨io, rfl⟩ := http2SendDataFrame_accepted heq
  have hflow : ∀ l, flowState (spendWindow { ctx with
        io := io
        sent := ctx.sent ++ [.data p streamId (rest.take n) isEnd] } p n isEnd) l =
      (flowState ctx l).spend p n := by
    intro l
    rw [spendWindow_flow]
    simp only [flowState, FlowState.spend, dataPayloads_append]
    simp [dataPayloads, dataFrames, hlen]
  refine ⟨fun l => ?_, fun hwf => hwf.of_eq rfl rfl rfl (by simp)⟩
  rw [hflow l]
  exact .spend (.refl _) (hmay l)

theorem endFrame_flows {streamId : Nat} {isEnd : Bool} (hlinked : (ctx.heap p).linked = true)
    (heq : http2SendDataFrame ctx p streamId [] isEnd = (ctx', true)) :
    Flows ctx ctx' := by
  obtain ⟨io, rfl⟩ := http2SendDataFrame_accepted heq
  have hmay : ∀ l, (flowState ctx l).MaySpend p 0 := fun l => ⟨hlinked, .inl rfl, Nat.zero_le _⟩
  refine ⟨fun l => ?_, fun hwf => hwf.of_eq rfl rfl rfl (fun _ => rfl)⟩
  have hflow := FlowState.Spends.spend (.refl (flowState ctx l)) (hmay l)
  have hsame : (flowState ctx l).spend p 0 = flowState { ctx with
          io := io
          sent := ctx.sent ++ [.data p streamId [] isEnd] } l := by
    simp [flowState, FlowState.spend, dataPayloads, dataFrames]
  rwa [hsame] at hflow

theorem http2RemoveStream_flows (ctx : Http2Ctx) (p : StreamPtr) :
    Flows ctx (http2RemoveStream ctx p) := by
  by_cases hmem : p ∈ ctx.streams
  · have hlinked : ∀ q, ((http2RemoveStream ctx p).heap q).linked =
        Function.update (flowState ctx {}).opened p false q := by
      intro q
      simp only [http2RemoveStream, if_pos hmem, Function.update_apply, flowState]
      split
      all_goals rfl
    have hwindow : ∀ q, ((http2RemoveStream ctx p).heap q).sendWindowSize =
          (ctx.heap q).sendWindowSize := by
      intro q
      simp only [http2RemoveStream, if_pos hmem]
      split
      next h => rw [h]
      · rfl
    refine ⟨fun l => ?_, fun hwf => http2RemoveStream_streamsWf hwf p⟩
    have hflow : flowState (http2RemoveStream ctx p) l = (flowState ctx l).closeStream p := by
      unfold FlowState.closeStream
      simp only [flowState, hwindow, hlinked]
      simp only [http2RemoveStream, if_pos hmem]
    rw [hflow]
    exact .close p (.refl _)
  · have heq : http2RemoveStream ctx p = { ctx with streamMap := ctx.streamMap.erase p } := by
      simp [http2RemoveStream, hmem]
    refine ⟨fun l => ?_, fun hwf => http2RemoveStream_streamsWf hwf p⟩
    rw [heq]
    exact .refl _

/-- What the functions that send a body do is a stretch of sending. -/
theorem Sending.flows {K : List Kind} {A : StreamTable → TableOp → Prop}
    (h : Sending K A p ctx ctx') : Flows ctx ctx' := by
  induction h with
  | refl => exact .refl ctx
  | tail _ hstep ih =>
  refine ih.trans ?_
  cases hstep with
  | plain h => exact (h.changes.sendQuiet rfl).flows
  | headers => exact (http2SendHeadersFrame_sendQuiet _ _ _ _).flows
  | @frame _ _ _ _ ok _ hsend hok =>
    cases ok with
    | false => exact (http2SendDataFrame_refused hsend).flows
    | true =>
      obtain ⟨rfl, hlinked⟩ := hok rfl
      exact endFrame_flows hlinked hsend
  | chunk hlinked hopen hsend _ => exact sendChunk_flows hlinked hopen hsend
  | edit hwindow hlinked _ _ => exact (setStream_flowQuiet _ hwindow hlinked).flows
  | remove => exact http2RemoveStream_flows _ p

theorem http2CtxFlushPendingSendBodies_flows (ctx : Http2Ctx) :
    Flows ctx (http2CtxFlushPendingSendBodies ctx) := by
  unfold http2CtxFlushPendingSendBodies
  generalize ctx.streams = streams
  induction streams generalizing ctx with
  | nil => exact .refl ctx
  | cons p rest ih => exact (flushStream_sends (K := [.remove]) ctx (by simp)).flows.trans (ih _)

/-! ### New streams -/

/-- A new stream is opened. -/
structure Opens (ctx ctx' : Http2Ctx) : Prop where
  flow : ∀ l, flowState ctx' l = (flowState ctx l).openStream ctx.nextPtr
  wf : StreamsWf ctx → StreamsWf ctx'

theorem http2CreateStream_opens (ctx : Http2Ctx) (streamId : Nat) :
    SendQuiet ctx (http2CreateStream ctx streamId).1 ∨
      Opens ctx (http2CreateStream ctx streamId).1 := by
  have hwf := fun hwf => @http2CreateStream_streamsWf ctx hwf streamId
  unfold http2CreateStream at hwf ⊢
  split
  · exact .inl (setErrno_sendQuiet ctx _)
  next hroom =>
  rw [if_neg hroom] at hwf
  refine .inr ⟨fun l => ?_, hwf⟩
  unfold FlowState.openStream
  simp only [flowState, FlowState.mk.injEq, true_and, and_true]
  refine ⟨funext fun q => ?_, funext fun q => ?_, funext fun q => ?_⟩
  · by_cases hq : q = ctx.nextPtr <;> simp [hq, newStream]
  · by_cases hq : q = ctx.nextPtr <;> simp [hq, newStream]
  by_cases hq : q = ctx.nextPtr
  · simp [hq]
  have hlt : q < ctx.nextPtr + 1 ↔ q < ctx.nextPtr := by
    rw [Nat.lt_succ_iff_lt_or_eq, or_iff_left hq]
  simp [hq, hlt]

end SmartDns.Http2
