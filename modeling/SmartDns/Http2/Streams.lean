import SmartDns.Http2.Send

/-!
# Streams and their queued bodies

Lookup, creation and removal of streams, and the queue that holds the part of
a body the peer has not granted a window for, from `http_parse/http2.c`.
-/

namespace SmartDns.Http2

open Hpack

section

variable (ctx : Http2Ctx)

def http2IsLocalStreamId (streamId : Nat) : Bool :=
  if streamId = 0 then false
  else if ctx.isClient then streamId % 2 != 0
  else streamId % 2 == 0

def http2StreamIdWasSeen (streamId : Nat) : Bool :=
  if streamId = 0 then false
  else if http2IsLocalStreamId ctx streamId then streamId ≤ ctx.maxLocalStreamIdSeen
  else streamId ≤ ctx.maxPeerStreamIdSeen

def http2FindStream (streamId : Nat) : Option StreamPtr :=
  ctx.streamMap.find? fun p => (ctx.heap p).streamId == streamId

/-- The limits on concurrent streams that `_http2_create_stream` checks. -/
def tooManyStreams (streamId : Nat) : Bool :=
  if http2IsLocalStreamId ctx streamId then
    (ctx.peerMaxConcurrentStreams : Int) ≤ ctx.activeLocalStreams % 2 ^ 32
  else
    0 < ctx.maxConcurrentStreams &&
      ctx.maxConcurrentStreams ≤ ctx.activePeerStreams

/-- The stream object that `_http2_create_stream` fills in. -/
def newStream (streamId : Nat) : Http2Stream where
  linked := true
  streamId := streamId
  state := .idle
  accepted :=
    if ctx.isClient then streamId % 2 != 0 else streamId % 2 == 0
  sendWindowSize := ctx.sendInitialWindowSize
  recvWindowSize := ctx.recvInitialWindowSize
  bodyBufferSize := 8192

def http2CreateStream (streamId : Nat) : Http2Ctx × Option StreamPtr :=
  if tooManyStreams ctx streamId then (ctx.setErrno .enospc, none)
  else
    let p := ctx.nextPtr
    let isLocal := http2IsLocalStreamId ctx streamId
    ({ ctx with
        heap := fun q => if q = p then newStream ctx streamId else ctx.heap q
        nextPtr := p + 1
        maxLocalStreamIdSeen :=
          if isLocal then max ctx.maxLocalStreamIdSeen streamId
          else ctx.maxLocalStreamIdSeen
        maxPeerStreamIdSeen :=
          if isLocal then ctx.maxPeerStreamIdSeen
          else max ctx.maxPeerStreamIdSeen streamId
        streamMap := p :: ctx.streamMap
        streams := p :: ctx.streams
        activeLocalStreams :=
          if isLocal then ctx.activeLocalStreams + 1
          else ctx.activeLocalStreams
        activePeerStreams :=
          if isLocal then ctx.activePeerStreams
          else
            ctx.activePeerStreams + 1 },
      some p)

def http2RemoveStream (p : StreamPtr) : Http2Ctx :=
  let ctx := { ctx with streamMap := ctx.streamMap.erase p }
  if p ∈ ctx.streams then
    let isLocal := http2IsLocalStreamId ctx (ctx.heap p).streamId
    { ctx with
      streams := ctx.streams.erase p
      heap := fun q =>
        if q = p then { ctx.heap p with linked := false } else ctx.heap q
      activeLocalStreams :=
        if isLocal then ctx.activeLocalStreams - 1
        else ctx.activeLocalStreams
      activePeerStreams :=
        if isLocal then ctx.activePeerStreams
        else
          ctx.activePeerStreams - 1 }
  else ctx

def http2MarkStreamReset (s : Http2Stream) : Http2Stream :=
  { s with
    state := .closed
    endStreamReceived := true
    endStreamReadHandled := true
    bodyBuffer := []
    bodyReadOffset := 0 }

def http2StreamHasPendingSend (s : Http2Stream) : Bool :=
  s.pendingSendBodyOffset < s.pendingSendBody.length ||
    (s.pendingSendEndStream && !s.endStreamSent)

def http2StreamClearPendingSend (s : Http2Stream) : Http2Stream :=
  { s with
    pendingSendBody := []
    pendingSendBodySize := 0
    pendingSendBodyOffset := 0
    pendingSendEndStream := false }

def http2StreamMarkEndSent (s : Http2Stream) : Http2Stream :=
  if s.endStreamSent then s
  else
    { s with
      endStreamSent := true
      state :=
        match s.state with
        | .opened => .halfClosedLocal
        | .halfClosedRemote => .closed
        | state => state }

/-- `_http2_stream_queue_send_body`; `false` stands for the return value -1.
The sum `needed` is an `int` in the source: a queue that would pass `INT_MAX`
is outside the model. -/
def http2StreamQueueSendBody (p : StreamPtr) (data : Bytes) (endStream : Bool) : Http2Ctx × Bool :=
  let s := ctx.heap p
  if s.endStreamSent || s.pendingSendEndStream then (ctx.setErrno .epipe, false)
  else
    let needed := s.pendingSendBody.length + data.length
    let size :=
      if s.pendingSendBodySize < needed then growBuffer 512 s.pendingSendBodySize needed
      else some s.pendingSendBodySize
    match size with
    | none => (ctx, false)
    | some size =>
      (ctx.setStream p
        { s with
          pendingSendBody := s.pendingSendBody ++ data
          pendingSendBodySize := size
          pendingSendEndStream := s.pendingSendEndStream || endStream },
        true)

/--
The amount `to_send` of the two send loops: what is left, cut to the stream
window, the connection window and the peer's frame size.
-/
def toSend (s : Http2Stream) (remain : Nat) : Nat :=
  min (min (min remain s.sendWindowSize.toNat) ctx.sendConnWindowSize.toNat)
    ctx.peerMaxFrameSize

/-- Neither send loop sends when a window is used up. -/
def windowsClosed (s : Http2Stream) : Bool :=
  s.sendWindowSize ≤ 0 || ctx.sendConnWindowSize ≤ 0

/-- The bookkeeping of the two send loops after a DATA frame was accepted. -/
def spendWindow (p : StreamPtr) (n : Nat) (isEnd : Bool) : Http2Ctx :=
  let s := ctx.heap p
  let s := { s with sendWindowSize := s.sendWindowSize - n }
  { ctx with sendConnWindowSize := ctx.sendConnWindowSize - n }.setStream p
    (if isEnd then http2StreamMarkEndSent s else s)

end

/-- The queue after `n` of its bytes were sent. -/
def advancePending (n : Nat) (s : Http2Stream) : Http2Stream :=
  { s with pendingSendBodyOffset := s.pendingSendBodyOffset + n }

/--
The loop of `_http2_stream_flush_pending_send`.  Every turn sends at least one
byte of the queue, so the number of queued bytes is enough fuel.
-/
def flushLoop : (fuel : Nat) → Http2Ctx → StreamPtr → Http2Ctx × Bool
  | 0, ctx, _ => (ctx, true)
  | fuel + 1, ctx, p =>
    let s := ctx.heap p
    if s.pendingSendBodyOffset < s.pendingSendBody.length then
      let rest := s.pendingSendBody.drop s.pendingSendBodyOffset
      let n := toSend ctx s rest.length
      if windowsClosed ctx s || n == 0 then (ctx.setErrno .eagain, false)
      else
        let isEnd := s.pendingSendEndStream && n == rest.length
        match http2SendDataFrame ctx p s.streamId (rest.take n) isEnd with
        | (ctx, false) => (ctx, false)
        | (ctx, true) =>
          let ctx := (spendWindow ctx p n isEnd).modifyStream p
            (advancePending n)
          flushLoop fuel ctx p
    else (ctx, true)

/-- The end of `_http2_stream_flush_pending_send`, once the queue is empty. -/
def flushEnd (ctx : Http2Ctx) (p : StreamPtr) : Http2Ctx × Bool :=
  let s := ctx.heap p
  if s.pendingSendEndStream && !s.endStreamSent then
    match http2SendDataFrame ctx p s.streamId [] true with
    | (ctx, false) => (ctx, false)
    | (ctx, true) =>
      (ctx.setStream p
        (http2StreamClearPendingSend (http2StreamMarkEndSent (ctx.heap p))),
        true)
  else (ctx.setStream p (http2StreamClearPendingSend s), true)

/-- `_http2_stream_flush_pending_send`; `false` stands for a negative
return value. -/
def http2StreamFlushPendingSend (ctx : Http2Ctx) (p : StreamPtr) : Http2Ctx × Bool :=
  let s := ctx.heap p
  if !s.linked then (ctx, false)
  else
    match
      flushLoop (s.pendingSendBody.length - s.pendingSendBodyOffset) ctx p
    with
    | (ctx, false) => (ctx, false)
    | (ctx, true) => flushEnd ctx p

/-- The body of the loop of `_http2_ctx_flush_pending_send_bodies`. -/
def flushStream (ctx : Http2Ctx) (p : StreamPtr) : Http2Ctx :=
  if http2StreamHasPendingSend (ctx.heap p) then
    let (ctx, ok) := http2StreamFlushPendingSend ctx p
    if !ok && ctx.io.errno != .eagain then ctx
    else if !http2StreamHasPendingSend (ctx.heap p) &&
        (ctx.heap p).closeAfterSend then
      http2RemoveStream ctx p
    else ctx
  else ctx

/-- `_http2_ctx_flush_pending_send_bodies`.  The loop may remove the stream it
is at, and no other. -/
def http2CtxFlushPendingSendBodies (ctx : Http2Ctx) : Http2Ctx :=
  ctx.streams.foldl flushStream ctx

end SmartDns.Http2
