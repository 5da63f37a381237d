import SmartDns.Http2.Api

/-!
# What an event can do

Every function of the connection is a sequence of few changes: a frame is handed
to the sender, a field is set, a stream is created, edited or removed.  `Change`
lists them, sorted by the part of the connection they touch, and `Event.kinds`
says which kinds an event may use.
-/

namespace SmartDns.Http2

open Hpack

/-- The part of the sending side that the body of a stream depends on. -/
structure BodyView where
  pendingSendBody : Bytes
  pendingSendBodySize : Nat
  pendingSendBodyOffset : Nat
  pendingSendEndStream : Bool
  endStreamSent : Bool

def Http2Stream.bodyView (s : Http2Stream) : BodyView where
  pendingSendBody := s.pendingSendBody
  pendingSendBodySize := s.pendingSendBodySize
  pendingSendBodyOffset := s.pendingSendBodyOffset
  pendingSendEndStream := s.pendingSendEndStream
  endStreamSent := s.endStreamSent

/-- The fields of a stream that sending reads and writes. -/
structure SendView extends BodyView where
  linked : Bool
  sendWindowSize : Int

def Http2Stream.sendView (s : Http2Stream) : SendView :=
  ⟨s.bodyView, s.linked, s.sendWindowSize⟩

def wireFrame (type flags streamId : Nat) (payload : Bytes) : Bytes :=
  http2WriteFrameHeader payload.length type flags streamId ++ payload

/-- What a SETTINGS frame that is not an acknowledgement carries. -/
def settingsPayload (isClient : Bool) (maxConcurrentStreams : Int) : Bytes :=
  (if isClient then settingEntry 0x02 0 else []) ++
    settingEntry 0x01 hpackMaxDynamicTableSize ++ settingEntry 0x04 65535 ++
    settingEntry 0x05 defaultMaxFrameSize ++
    (if 0 < maxConcurrentStreams then settingEntry 0x03 maxConcurrentStreams.toNat else [])

/-- The wire encoding of a frame of a connection with the given settings. -/
def SentFrame.wire (isClient : Bool) (maxConcurrentStreams : Int) : SentFrame → Bytes
  | .preface => ascii "PRI * HTTP/2.0\r\n\r\nSM\r\n\r\n"
  | .settings ack =>
    wireFrame frameSettings (if ack then flagAck else 0) 0
      (if ack then [] else settingsPayload isClient maxConcurrentStreams)
  | .windowUpdate streamId increment =>
    wireFrame frameWindowUpdate 0 streamId (writeUint32 (increment &&& 0x7FFFFFFF))
  | .goaway errorCode => wireFrame frameGoaway 0 0 (writeUint32 0 ++ writeUint32 errorCode)
  | .data _ streamId payload endStream =>
    wireFrame frameData (if endStream then flagEndStream else 0) streamId payload
  | .headers streamId block endStream =>
    wireFrame frameHeaders ((if endStream then flagEndStream else 0) ||| flagEndHeaders)
      streamId block
  | .rstStream streamId errorCode => wireFrame frameRstStream 0 streamId (writeUint32 errorCode)
  | .ping payload => wireFrame framePing flagAck 0 payload

/-- A frame of fixed size that grants nothing. -/
def SentFrame.isControl : SentFrame → Bool
  | .preface | .settings _ | .goaway _ | .rstStream _ _ | .ping _ => true
  | _ => false

/-- The part of the connection that a change touches. -/
inductive Kind
  | plain
  | recvWindow
  | headerBlock
  | encoder
  | grant
  | body (p : StreamPtr)
  | create
  | remove

/-- The changes that the functions of a connection are made of. -/
inductive Change (ctx : Http2Ctx) : Kind → Http2Ctx → Prop
  | errno (errno : Errno) :
      Change ctx .plain (ctx.setErrno errno)
  | status {status : Int} (hneg : status < 0) :
      Change ctx .plain (ctx.setStatus status)
  | control (bytes : Bytes) {frame : SentFrame} (hframe : frame.isControl = true)
      (hbytes : bytes = frame.wire ctx.isClient ctx.maxConcurrentStreams) :
      Change ctx .plain (sendRecorded ctx bytes frame).1
  | headers (streamId : Nat) (fields : List Header) (endStream : Bool) :
      Change ctx .encoder (http2SendHeadersFrame ctx streamId fields endStream).1
  | stream (p : StreamPtr) {s : Http2Stream} (hview : s.sendView = (ctx.heap p).sendView)
      (hid : s.streamId = (ctx.heap p).streamId) :
      Change ctx .plain (ctx.setStream p s)
  | flushWrites :
      Change ctx .plain { ctx with io := (http2SendFrame ctx.io []).1 }
  | disconnect :
      Change ctx .plain (http2CtxDisconnect ctx)
  | nextStreamId :
      Change ctx .plain { ctx with nextStreamId := ctx.nextStreamId + 2 }
  | settingsReceived :
      Change ctx .plain { ctx with settingsReceived := true }
  | encoder (value : Nat) :
      Change ctx .encoder
        { ctx with
          encoder := hpackResizeDynamicTable ctx.encoder (min value hpackMaxDynamicTableSize) }
  | peerMaxConcurrentStreams (value : Nat) :
      Change ctx .plain { ctx with peerMaxConcurrentStreams := value }
  | peerMaxHeaderListSize (value : Nat) :
      Change ctx .plain { ctx with peerMaxHeaderListSize := value }
  | windowUpdate (streamId increment : Nat) :
      Change ctx .recvWindow (http2SendWindowUpdate ctx streamId increment).1
  | recvWindow (size : Int) :
      Change ctx .recvWindow { ctx with recvConnWindowSize := size }
  | decoder (decoder : HpackContext) (decoded : List Bytes) :
      Change ctx .headerBlock { ctx with decoder := decoder, decoded := decoded }
  | headerBlock (block : Bytes) :
      Change ctx .headerBlock { ctx with headerBlockBuffer := block }
  | continuation (streamId flags : Nat) (active refuse : Bool) :
      Change ctx .headerBlock
        { ctx with
          continuationStreamId := streamId
          continuationFlags := flags
          continuationActive := active
          continuationRefuseStream := refuse }
  | connWindow (size : Int) :
      Change ctx .grant { ctx with sendConnWindowSize := size }
  | initialWindow (size : Int) :
      Change ctx .grant { ctx with sendInitialWindowSize := size }
  | maxFrame {size : Nat} (hsize : defaultMaxFrameSize ≤ size) :
      Change ctx .grant { ctx with peerMaxFrameSize := size }
  | streamWindow (p : StreamPtr) (size : Int) :
      Change ctx .grant (ctx.setStream p { ctx.heap p with sendWindowSize := size })
  | data (p : StreamPtr) (streamId : Nat) {payload : Bytes} (endStream : Bool)
      (hfits : payload.length ≤ ctx.peerMaxFrameSize) :
      Change ctx (.body p) (http2SendDataFrame ctx p streamId payload endStream).1
  | bodyWindow (p : StreamPtr) (size : Int) :
      Change ctx (.body p) { ctx with sendConnWindowSize := size }
  | bodyStream (p : StreamPtr) {s : Http2Stream} (hlinked : s.linked = (ctx.heap p).linked)
      (hid : s.streamId = (ctx.heap p).streamId) :
      Change ctx (.body p) (ctx.setStream p s)
  | create (streamId : Nat) :
      Change ctx .create (http2CreateStream ctx streamId).1
  | remove (p : StreamPtr) :
      Change ctx .remove (http2RemoveStream ctx p)
  | collect (room : Nat) (checkWritable : Bool) :
      Change ctx .remove (http2CtxCollectReadyStreams ctx room checkWritable)

inductive Changes (K : List Kind) : Http2Ctx → Http2Ctx → Prop
  | refl (ctx : Http2Ctx) : Changes K ctx ctx
  | cons {ctx ctx₁ ctx₂ : Http2Ctx} {k : Kind} (hk : k ∈ K) (h : Change ctx k ctx₁)
      (hrest : Changes K ctx₁ ctx₂) : Changes K ctx ctx₂

namespace Changes

variable {K K' : List Kind} {ctx ctx₁ ctx₂ : Http2Ctx}

theorem one {k : Kind} (h : Change ctx k ctx₁) (hk : k ∈ K) : Changes K ctx ctx₁ :=
  .cons hk h (.refl _)

theorem trans (h₁ : Changes K ctx ctx₁) (h₂ : Changes K ctx₁ ctx₂) : Changes K ctx ctx₂ := by
  induction h₁ with
  | refl ctx => exact h₂
  | cons hk h _ ih => exact .cons hk h (ih h₂)

theorem mono (hK : ∀ k ∈ K, k ∈ K') (h : Changes K ctx ctx₁) : Changes K' ctx ctx₁ := by
  induction h with
  | refl ctx => exact .refl ctx
  | cons hk h _ ih => exact .cons (hK _ hk) h ih

/-- A relation that every single change has holds along a sequence. -/
theorem related {R : Http2Ctx → Http2Ctx → Prop} (hrefl : ∀ ctx, R ctx ctx)
    (htrans : ∀ {ctx ctx₁ ctx₂}, R ctx ctx₁ → R ctx₁ ctx₂ → R ctx ctx₂)
    (hchange : ∀ {ctx ctx₁ k}, k ∈ K → Change ctx k ctx₁ → R ctx ctx₁) (h : Changes K ctx ctx₁) :
    R ctx ctx₁ := by
  induction h with
  | refl ctx => exact hrefl ctx
  | cons hk h _ ih => exact htrans (hchange hk h) ih

/-- A property that every single change preserves holds behind a sequence. -/
theorem preserves
    {P : Http2Ctx → Prop} (hchange : ∀ {ctx ctx₁ k}, k ∈ K → Change ctx k ctx₁ → P ctx → P ctx₁)
    (h : Changes K ctx ctx₁) (hctx : P ctx) :
    P ctx₁ := by
  induction h with
  | refl ctx => exact hctx
  | cons hk h _ ih => exact ih (hchange hk h hctx)

end Changes

theorem Kind.plain_only : Kind.plain ∈ [Kind.plain] :=
  List.mem_singleton_self _

/-- The kinds of change that a frame may make. -/
def Frame.kinds (streams : List StreamPtr) (f : Frame) : List Kind :=
  if f.type = frameData then [.plain, .recvWindow]
  else if f.type = frameHeaders ∨ f.type = frameContinuation then [.plain, .headerBlock, .create]
  else if f.type = frameSettings then
    .plain :: .grant :: (settingsEntries f.payload).filterMap fun entry =>
      if entry.1 = 1 then some .encoder else none
  else if f.type = frameWindowUpdate then .plain :: .grant :: .remove :: streams.map .body
  else [.plain]

/-- The kinds of change that an event may make. -/
def Event.kinds (ctx : Http2Ctx) : Event → List Kind
  | .recvFrame f => f.kinds ctx.streams
  | .flushBodies => .plain :: .remove :: ctx.streams.map .body
  | .collectReady _ _ => [.remove]
  | .streamNew => [.plain, .create]
  | .setRequest p _ _ _ _ => [.plain, .encoder, .body p]
  | .setResponse _ _ _ => [.plain, .encoder]
  | .writeBody p _ _ => [.plain, .body p]
  | .close p => [.plain, .body p, .remove]
  | _ => [.plain]

end SmartDns.Http2
