import SmartDns.Http2.Streams

/-!
# Frame processing

The receiving half of `http_parse/http2.c`: what `_http2_process_frames` does
with one complete frame.  A handler returns the new context and whether its
return value was non-negative.
-/

namespace SmartDns.Http2

open Hpack

/-- `strcasecmp(…) == 0`. -/
def strcaseeq (s t : Bytes) : Bool :=
  s.map toLower == t.map toLower

/--
`_http2_stream_get_header_value`.  The hash chain holds the newest field
first; names are compared up to 128 characters.
-/
def http2StreamGetHeaderValue (s : Http2Stream) (name : String) : Option CStr :=
  (s.headerList.reverse.find? fun field =>
    strcaseeq (field.1.bytes.take 128) (ascii name)).map Prod.snd

/-- `isspace` in the C locale. -/
def isSpace (b : UInt8) : Bool :=
  b == 32 || (9 ≤ b && b ≤ 13)

def isDigit (b : UInt8) : Bool :=
  48 ≤ b && b ≤ 57

/-- The number written by a list of digits. -/
def digitsValue (digits : Bytes) : Nat :=
  digits.foldl (fun n b => 10 * n + (b.toNat - 48)) 0

/--
`strtol` with base 10 on a text it consumes to the end: `none` when there is
no number or something follows it.  A value outside `long` is returned as it
is, since the caller refuses it in either case.
-/
def strtolAll (text : Bytes) : Option Int :=
  let text := text.dropWhile isSpace
  let negative := text.head? == some 45
  let digits :=
    if negative || text.head? == some 43 then text.drop 1 else text
  if digits ≠ [] ∧ digits.all isDigit then
    some (if negative then -(digitsValue digits) else digitsValue digits)
  else none

/--
`_http2_get_content_length`: `none` is the return value -1, `some none` that
no length is given.
-/
def http2GetContentLength (s : Http2Stream) : Option (Option Nat) :=
  match http2StreamGetHeaderValue s "content-length" with
  | none => some none
  | some text =>
    match strtolAll text.bytes with
    | none => some none
    | some value => if value < 0 ∨ intMax < value then none else some value.toNat

/-- The test of `_http2_check_content_length`. -/
def contentLengthMismatch (s : Http2Stream) (bodyLen : Nat) (endStream : Bool) : Bool :=
  match http2GetContentLength s with
  | none => true
  | some none => false
  | some (some length) => length < bodyLen || (endStream && bodyLen != length)

section

variable (ctx : Http2Ctx)

/-- The conversion of a content length that is given clears `errno`. -/
def contentLengthErrno (p : StreamPtr) : Http2Ctx :=
  match http2StreamGetHeaderValue (ctx.heap p) "content-length" with
  | none => ctx
  | some text => if text.bytes = [] then ctx else ctx.setErrno .clear

/-- `_http2_check_content_length`; `true` when the stream was reset. -/
def http2CheckContentLength (p : StreamPtr) (streamId bodyLen : Nat)
    (endStream : Bool) : Http2Ctx × Bool :=
  let mismatch := contentLengthMismatch (ctx.heap p) bodyLen endStream
  let ctx := contentLengthErrno ctx p
  if mismatch then ((http2SendRstStream ctx streamId rstProtocolError).1, true)
  else (ctx, false)

/-- Send a RST_STREAM, set the status, and return -1. -/
def failStream (streamId errorCode : Nat) : Http2Ctx × Bool :=
  ((http2SendRstStream ctx streamId errorCode).1.setStatus errProtocol, false)

/-- Send a GOAWAY, set the status, and return -1. -/
def failConnection (errorCode : Nat) : Http2Ctx × Bool :=
  ((http2SendGoaway ctx 0 errorCode).1.setStatus errProtocol, false)

/--
The growth of `body_buffer`.  A buffer of size 0, which a body that inflates
to nothing leaves behind, would double for ever; that needs a DATA frame after
the end of the stream.
-/
def growBodyBuffer (size needed : Nat) : Option Nat :=
  if size < needed then
    match safeBufferSize size 2 with
    | none => none
    | some size => growLoop needed 32 size
  else some size

/-- The stream after END_STREAM was received in a DATA frame. -/
def dataEndStream (s : Http2Stream) : Http2Stream :=
  { s with
    endStreamReceived := true
    state :=
      match s.state with
      | .opened => .halfClosedRemote
      | .halfClosedLocal => .closed
      | state => state }

/-- The window updates at the end of `_http2_process_data_frame`. -/
def replenishWindows (p : StreamPtr) (streamId len : Nat) : Http2Ctx × Bool :=
  match http2SendWindowUpdate ctx 0 len with
  | (ctx, false) => (ctx, false)
  | (ctx, true) =>
    let ctx := { ctx with recvConnWindowSize := ctx.recvConnWindowSize + len }
    let s := ctx.heap p
    if !s.endStreamReceived && s.state != .closed then
      match http2SendWindowUpdate ctx streamId len with
      | (ctx, false) => ({ ctx with recvConnWindowSize := ctx.recvConnWindowSize - len }, false)
      | (ctx, true) =>
        (ctx.setStream p { ctx.heap p with
            recvWindowSize := (ctx.heap p).recvWindowSize + len }, true)
    else (ctx, true)

/-- The part of `_http2_process_data_frame` that takes the payload in. -/
def acceptData (p : StreamPtr) (streamId : Nat) (data : Bytes)
    (endStream : Bool) (bodyBufferSize : Nat) : Http2Ctx × Bool :=
  let s := ctx.heap p
  let s :=
    { s with
      bodyBuffer := s.bodyBuffer ++ data
      bodyBufferSize := bodyBufferSize
      recvWindowSize := s.recvWindowSize - data.length }
  let ctx :=
    { ctx with
      recvConnWindowSize := ctx.recvConnWindowSize - data.length }.setStream p
      (if endStream then dataEndStream s else s)
  if data.length = 0 then (ctx, true)
  else replenishWindows ctx p streamId data.length

def http2ProcessDataFrame (streamId : Nat) (data : Bytes) (flags : Nat) : Http2Ctx × Bool :=
  if streamId = 0 then failConnection ctx rstProtocolError
  else
    match http2FindStream ctx streamId with
    | none =>
      if http2StreamIdWasSeen ctx streamId then
        ((http2SendRstStream ctx streamId rstStreamClosed).1, true)
      else failStream ctx streamId rstProtocolError
    | some p =>
      let s := ctx.heap p
      if s.endStreamReceived || s.state == .halfClosedRemote ||
          s.state == .closed then
        let ctx := (http2SendRstStream ctx streamId rstStreamClosed).1
        if s.state == .closed && s.endStreamReadHandled then
          (ctx.modifyStream p http2MarkStreamReset, true)
        else (ctx.setStatus errProtocol, false)
      else if intMax - data.length < s.bodyBuffer.length then
        ((http2SendRstStream ctx streamId rstInternalError).1, false)
      else
        let bodyLen := s.bodyBuffer.length + data.length
        let endStream := hasFlag flags flagEndStream
        match http2CheckContentLength ctx p streamId bodyLen endStream with
        | (ctx, true) => (ctx.modifyStream p http2MarkStreamReset, true)
        | (ctx, false) =>
          if 1024 * 1024 < bodyLen then failStream ctx streamId rstInternalError
          else if s.recvWindowSize < data.length ∨
              ctx.recvConnWindowSize < data.length then
            failStream ctx streamId rstFlowControlError
          else
            match growBodyBuffer s.bodyBufferSize bodyLen with
            | none => ((http2SendRstStream ctx streamId rstInternalError).1, false)
            | some size => acceptData ctx p streamId data endStream size

def http2ClearContinuation : Http2Ctx :=
  { ctx with
    headerBlockBuffer := []
    continuationStreamId := 0
    continuationFlags := 0
    continuationActive := false
    continuationRefuseStream := false }

/--
The padding and priority fields of a HEADERS frame: the header block fragment,
or `none` when the frame is too short for them.
-/
def headersFragment (data : Bytes) (flags : Nat) : Option Bytes :=
  let padded :=
    if hasFlag flags flagPadded then
      match data with
      | [] => none
      | b :: data => some (b.toNat, data)
    else some (0, data)
  match padded with
  | none => none
  | some (padLen, data) =>
    if hasFlag flags flagPriority && data.length < 5 then none
    else
      let data := if hasFlag flags flagPriority then data.drop 5 else data
      if data.length < padLen then none
      else some (data.take (data.length - padLen))

/-- Where the headers of a block go: a stream of the connection, or the
temporary stream of a refused one. -/
inductive HeaderTarget
  | stream (p : StreamPtr)
  | tmp

def targetHeaders : HeaderTarget → List Header
  | .stream p => (ctx.heap p).headerList
  | .tmp => []

def setTargetHeaders (fields : List Header) :
    HeaderTarget → Http2Ctx
  | .stream p => ctx.setStream p { ctx.heap p with headerList := fields }
  | .tmp => ctx

/-- A stream that was idle is open once its headers arrived. -/
def headersOpen (s : Http2Stream) : Http2Stream :=
  { s with state := if s.state = .idle then .opened else s.state }

/-- The stream after END_STREAM was received with its headers. -/
def headersEndStream (s : Http2Stream) : Http2Stream :=
  { s with
    endStreamReceived := true
    state := if s.state = .opened then .halfClosedRemote else s.state }

/-- The end of `_http2_process_headers_frame`, for a stream that is kept. -/
def headersReceived (p : StreamPtr) (streamId headersFlags : Nat) : Http2Ctx × Bool :=
  let ctx := ctx.modifyStream p headersOpen
  if hasFlag headersFlags flagEndStream then
    let bodyLen := (ctx.heap p).bodyBuffer.length
    match http2CheckContentLength ctx p streamId bodyLen true with
    | (ctx, true) => (ctx.modifyStream p http2MarkStreamReset, true)
    | (ctx, false) => (ctx.modifyStream p headersEndStream, true)
  else (ctx, true)

/-- The call of the decoder on the complete header block, which is left out
for an empty block. -/
def runDecoder (target : HeaderTarget) : HpackDecode (List Header) :=
  if ctx.headerBlockBuffer = [] then ⟨ctx.decoder, targetHeaders ctx target, true⟩
  else
    hpackDecodeHeaders collectHeader ctx.decoder ctx.headerBlockBuffer
      (targetHeaders ctx target)

/-- The connection after the decoder ran. -/
def decoderRan (target : HeaderTarget) : Http2Ctx :=
  setTargetHeaders
    { ctx with
      decoder := (runDecoder ctx target).ctx
      decoded :=
        if ctx.headerBlockBuffer = [] then ctx.decoded
        else
          ctx.decoded ++ [ctx.headerBlockBuffer] }
    (runDecoder ctx target).acc target

/-- The header block is complete: run it through the decoder. -/
def decodeHeaderBlock (target : HeaderTarget) (refuse : Bool)
    (streamId headersFlags : Nat) : Http2Ctx × Bool :=
  let ok := (runDecoder ctx target).ok
  let ctx := decoderRan ctx target
  if !ok then
    let ctx := (http2SendRstStream ctx streamId rstCompressionError).1
    (http2ClearContinuation ctx, false)
  else
    let ctx := http2ClearContinuation ctx
    if refuse then ((http2SendRstStream ctx streamId rstRefusedStream).1, true)
    else
      match target with
      | .stream p => headersReceived ctx p streamId headersFlags
      | .tmp => (ctx, true)

/-- `_http2_process_headers_frame`, from the point where the target is known:
append the fragment, and decode the block when it is complete. -/
def appendHeaderBlock (target : HeaderTarget) (refuse : Bool)
    (streamId : Nat) (fragment : Bytes) (flags : Nat) (isContinuation : Bool) : Http2Ctx × Bool :=
  let ctx :=
    if isContinuation then ctx else setTargetHeaders ctx [] target
  if maxHeaderBlockSize < ctx.headerBlockBuffer.length + fragment.length then
    let ctx := (http2SendRstStream ctx streamId rstInternalError).1
    (http2ClearContinuation ctx, false)
  else
    let ctx :=
      { ctx with
        headerBlockBuffer := ctx.headerBlockBuffer ++ fragment }
    if !hasFlag flags flagEndHeaders then
      if isContinuation then (ctx, true)
      else
        ({ ctx with
            continuationStreamId := streamId
            continuationFlags := flags
            continuationActive := true
            continuationRefuseStream := refuse }, true)
    else
      decodeHeaderBlock ctx target refuse streamId
        (if isContinuation then ctx.continuationFlags else flags)

/-- `_http2_process_headers_frame`, from the lookup of the stream on. -/
def headersForStream (streamId : Nat) (fragment : Bytes) (flags : Nat)
    (isContinuation refuse : Bool) : Http2Ctx × Bool :=
  match http2FindStream ctx streamId with
  | none =>
    if isContinuation && !refuse then failConnection ctx rstProtocolError
    else
      let refuse :=
        refuse || (!isContinuation && 0 < ctx.maxConcurrentStreams &&
          ctx.maxConcurrentStreams ≤ ctx.activePeerStreams)
      if refuse then
        appendHeaderBlock ctx .tmp refuse streamId fragment flags
          isContinuation
      else
        match http2CreateStream ctx streamId with
        | (ctx, none) => (ctx, false)
        | (ctx, some p) =>
          appendHeaderBlock ctx (.stream p) refuse streamId fragment
            flags isContinuation
  | some p =>
    let s := ctx.heap p
    if s.endStreamReceived || s.state == .closed then
      let ctx := (http2SendRstStream ctx streamId rstStreamClosed).1
      if s.state == .closed && s.endStreamReadHandled then
        (ctx.modifyStream p http2MarkStreamReset, true)
      else (ctx.setStatus errProtocol, false)
    else
      appendHeaderBlock ctx (.stream p) refuse streamId fragment flags
        isContinuation

/-- `_http2_process_headers_frame` for a HEADERS frame. -/
def http2ProcessHeadersFrame (streamId : Nat) (data : Bytes) (flags : Nat) : Http2Ctx × Bool :=
  if streamId = 0 then failConnection ctx rstProtocolError
  else if ctx.continuationActive then failConnection ctx rstProtocolError
  else
    match headersFragment data flags with
    | none => (ctx, false)
    | some fragment => headersForStream ctx streamId fragment flags false false

/-- `_http2_process_headers_frame` for a CONTINUATION frame. -/
def http2ProcessContinuationFrame (streamId : Nat) (data : Bytes) (flags : Nat) : Http2Ctx × Bool :=
  if streamId = 0 then failConnection ctx rstProtocolError
  else if !ctx.continuationActive || ctx.continuationStreamId != streamId then
    failConnection ctx rstProtocolError
  else if hasFlag flags (0xFF - flagEndHeaders) then failConnection ctx rstProtocolError
  else
    headersForStream ctx streamId data flags true
      ctx.continuationRefuseStream

end

/-- The loop of the INITIAL_WINDOW_SIZE case over `ctx->streams`: it stops at
the first stream whose window would overflow. -/
def shiftWindows (delta : Int) :
    List StreamPtr → Http2Ctx → Http2Ctx × Bool
  | [], ctx => (ctx, true)
  | p :: rest, ctx =>
    let s := ctx.heap p
    if (0 < delta ∧ intMax - delta < s.sendWindowSize) ∨
        (delta < 0 ∧ s.sendWindowSize < intMin - delta) then
      failConnection ctx rstFlowControlError
    else
      shiftWindows delta rest
        (ctx.setStream p { s with sendWindowSize := s.sendWindowSize + delta })

/-- One turn of the loop of `_http2_process_settings_frame`. -/
def applySetting (ctx : Http2Ctx) (id value : Nat) : Http2Ctx × Bool :=
  if id = 0x01 then
    ({ ctx with
        encoder := hpackResizeDynamicTable ctx.encoder (min value hpackMaxDynamicTableSize) }, true)
  else if id = 0x02 then
    if 1 < value ∨ (!ctx.isClient ∧ value ≠ 0) then failConnection ctx rstProtocolError
    else (ctx, true)
  else if id = 0x03 then ({ ctx with peerMaxConcurrentStreams := value }, true)
  else if id = 0x04 then
    if intMax < value then failConnection ctx rstFlowControlError
    else
      shiftWindows (value - ctx.sendInitialWindowSize) ctx.streams
        { ctx with sendInitialWindowSize := value }
  else if id = 0x05 then
    if value < 16384 ∨ 16777215 < value then failConnection ctx rstProtocolError
    else ({ ctx with peerMaxFrameSize := value }, true)
  else if id = 0x06 then ({ ctx with peerMaxHeaderListSize := value }, true)
  else (ctx, true)

def settingsEntries : (payload : Bytes) → List (Nat × Nat)
  | b₀ :: b₁ :: b₂ :: b₃ :: b₄ :: b₅ :: rest =>
    (b₀.toNat <<< 8 ||| b₁.toNat, readUint32 [b₂, b₃, b₄, b₅]) ::
      settingsEntries rest
  | _ => []

/-- The loop of `_http2_process_settings_frame`. -/
def applySettings : List (Nat × Nat) → Http2Ctx → Http2Ctx × Bool
  | [], ctx => (ctx, true)
  | (id, value) :: rest, ctx =>
    match applySetting ctx id value with
    | (ctx, false) => (ctx, false)
    | (ctx, true) => applySettings rest ctx

variable (ctx : Http2Ctx)

def http2ProcessSettingsFrame (data : Bytes) (flags : Nat) : Http2Ctx × Bool :=
  if hasFlag flags flagAck then
    if data ≠ [] then failConnection ctx rstProtocolError
    else (ctx, true)
  else if data.length % 6 ≠ 0 then failConnection ctx rstProtocolError
  else
    match applySettings (settingsEntries data) ctx with
    | (ctx, false) => (ctx, false)
    | (ctx, true) => http2SendSettings { ctx with settingsReceived := true } true

/-- The increment that a WINDOW_UPDATE payload carries. -/
def windowIncrement (data : Bytes) : Nat :=
  readUint32 data &&& 0x7FFFFFFF

/-- The credit part of `_http2_process_window_update_frame`. -/
def creditWindow (streamId increment : Nat) : Http2Ctx × Bool :=
  if streamId = 0 then
    if intMax - increment < ctx.sendConnWindowSize then failConnection ctx rstFlowControlError
    else
      ({ ctx with sendConnWindowSize := ctx.sendConnWindowSize + increment }, true)
  else
    match http2FindStream ctx streamId with
    | none => (ctx, true)
    | some p =>
      let s := ctx.heap p
      if intMax - increment < s.sendWindowSize then
        ((http2SendRstStream ctx streamId rstFlowControlError).1, false)
      else
        (ctx.setStream p { s with sendWindowSize := s.sendWindowSize + increment }, true)

def http2ProcessWindowUpdateFrame (streamId : Nat) (data : Bytes) : Http2Ctx × Bool :=
  if data.length ≠ 4 then failConnection ctx rstProtocolError
  else if windowIncrement data = 0 then
    if streamId = 0 then failConnection ctx rstProtocolError
    else failStream ctx streamId rstProtocolError
  else
    match creditWindow ctx streamId (windowIncrement data) with
    | (ctx, false) => (ctx, false)
    | (ctx, true) => (http2CtxFlushPendingSendBodies ctx, true)

/-- The PING case of `_http2_process_frames`.  When the answer cannot be
sent, the loop stops without setting the status. -/
def processPing (f : Frame) : Http2Ctx :=
  if f.payload.length ≠ 8 ∨ f.streamId ≠ 0 then (failConnection ctx rstProtocolError).1
  else if hasFlag f.flags flagAck then ctx
  else (http2SendPong ctx f.payload).1

/-- The RST_STREAM case of `_http2_process_frames`. -/
def processRstStream (f : Frame) : Http2Ctx :=
  if f.payload.length ≠ 4 ∨ f.streamId = 0 then (failConnection ctx rstProtocolError).1
  else
    match http2FindStream ctx f.streamId with
    | none => ctx
    | some p => ctx.modifyStream p fun s => { s with state := .closed }

/-- The GOAWAY case of `_http2_process_frames`. -/
def processGoaway (f : Frame) : Http2Ctx :=
  ctx.setStatus (if f.payload.length < 8 then errProtocol else errEof)

/-- The check `frame_ret < 0` at the end of the loop. -/
def frameResult (r : Http2Ctx × Bool) : Http2Ctx :=
  if r.2 then r.1
  else if 0 ≤ r.1.status then r.1.setStatus errProtocol
  else r.1

/-- The switch of `_http2_process_frames` on the frame type. -/
def dispatchFrame (f : Frame) : Http2Ctx :=
  if f.type = frameData then frameResult (http2ProcessDataFrame ctx f.streamId f.payload f.flags)
  else if f.type = frameHeaders then
    frameResult (http2ProcessHeadersFrame ctx f.streamId f.payload f.flags)
  else if f.type = frameContinuation then
    frameResult
      (http2ProcessContinuationFrame ctx f.streamId f.payload f.flags)
  else if f.type = frameSettings then
    if f.streamId ≠ 0 then (failConnection ctx rstProtocolError).1
    else frameResult (http2ProcessSettingsFrame ctx f.payload f.flags)
  else if f.type = frameWindowUpdate then
    frameResult (http2ProcessWindowUpdateFrame ctx f.streamId f.payload)
  else if f.type = framePing then processPing ctx f
  else if f.type = frameRstStream then processRstStream ctx f
  else if f.type = frameGoaway then processGoaway ctx f
  else ctx

/--
`_http2_process_frames` on one complete frame.  `local_max_frame_size` is never
above the size of the read buffer.
-/
def http2ProcessFrame (f : Frame) : Http2Ctx :=
  if ctx.ioClosed then ctx
  else if ctx.localMaxFrameSize < f.payload.length ∨
      defaultMaxFrameSize < f.payload.length then
    ctx.setStatus errProtocol
  else if ctx.continuationActive && f.type != frameContinuation then
    (failConnection ctx rstProtocolError).1
  else dispatchFrame ctx f

end SmartDns.Http2
