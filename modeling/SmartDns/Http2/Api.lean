import SmartDns.Http2.Recv
import SmartDns.Lib.Runs

/-!
# The connection as a system

The public functions of `http_parse/http2.c` that change a connection, and the
system they form together with the frames that arrive: `Event` is one call or
one frame, `step` its effect.
-/

namespace SmartDns.Http2

open Hpack

/-- `_http2_ctx_init_common`, over a transport tape.  The field
`max_concurrent_streams` is the one of the settings that the code reads. -/
def http2CtxInitCommon (isClient : Bool) (server : CStr) (maxConcurrentStreams : Int)
    (bio : List BioWrite) : Http2Ctx where
  isClient := isClient
  server := server
  io := { bio := bio }
  nextStreamId := if isClient then 1 else 2
  maxConcurrentStreams := maxConcurrentStreams
  encoder :=
    { hpackInitContext with maxDynamicTableSize := initialHeaderTableSize }
  decoder := hpackInitContext

/-- `http2_ctx_new`: a client starts with the connection preface, and both
sides with their settings. -/
def http2CtxNew (isClient : Bool) (server : CStr) (maxConcurrentStreams : Int)
    (bio : List BioWrite) : Http2Ctx :=
  let ctx := http2CtxInitCommon isClient server maxConcurrentStreams bio
  let ctx :=
    if isClient then
      (sendRecorded ctx (ascii "PRI * HTTP/2.0\r\n\r\nSM\r\n\r\n")
        .preface).1
    else ctx
  (http2SendSettings ctx false).1

/-- A client whose transport never takes a byte. -/
def blockedClient : Http2Ctx :=
  http2CtxNew true (CStr.ofString "dns") 0 []

def http2StreamNew (ctx : Http2Ctx) : Http2Ctx × Option StreamPtr :=
  if ctx.status < 0 then (ctx.setErrno .econnreset, none)
  else if maxStreamId < ctx.nextStreamId then (ctx.setErrno .eoverflow, none)
  else
    http2CreateStream { ctx with nextStreamId := ctx.nextStreamId + 2 }
      ctx.nextStreamId

/-- A caller's header array entry; a null value skips the entry. -/
abbrev HeaderPair := CStr × Option CStr

/-- The choice of the `:authority` value in `http2_stream_set_request`. -/
def requestAuthority : (authority : CStr) → List HeaderPair → CStr
  | authority, [] => authority
  | authority, (_, none) :: rest => requestAuthority authority rest
  | authority, (name, some value) :: rest =>
    if name.bytes = ascii ":authority" then value
    else if strcaseeq name.bytes (ascii "host") then requestAuthority value rest
    else requestAuthority authority rest

/-- The header list that `http2_stream_set_request` builds. -/
def requestHeaders (ctx : Http2Ctx) (method path : CStr) (scheme : Option CStr)
    (headers : List HeaderPair) : List Header :=
  [(.ofString ":method", method), (.ofString ":path", path),
    (.ofString ":scheme", scheme.getD (.ofString "https")),
    (.ofString ":authority", requestAuthority ctx.server headers)] ++
    headers.filterMap fun (name, value) =>
      value.bind fun value =>
        if name.bytes = ascii ":authority" ∨
            strcaseeq name.bytes (ascii "host") then
          none
        else some (name, value)

/-- `http2_stream_set_request`; the result tells whether it returned 0. -/
def http2StreamSetRequest (ctx : Http2Ctx) (p : StreamPtr) (method path : CStr)
    (scheme : Option CStr) (headers : List HeaderPair) : Http2Ctx × Bool :=
  if !(ctx.heap p).linked then (ctx, false)
  else
    let fields := requestHeaders ctx method path scheme headers
    let ctx := ctx.modifyStream p fun s => { s with headerList := fields }
    let endStream := method.bytes = ascii "GET" || method.bytes = ascii "HEAD"
    let r := http2SendHeadersFrame ctx (ctx.heap p).streamId fields endStream
    (r.1.modifyStream p fun s =>
      { s with
        endStreamSent := s.endStreamSent || endStream
        state := if s.state = .idle then .opened else s.state },
      r.2)

/-- The decimal text of a three-digit number. -/
def statusText (status : Nat) : CStr :=
  .ofBuffer
    [UInt8.ofNat (48 + status / 100), UInt8.ofNat (48 + status / 10 % 10),
      UInt8.ofNat (48 + status % 10)]

/-- The header list that `http2_stream_set_response` builds. -/
def responseHeaders (status : Nat) (headers : List HeaderPair) : List Header :=
  (.ofString ":status", statusText status) ::
    headers.filterMap fun (name, value) => value.map (name, ·)

def http2StreamSetResponse (ctx : Http2Ctx) (p : StreamPtr) (status : Nat)
    (headers : List HeaderPair) : Http2Ctx × Bool :=
  if status < 100 ∨ 599 < status ∨ !(ctx.heap p).linked then (ctx, false)
  else
    let fields := responseHeaders status headers
    let ctx := ctx.modifyStream p fun s => { s with headerList := fields }
    http2SendHeadersFrame ctx (ctx.heap p).streamId fields false

/-- Queue the rest of a body, and report it as accepted. -/
def queueRest (ctx : Http2Ctx) (p : StreamPtr) (rest : Bytes) (endStream : Bool)
    (totalSent : Nat) : Http2Ctx × Int :=
  match http2StreamQueueSendBody ctx p rest endStream with
  | (ctx, false) => (ctx, -1)
  | (ctx, true) => (ctx, totalSent + rest.length)

/--
The loop `while (len > 0)` of `http2_stream_write_body`.  Every turn sends at
least one byte, so the length of the body is enough fuel.
-/
def writeBodyLoop :
    (fuel : Nat) → Http2Ctx → StreamPtr → (rest : Bytes) →
      (endStream : Bool) → (totalSent : Nat) → Http2Ctx × Int
  | 0, ctx, _, _, _, totalSent => (ctx, totalSent)
  | fuel + 1, ctx, p, rest, endStream, totalSent =>
    let s := ctx.heap p
    if rest = [] then (ctx, totalSent)
    else if s.endStreamSent then (ctx.setErrno .epipe, -1)
    else
      let n := toSend ctx s rest.length
      if windowsClosed ctx s || n == 0 then queueRest ctx p rest endStream totalSent
      else
        let isEnd := endStream && n == rest.length
        match http2SendDataFrame ctx p s.streamId (rest.take n) isEnd with
        | (ctx, false) =>
          if ctx.io.errno = .eagain then queueRest ctx p rest endStream totalSent
          else (ctx, -1)
        | (ctx, true) =>
          writeBodyLoop fuel (spendWindow ctx p n isEnd) p (rest.drop n)
            endStream (totalSent + n)

variable (ctx : Http2Ctx)

/-- `http2_stream_write_body` on a stream with queued data. -/
def writeBodyQueued (p : StreamPtr) (data : Bytes) (endStream : Bool) : Http2Ctx × Int :=
  match http2StreamQueueSendBody ctx p data endStream with
  | (ctx, false) => (ctx, -1)
  | (ctx, true) =>
    let (ctx, ok) := http2StreamFlushPendingSend ctx p
    if !ok && ctx.io.errno != .eagain then (ctx, -1)
    else (ctx, data.length)

/-- `http2_stream_write_body` for an empty body with the end flag. -/
def writeBodyEnd (p : StreamPtr) : Http2Ctx × Int :=
  if (ctx.heap p).endStreamSent then (ctx, 0)
  else
    match http2SendDataFrame ctx p (ctx.heap p).streamId [] true with
    | (ctx, false) => (ctx, -1)
    | (ctx, true) => (ctx.modifyStream p http2StreamMarkEndSent, 0)

/-- `http2_stream_write_body`, with its return value. -/
def http2StreamWriteBody (p : StreamPtr) (data : Bytes) (endStream : Bool) : Http2Ctx × Int :=
  if data = [] ∧ !endStream then (ctx, -1)
  else if !(ctx.heap p).linked then (ctx, -1)
  else if ctx.status < 0 then (ctx.setErrno .econnreset, -1)
  else if http2StreamHasPendingSend (ctx.heap p) then writeBodyQueued ctx p data endStream
  else if data = [] then writeBodyEnd ctx p
  else writeBodyLoop data.length ctx p data endStream 0

/-- The encodings that `http2_try_decompress_body` knows. -/
def compressedBody (s : Http2Stream) : Bool :=
  match http2StreamGetHeaderValue s "content-encoding" with
  | none => false
  | some text =>
    strcaseeq text.bytes (ascii "gzip") ||
      strcaseeq text.bytes (ascii "deflate")

/-- `stream->ctx == NULL || stream->ctx->status < 0`. -/
def connectionLost (s : Http2Stream) : Bool :=
  !s.linked || ctx.status < 0

/--
`http2_try_decompress_body`; `none` is the return value -1.  `inflated` is the
answer of the decompressor, `none` when it fails.
-/
def http2TryDecompressBody (s : Http2Stream) (inflated : Option Bytes) : Option Http2Stream :=
  if s.bodyDecompressed || s.bodyBuffer.isEmpty then some s
  else if !s.endStreamReceived && !connectionLost ctx s then some s
  else if compressedBody s then
    inflated.map fun body =>
      { s with
        bodyBuffer := body
        bodyBufferSize := body.length
        bodyDecompressed := true }
  else some s

/-- The stream part of `http2_stream_read_body`, for a request of `len`
bytes: the new stream and the bytes returned, or the error. -/
def readBody (s : Http2Stream) (len : Nat)
    (inflated : Option Bytes) : Http2Stream × Except Errno Bytes :=
  match http2TryDecompressBody ctx s inflated with
  | none =>
    ({ s with
        endStreamReadHandled := true
        bodyReadOffset := s.bodyBuffer.length },
      .error .einval)
  | some s =>
    if compressedBody s && !s.bodyDecompressed && !s.endStreamReceived &&
        (!s.linked || 0 ≤ ctx.status) then
      (s, .error .eagain)
    else if s.bodyBuffer.length ≤ s.bodyReadOffset then
      if s.endStreamReceived || s.state == .closed ||
          connectionLost ctx s then
        ({ s with endStreamReadHandled := true }, .ok [])
      else (s, .error .eagain)
    else
      let out := (s.bodyBuffer.drop s.bodyReadOffset).take len
      let offset := s.bodyReadOffset + out.length
      ({ s with
          bodyReadOffset := offset
          endStreamReadHandled := s.endStreamReadHandled ||
            ((s.endStreamReceived || s.state == .closed) &&
              s.bodyBuffer.length ≤ offset) },
        .ok out)

def http2StreamReadBody (p : StreamPtr) (len : Nat)
    (inflated : Option Bytes) : Http2Ctx × Except Errno Bytes :=
  if len = 0 then (ctx, .error ctx.io.errno)
  else
    match readBody ctx (ctx.heap p) len inflated with
    | (s, .error errno) => ((ctx.setStream p s).setErrno errno, .error errno)
    | (s, .ok out) => (ctx.setStream p s, .ok out)

/-- `http2_stream_close` on a stream without queued data. -/
def closeNow (p : StreamPtr) : Http2Ctx :=
  let ctx := ctx.modifyStream p fun s => { s with state := .closed }
  let s := ctx.heap p
  let ctx :=
    if 0 ≤ ctx.status ∧ !(s.endStreamSent && s.endStreamReceived) then
      (http2SendRstStream ctx s.streamId rstNoError).1
    else ctx
  http2RemoveStream ctx p

def http2StreamClose (p : StreamPtr) : Http2Ctx :=
  if !(ctx.heap p).linked then ctx
  else if http2StreamHasPendingSend (ctx.heap p) then
    let ctx := ctx.modifyStream p fun s => { s with closeAfterSend := true }
    let (ctx, ok) := http2StreamFlushPendingSend ctx p
    let ctx :=
      if !ok && ctx.io.errno != .eagain then ctx.modifyStream p fun s => { s with state := .closed }
      else ctx
    if http2StreamHasPendingSend (ctx.heap p) then ctx else closeNow ctx p
  else closeNow ctx p

def http2CtxDisconnect : Http2Ctx :=
  { ctx with
    ioClosed := true
    io :=
      { ctx.io with
        status := if 0 ≤ ctx.status then errEof else ctx.status
        wantWrite := false } }

/-- `http2_ctx_close`, and the last `http2_ctx_put`: the streams that are left
go.  What is freed with them is not modelled. -/
def http2CtxClose : Http2Ctx :=
  ctx.streams.foldl http2RemoveStream ctx

/-- The flush of the pending writes before frames are processed. -/
def flushWrites : Http2Ctx :=
  if ctx.io.pendingWriteBuffer = [] then ctx
  else { ctx with io := (http2SendFrame ctx.io []).1 }

def http2StreamIsAcceptReady (s : Http2Stream) : Bool :=
  (if ctx.isClient then s.streamId % 2 == 0 else s.streamId % 2 == 1) &&
    !s.accepted && !s.headerList.isEmpty && !s.endStreamSent &&
    !(s.state == .closed && s.endStreamReadHandled &&
      s.bodyBuffer.length ≤ s.bodyReadOffset)

/-- The search of `http2_ctx_accept_stream`. -/
def acceptStream : Http2Ctx :=
  match
    ctx.streams.find? fun p => http2StreamIsAcceptReady ctx (ctx.heap p)
  with
  | none => ctx
  | some p => ctx.modifyStream p fun s => { s with accepted := true }

/-- A stream that `_http2_ctx_collect_ready_streams` reports. -/
def streamReady (checkWritable : Bool) (s : Http2Stream) : Bool :=
  s.accepted &&
    (s.bodyReadOffset < s.bodyBuffer.length ||
      ((s.endStreamReceived || s.state == .closed) &&
        !s.endStreamReadHandled) ||
      (checkWritable &&
        (s.state == .opened || s.state == .halfClosedRemote)))

/-- `_http2_ctx_collect_ready_streams`: the first `room` ready streams move to
the end of the list. -/
def http2CtxCollectReadyStreams (room : Nat) (checkWritable : Bool) : Http2Ctx :=
  let ready :=
    (ctx.streams.filter fun p => streamReady checkWritable (ctx.heap p)).take
      room
  { ctx with streams := ctx.streams.filter (· ∉ ready) ++ ready }

/-- One call of the public interface, or one frame that arrives. -/
inductive Event
  | recvFrame (f : Frame)
  | flushWrites
  | flushBodies
  | collectReady (room : Nat) (checkWritable : Bool)
  | acceptStream
  | streamNew
  | setRequest
      (p : StreamPtr) (method path : CStr) (scheme : Option CStr)
      (headers : List HeaderPair)
  | setResponse (p : StreamPtr) (status : Nat) (headers : List HeaderPair)
  | writeBody (p : StreamPtr) (data : Bytes) (endStream : Bool)
  | readBody (p : StreamPtr) (len : Nat) (inflated : Option Bytes)
  | close (p : StreamPtr)
  | disconnect

def step : Event → Http2Ctx
  | .recvFrame f => http2ProcessFrame ctx f
  | .flushWrites => flushWrites ctx
  | .flushBodies => http2CtxFlushPendingSendBodies ctx
  | .collectReady room checkWritable => http2CtxCollectReadyStreams ctx room checkWritable
  | .acceptStream => acceptStream ctx
  | .streamNew => (http2StreamNew ctx).1
  | .setRequest p method path scheme headers =>
    (http2StreamSetRequest ctx p method path scheme headers).1
  | .setResponse p status headers => (http2StreamSetResponse ctx p status headers).1
  | .writeBody p data endStream => (http2StreamWriteBody ctx p data endStream).1
  | .readBody p len inflated => (http2StreamReadBody ctx p len inflated).1
  | .close p => http2StreamClose ctx p
  | .disconnect => http2CtxDisconnect ctx

end SmartDns.Http2
