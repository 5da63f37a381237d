import SmartDns.Http2.Api

/-!
# The read buffer

`_http2_process_frames` with the read buffer that it keeps between two calls.
It reads no more than the frame under assembly needs, handles the frame when it
is complete, and takes it out of the buffer when its handler succeeded.

The transport is a tape of answers to `bio_read`; an empty one answers `EAGAIN`.
-/

namespace SmartDns.Http2

open Hpack

/-- `HTTP2_ERR_EAGAIN`. -/
def errEagain : Int := -1

/-- `HTTP2_ERR_HTTP1`. -/
def errHttp1 : Int := -5

/-- `HTTP2_FRAME_HEADER_SIZE`. -/
def frameHeaderSize : Nat := 9

/-- `HTTP2_CONNECTION_PREFACE`. -/
def connectionPreface : Bytes :=
  ascii "PRI * HTTP/2.0\r\n\r\nSM\r\n\r\n"

/-- `HTTP2_CONNECTION_PREFACE_LEN`. -/
def connectionPrefaceLen : Nat := 24

/-- One answer of `bio_read`: bytes that have arrived, none of them at the end
of the stream, `EAGAIN`, or another error.  A read that asks for less leaves the
rest of the bytes to the next one. -/
inductive BioRead
  | data (bytes : Bytes)
  | again
  | error
deriving DecidableEq

/-- The answer of `bio_read` to a request for `n` bytes, and the tape after it. -/
def bioRead : List BioRead → (n : Nat) → BioRead × List BioRead
  | [], _ => (.again, [])
  | .again :: bio, _ => (.again, bio)
  | .error :: bio, _ => (.error, bio)
  | .data bytes :: bio, n =>
    if bytes.length ≤ n then (.data bytes, bio)
    else (.data (bytes.take n), .data (bytes.drop n) :: bio)

/-- A connection with the state of its reading side. -/
structure Http2Conn where
  ctx : Http2Ctx
  /-- The first `read_buffer_len` bytes of `read_buffer`. -/
  readBuffer : Bytes := []
  prefaceReceived : Bool := false
  wantRead : Bool := false
  bio : List BioRead := []

section

variable (conn : Http2Conn)

/--
The part that the preface and the two halves of a frame share: read until the
buffer holds `needed` bytes.  The result is a return value of the caller, which
is `short` when some bytes are still missing, or `none` to go on.
-/
def fillBuffer (needed : Nat) (short : Int) : Http2Conn × Option Int :=
  if conn.readBuffer.length < needed then
    match bioRead conn.bio (needed - conn.readBuffer.length) with
    | (.again, bio) =>
      ({ conn with bio := bio, wantRead := true, ctx := conn.ctx.setErrno .eagain }, some errEagain)
    | (.error, bio) =>
      ({ conn with bio := bio, ctx := (conn.ctx.setErrno .eio).setStatus errIo }, some errIo)
    | (.data [], bio) => ({ conn with bio := bio, ctx := conn.ctx.setStatus errEof }, some errEof)
    | (.data bytes, bio) =>
      let conn := { conn with bio := bio, readBuffer := conn.readBuffer ++ bytes }
      if conn.readBuffer.length < needed then ({ conn with wantRead := true }, some short)
      else (conn, none)
  else (conn, none)

/-- A buffer that starts like a request of HTTP/1.1. -/
def looksLikeHttp1 (buffer : Bytes) : Bool :=
  ["GET ", "POST ", "HEAD ", "PUT ", "DELETE ", "OPTIONS ", "PATCH ", "CONNECT ",
    "TRACE "].any fun method => (ascii method).isPrefixOf buffer

/-- `http2_verify_connection_preface`; `none` is the return value 0. -/
def http2VerifyConnectionPreface : Http2Conn × Option Int :=
  if conn.ctx.isClient || conn.prefaceReceived then (conn, none)
  else
    match fillBuffer conn connectionPrefaceLen errEagain with
    | (conn, some ret) => (conn, some ret)
    | (conn, none) =>
      if conn.readBuffer.take connectionPrefaceLen ≠ connectionPreface then
        let status := if looksLikeHttp1 conn.readBuffer then errHttp1 else errProtocol
        ({ conn with ctx := conn.ctx.setStatus status }, some status)
      else
        ({ conn with
            readBuffer := conn.readBuffer.drop connectionPrefaceLen
            prefaceReceived := true }, none)

def readUint24 (data : Bytes) : Nat :=
  (data.getD 0 0).toNat <<< 16 ||| (data.getD 1 0).toNat <<< 8 ||| (data.getD 2 0).toNat

/-- The length field of the frame at the start of the buffer. -/
def frameLength (buffer : Bytes) : Nat :=
  readUint24 buffer

theorem getD_take
    {bytes : Bytes} {i n : Nat} (hi : i < n) : (bytes.take n).getD i 0 = bytes.getD i 0 := by
  simp only [List.getD_eq_getElem?_getD, List.getElem?_take_of_lt hi]

theorem frameLength_take {bytes : Bytes} {n : Nat} (hn : frameHeaderSize ≤ n) :
    frameLength (bytes.take n) = frameLength bytes := by
  simp only [frameHeaderSize] at hn
  simp only [frameLength, readUint24, getD_take (show 0 < n by omega),
    getD_take (show 1 < n by omega), getD_take (show 2 < n by omega)]

/-- The frame at the start of the buffer, once it is complete. -/
def frameAt (buffer : Bytes) : Frame where
  type := (buffer.getD 3 0).toNat
  flags := (buffer.getD 4 0).toNat
  streamId := readUint32 (buffer.drop 5) &&& 0x7FFFFFFF
  payload := (buffer.drop frameHeaderSize).take (frameLength buffer)

/-- The check `frame_ret < 0`: the loop ends with the status. -/
def frameReturn (r : Http2Ctx × Bool) : Option Int :=
  if r.2 then none else some (frameResult r).status

/-- How the switch of `_http2_process_frames` ends the call, or `none` when the
loop goes on. -/
def dispatchReturn (ctx : Http2Ctx) (f : Frame) : Option Int :=
  if f.type = frameData then frameReturn (http2ProcessDataFrame ctx f.streamId f.payload f.flags)
  else if f.type = frameHeaders then
    frameReturn (http2ProcessHeadersFrame ctx f.streamId f.payload f.flags)
  else if f.type = frameContinuation then
    frameReturn (http2ProcessContinuationFrame ctx f.streamId f.payload f.flags)
  else if f.type = frameSettings then
    if f.streamId ≠ 0 then some errProtocol
    else frameReturn (http2ProcessSettingsFrame ctx f.payload f.flags)
  else if f.type = frameWindowUpdate then
    frameReturn (http2ProcessWindowUpdateFrame ctx f.streamId f.payload)
  else if f.type = framePing then
    if f.payload.length ≠ 8 ∨ f.streamId ≠ 0 then some errProtocol
    else if hasFlag f.flags flagAck then none
    else
      let r := http2SendPong ctx f.payload
      if r.2 then none else some (if r.1.status < 0 then r.1.status else errIo)
  else if f.type = frameRstStream then
    if f.payload.length ≠ 4 ∨ f.streamId = 0 then some errProtocol else none
  else if f.type = frameGoaway then
    if f.payload.length < 8 then some (-1) else none
  else none

/-- What is checked of a frame before its payload is read; the connection fails
when the result is `some`. -/
def headerRefused (ctx : Http2Ctx) (buffer : Bytes) : Option Http2Ctx :=
  if ctx.localMaxFrameSize < frameLength buffer ∨ defaultMaxFrameSize < frameLength buffer then
    some (ctx.setStatus errProtocol)
  else if ctx.continuationActive && (frameAt buffer).type != frameContinuation then
    some (failConnection ctx rstProtocolError).1
  else none

/-- The switch, once the frame is complete.  A frame whose handler fails stays in
the buffer. -/
def handleFrame : Http2Conn × Option Int :=
  let f := frameAt conn.readBuffer
  let ctx := dispatchFrame conn.ctx f
  match dispatchReturn conn.ctx f with
  | some ret => ({ conn with ctx := ctx }, some ret)
  | none =>
    ({ conn with
        ctx := ctx
        readBuffer := conn.readBuffer.drop (frameHeaderSize + frameLength conn.readBuffer) }, none)

/-- The rest of a turn, once the header of the frame is there. -/
def readPayload : Http2Conn × Option Int :=
  match headerRefused conn.ctx conn.readBuffer with
  | some ctx => ({ conn with ctx := ctx }, some errProtocol)
  | none =>
    match fillBuffer conn (frameHeaderSize + frameLength conn.readBuffer) 0 with
    | (conn, some ret) => (conn, some ret)
    | (conn, none) => handleFrame conn

/-- One turn of the loop of `_http2_process_frames`, with its return value when
it is the last one. -/
def frameTurn : Http2Conn × Option Int :=
  match fillBuffer conn frameHeaderSize 0 with
  | (conn, some ret) => (conn, some ret)
  | (conn, none) => readPayload conn

end

def tapeBytes (bio : List BioRead) : Bytes :=
  bio.flatMap fun
    | .data bytes => bytes
    | _ => []

/--
The loop of `_http2_process_frames`.  A turn that is not the last takes a frame
out, so the number of bytes that are there is enough fuel.
-/
def frameLoop : (fuel : Nat) → Http2Conn → Http2Conn × Int
  | 0, conn => (conn, 0)
  | fuel + 1, conn =>
    match frameTurn conn with
    | (conn, some ret) => (conn, ret)
    | (conn, none) => frameLoop fuel conn

def http2ProcessFrames (conn : Http2Conn) : Http2Conn × Int :=
  if conn.ctx.ioClosed then (conn, conn.ctx.status)
  else
    match http2VerifyConnectionPreface { conn with wantRead := false } with
    | (conn, some ret) => (conn, ret)
    | (conn, none) => frameLoop (conn.readBuffer.length + (tapeBytes conn.bio).length + 1) conn

end SmartDns.Http2
