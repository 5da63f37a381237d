import SmartDns.Hpack.Codec

/-!
# HTTP/2 connection state

`struct http2_stream` and `struct http2_ctx` of `http_parse/http2.c`.

A stream pointer is a number, and the context holds the streams in a heap.  A
stream stays there after it was unlinked, because the application may still hold
a pointer to it; `linked` says whether `stream->ctx` is set.  `streams` is the
list in its order, `streamMap` the hash map with the newest entry first.

The part of the context that the frame sender works on is `Http2Io`.  The
transport is a tape of answers to `bio_write`; an empty tape answers `EAGAIN`.
Reference counts, mutexes and allocation failures are not modelled.

Five components record what happened and are read by no function: `written`
is what the transport took, `sendFailed` whether the sender ever refused a
buffer, `mostNeeded` the largest buffer it ever needed, `sent` the frames it
accepted, and `decoded` the header blocks given to the HPACK decoder.
-/

namespace SmartDns.Http2

open Hpack

def intMax : Int := 2 ^ 31 - 1

def intMin : Int := -2 ^ 31

/-- `HTTP2_ERR_EOF`. -/
def errEof : Int := -2

/-- `HTTP2_ERR_IO`. -/
def errIo : Int := -3

/-- `HTTP2_ERR_PROTOCOL`. -/
def errProtocol : Int := -4

/-- `HTTP2_DEFAULT_WINDOW_SIZE`. -/
def defaultWindowSize : Int := 65535

/-- `HTTP2_DEFAULT_MAX_FRAME_SIZE`. -/
def defaultMaxFrameSize : Nat := 16384

/-- `HTTP2_MAX_HEADER_BLOCK_SIZE`. -/
def maxHeaderBlockSize : Nat := 65536

/-- `HTTP2_INITIAL_HEADER_TABLE_SIZE`. -/
def initialHeaderTableSize : Nat := 4096

/-- `HTTP2_MAX_STREAM_ID`. -/
def maxStreamId : Nat := 0x7fffffff

def uint32Max : Nat := 2 ^ 32 - 1

/-- Frame types. -/
def frameData : Nat := 0x00
def frameHeaders : Nat := 0x01
def frameRstStream : Nat := 0x03
def frameSettings : Nat := 0x04
def framePing : Nat := 0x06
def frameGoaway : Nat := 0x07
def frameWindowUpdate : Nat := 0x08
def frameContinuation : Nat := 0x09

/-- Error codes of RST_STREAM and GOAWAY. -/
def rstNoError : Nat := 0
def rstProtocolError : Nat := 1
def rstInternalError : Nat := 2
def rstFlowControlError : Nat := 3
def rstStreamClosed : Nat := 5
def rstRefusedStream : Nat := 7
def rstCompressionError : Nat := 9

/-- Frame flags. -/
def flagEndStream : Nat := 0x01
def flagEndHeaders : Nat := 0x04
def flagPadded : Nat := 0x08
def flagPriority : Nat := 0x20
def flagAck : Nat := 0x01

/-- `flags & mask`, as a condition. -/
def hasFlag (flags mask : Nat) : Bool :=
  flags &&& mask != 0

/-- `http2_stream_state_t`. -/
inductive StreamState
  | idle
  | opened
  | halfClosedLocal
  | halfClosedRemote
  | closed
deriving DecidableEq, Repr

/-- The values of `errno` that the code tells apart or sets. -/
inductive Errno
  | clear
  | eagain
  | epipe
  | econnreset
  | enospc
  | eoverflow
  | einval
  | eio
deriving DecidableEq, Repr

/-- One answer of `bio_write`: bytes taken (at most as many as offered, and
none when the peer has closed), `EAGAIN`, or another error. -/
inductive BioWrite
  | accept (n : Nat)
  | again
  | error
deriving DecidableEq, Repr

/-- A frame as the frame sender gets it.  The wire carries the stream
identifier only; `owner` is the stream object a DATA frame is sent for. -/
inductive SentFrame
  | preface
  | settings (ack : Bool)
  | windowUpdate (streamId : Nat) (increment : Nat)
  | goaway (errorCode : Nat)
  | data (owner streamId : Nat) (payload : Bytes) (endStream : Bool)
  | headers (streamId : Nat) (block : Bytes) (endStream : Bool)
  | rstStream (streamId : Nat) (errorCode : Nat)
  | ping (payload : Bytes)
deriving DecidableEq

structure Frame where
  type : Nat
  flags : Nat
  streamId : Nat
  payload : Bytes
deriving DecidableEq

/-- `struct http2_stream *`. -/
abbrev StreamPtr := Nat

structure Http2Stream where
  linked : Bool := false
  streamId : Nat := 0
  state : StreamState := .idle
  headerList : List Header := []
  /-- The first `body_buffer_len` bytes of `body_buffer`. -/
  bodyBuffer : Bytes := []
  bodyBufferSize : Nat := 0
  bodyReadOffset : Nat := 0
  endStreamReceived : Bool := false
  endStreamSent : Bool := false
  endStreamReadHandled : Bool := false
  accepted : Bool := false
  sendWindowSize : Int := 0
  recvWindowSize : Int := 0
  bodyDecompressed : Bool := false
  /-- The first `pending_send_body_len` bytes of `pending_send_body`. -/
  pendingSendBody : Bytes := []
  pendingSendBodySize : Nat := 0
  pendingSendBodyOffset : Nat := 0
  pendingSendEndStream : Bool := false
  closeAfterSend : Bool := false

instance : Inhabited Http2Stream := ⟨{}⟩

/-- The part of `struct http2_ctx` that the frame sender reads and writes. -/
structure Http2Io where
  /-- 0: connected, negative: error code. -/
  status : Int := 0
  wantWrite : Bool := false
  /-- The first `pending_write_len` bytes of `pending_write_buffer`. -/
  pendingWriteBuffer : Bytes := []
  pendingWriteCapacity : Nat := 0
  errno : Errno := .clear
  bio : List BioWrite := []
  written : Bytes := []
  sendFailed : Bool := false
  mostNeeded : Nat := 0

structure Http2Ctx where
  isClient : Bool
  server : CStr
  io : Http2Io := {}
  ioClosed : Bool := false
  settingsReceived : Bool := false
  nextStreamId : Nat
  maxLocalStreamIdSeen : Nat := 0
  maxPeerStreamIdSeen : Nat := 0
  sendConnWindowSize : Int := defaultWindowSize
  recvConnWindowSize : Int := defaultWindowSize
  peerMaxFrameSize : Nat := defaultMaxFrameSize
  localMaxFrameSize : Nat := defaultMaxFrameSize
  peerMaxHeaderListSize : Nat := maxHeaderBlockSize
  sendInitialWindowSize : Int := defaultWindowSize
  recvInitialWindowSize : Int := defaultWindowSize
  activeLocalStreams : Int := 0
  activePeerStreams : Int := 0
  /-- `settings.max_concurrent_streams`. -/
  maxConcurrentStreams : Int := 0
  peerMaxConcurrentStreams : Nat := uint32Max
  encoder : HpackContext
  decoder : HpackContext
  heap : StreamPtr → Http2Stream := fun _ => {}
  /-- The next pointer that the allocator hands out. -/
  nextPtr : StreamPtr := 0
  streams : List StreamPtr := []
  streamMap : List StreamPtr := []
  headerBlockBuffer : Bytes := []
  continuationStreamId : Nat := 0
  continuationFlags : Nat := 0
  continuationActive : Bool := false
  continuationRefuseStream : Bool := false
  sent : List SentFrame := []
  decoded : List Bytes := []

namespace Http2Ctx

variable (ctx : Http2Ctx)

/-- `ctx->status`. -/
def status : Int := ctx.io.status

/-- `ctx->status = …`. -/
def setStatus (status : Int) : Http2Ctx :=
  { ctx with io := { ctx.io with status := status } }

@[simp] theorem setStatus_status (status : Int) : (ctx.setStatus status).status = status := rfl

/-- `errno = …`. -/
def setErrno (errno : Errno) : Http2Ctx :=
  { ctx with io := { ctx.io with errno := errno } }

def setStream (p : StreamPtr) (s : Http2Stream) : Http2Ctx :=
  { ctx with heap := fun q => if q = p then s else ctx.heap q }

def modifyStream (p : StreamPtr) (f : Http2Stream → Http2Stream) : Http2Ctx :=
  ctx.setStream p (f (ctx.heap p))

@[simp] theorem setStream_heap_self (p : StreamPtr) (s : Http2Stream) :
    (ctx.setStream p s).heap p = s := by
  simp [setStream]

theorem setStream_heap_ne {p q : StreamPtr} (s : Http2Stream) (hne : q ≠ p) :
    (ctx.setStream p s).heap q = ctx.heap q := by
  simp [setStream, hne]

theorem setStream_heap (p q : StreamPtr) (s : Http2Stream) :
    (ctx.setStream p s).heap q = if q = p then s else ctx.heap q := rfl

end Http2Ctx

/-- `safe_buffer_size`, for the arguments it is called with. -/
def safeBufferSize (current factor : Nat) : Option Nat :=
  if (2 ^ 31 - 1) / factor < current then none else some (current * factor)

/--
The doubling loop `while (new_size < needed)`.  A size doubles past `INT_MAX`
in fewer than 32 turns, so the fuel of `growBuffer` never decides the result.
-/
def growLoop (needed : Nat) : (fuel size : Nat) → Option Nat
  | 0, _ => none
  | fuel + 1, size =>
    if size < needed then
      match safeBufferSize size 2 with
      | none => none
      | some size => growLoop needed fuel size
    else some size

/--
The growth of a buffer of `size` bytes to at least `needed`: `initial` when it
was empty, else doubling.
-/
def growBuffer (initial size needed : Nat) : Option Nat :=
  match (if size = 0 then some initial else safeBufferSize size 2) with
  | none => none
  | some size => growLoop needed 32 size

/-- A buffer size that comes from doubling: none yet, or a power of two that
fits an `int`. -/
def DoublingSize (size : Nat) : Prop :=
  size = 0 ∨ ∃ k ≤ 30, size = 2 ^ k

theorem safeBufferSize_two_pow (k : Nat) (hk : k ≤ 30) :
    safeBufferSize (2 ^ k) 2 = if k = 30 then none else some (2 ^ (k + 1)) := by
  unfold safeBufferSize
  by_cases h : k = 30
  · subst h
    rfl
  · have hle : 2 ^ k ≤ 2 ^ 29 :=
      Nat.pow_le_pow_right (by omega) (by omega)
    rw [if_neg (by omega), if_neg h, pow_succ]

theorem growLoop_doublingSize {needed fuel k size : Nat} (hk : k ≤ 30)
    (h : growLoop needed fuel (2 ^ k) = some size) :
    DoublingSize size := by
  induction fuel generalizing k with
  | zero => simp [growLoop] at h
  | succ fuel ih =>
  rw [growLoop, safeBufferSize_two_pow k hk] at h
  split at h
  · by_cases h30 : k = 30
    · simp [h30] at h
    · simp only [if_neg h30] at h
      exact ih (by omega) h
  · exact Or.inr ⟨k, hk, by simpa using h.symm⟩

theorem growLoop_isSome {needed fuel k : Nat}
    (hk : k ≤ 30) (hfuel : 30 < k + fuel) (hneeded : needed ≤ 2 ^ 30) :
    ∃ size, growLoop needed fuel (2 ^ k) = some size := by
  induction fuel generalizing k with
  | zero => omega
  | succ fuel ih =>
  rw [growLoop, safeBufferSize_two_pow k hk]
  split
  next hlt =>
    have h30 : k ≠ 30 := by
      rintro rfl
      omega
    simp only [if_neg h30]
    exact ih (by omega) (by omega)
  · exact ⟨_, rfl⟩

theorem growBuffer_doublingSize {j size needed size' : Nat}
    (hj : j ≤ 30) (hsize : DoublingSize size) (h : growBuffer (2 ^ j) size needed = some size') :
    DoublingSize size' := by
  unfold growBuffer at h
  rcases hsize with rfl | ⟨k, hk, rfl⟩
  · exact growLoop_doublingSize hj h
  · rw [if_neg (by positivity), safeBufferSize_two_pow k hk] at h
    by_cases h30 : k = 30
    · simp [h30] at h
    · simp only [if_neg h30] at h
      exact growLoop_doublingSize (by omega) h

theorem growLoop_eq_none {needed fuel k : Nat} (hk : k ≤ 30) (hneeded : 2 ^ 30 < needed) :
    growLoop needed fuel (2 ^ k) = none := by
  induction fuel generalizing k with
  | zero => rfl
  | succ fuel ih =>
  have hle : 2 ^ k ≤ 2 ^ 30 := Nat.pow_le_pow_right (by omega) hk
  rw [growLoop, if_pos (hle.trans_lt hneeded), safeBufferSize_two_pow k hk]
  by_cases h30 : k = 30
  · rw [if_pos h30]
  · rw [if_neg h30]
    exact ih (by omega)

/-- A buffer grows to anything up to half of what an `int` counts. -/
theorem growBuffer_isSome {j size needed : Nat} (hj : j ≤ 30) (hsize : DoublingSize size)
    (hlt : size < needed) (hneeded : needed ≤ 2 ^ 30) :
    ∃ size', growBuffer (2 ^ j) size needed = some size' := by
  unfold growBuffer
  rcases hsize with rfl | ⟨k, hk, rfl⟩
  · exact growLoop_isSome hj (by omega) hneeded
  · have h30 : k ≠ 30 := by
      rintro rfl
      omega
    rw [if_neg (by positivity), safeBufferSize_two_pow k hk]
    simp only [if_neg h30]
    exact growLoop_isSome (by omega) (by omega) hneeded

/-- And to nothing more. -/
theorem growBuffer_eq_none {j size needed : Nat} (hj : j ≤ 30) (hsize : DoublingSize size)
    (hneeded : 2 ^ 30 < needed) : growBuffer (2 ^ j) size needed = none := by
  unfold growBuffer
  rcases hsize with rfl | ⟨k, hk, rfl⟩
  · exact growLoop_eq_none hj hneeded
  · rw [if_neg (by positivity), safeBufferSize_two_pow k hk]
    by_cases h30 : k = 30
    · rw [if_pos h30]
    · rw [if_neg h30]
      exact growLoop_eq_none (by omega) hneeded

end SmartDns.Http2
