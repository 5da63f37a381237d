import SmartDns.Http2.Types

/-!
# The frame sender

`_http2_send_frame` and the functions of `http_parse/http2.c` that build one
frame and hand it over.

The sender first offers what it still holds to the transport, then the new
frame, and keeps what the transport does not take.  It refuses a frame when
the connection has failed, when the transport fails, or when its buffer would
have to grow past `INT_MAX`.
-/

namespace SmartDns.Http2

open Hpack

variable {io io' : Http2Io}

/-- How an attempt to hand bytes to the transport ended. -/
inductive WriteOutcome
  | done
  | blocked
  | failed (status : Int) (errno : Errno)
deriving DecidableEq

/--
The loop `while (total_sent < len)`: the rest of the tape, the bytes taken,
the bytes left, and how it ended.
-/
def writeLoop :
    List BioWrite → Bytes → Errno →
      List BioWrite × Bytes × Bytes × WriteOutcome
  | bio, [], _ => (bio, [], [], .done)
  | [], data, _ => ([], [], data, .blocked)
  | .again :: bio, data, _ => (bio, [], data, .blocked)
  | .error :: bio, data, _ => (bio, [], data, .failed errIo .eio)
  | .accept n :: bio, data, errno =>
    let ret := min n data.length
    if ret = 0 then (bio, [], data, .failed errEof errno)
    else
      let r := writeLoop bio (data.drop ret) errno
      (r.1, data.take ret ++ r.2.1, r.2.2.1, r.2.2.2)

/-- The flush of the pending writes: one call of `bio_write`. -/
def flushPendingWrite (io : Http2Io) : Http2Io × WriteOutcome :=
  if io.pendingWriteBuffer = [] then (io, .done)
  else
    match io.bio with
    | [] => ({ io with wantWrite := true, errno := .eagain }, .blocked)
    | .again :: bio => ({ io with bio := bio, wantWrite := true, errno := .eagain }, .blocked)
    | .error :: bio => ({ io with bio := bio, status := errIo, errno := .eio }, .failed errIo .eio)
    | .accept n :: bio =>
      let ret := min n io.pendingWriteBuffer.length
      if ret = 0 then
        ({ io with bio := bio, status := errEof }, .failed errEof io.errno)
      else if ret < io.pendingWriteBuffer.length then
        ({ io with
            bio := bio
            written := io.written ++ io.pendingWriteBuffer.take ret
            pendingWriteBuffer := io.pendingWriteBuffer.drop ret
            wantWrite := true }, .blocked)
      else
        ({ io with
            bio := bio
            written := io.written ++ io.pendingWriteBuffer
            pendingWriteBuffer := []
            wantWrite := false }, .done)

/-- The label `buffer_new_data`: keep the unsent bytes. -/
def bufferNewData (io : Http2Io) (unsent : Bytes) : Http2Io × Bool :=
  if unsent = [] then ({ io with wantWrite := true }, true)
  else
    let needed := io.pendingWriteBuffer.length + unsent.length
    let capacity :=
      if io.pendingWriteCapacity < needed then growBuffer 8192 io.pendingWriteCapacity needed
      else some io.pendingWriteCapacity
    match capacity with
    | none => ({ io with sendFailed := true, mostNeeded := max io.mostNeeded needed }, false)
    | some capacity =>
      ({ io with
          pendingWriteBuffer := io.pendingWriteBuffer ++ unsent
          pendingWriteCapacity := capacity
          wantWrite := true
          mostNeeded := max io.mostNeeded needed }, true)

/-- `_http2_send_frame`; `false` stands for the return value -1. -/
def http2SendFrame (io : Http2Io) (data : Bytes) : Http2Io × Bool :=
  if io.status < 0 then ({ io with sendFailed := true }, false)
  else
    match flushPendingWrite io with
    | (io, .failed _ _) => ({ io with sendFailed := true }, false)
    | (io, .blocked) => bufferNewData io data
    | (io, .done) =>
      match writeLoop io.bio data io.errno with
      | (bio, taken, _, .done) =>
        ({ io with
            bio := bio
            written := io.written ++ taken
            wantWrite := false }, true)
      | (bio, taken, unsent, .blocked) =>
        bufferNewData
          { io with
            bio := bio
            written := io.written ++ taken
            wantWrite := true
            errno := .eagain }
          unsent
      | (bio, taken, _, .failed status errno) =>
        ({ io with
            bio := bio
            written := io.written ++ taken
            status := status
            errno := errno
            sendFailed := true }, false)

def writeUint32 (value : Nat) : Bytes :=
  [UInt8.ofNat (value >>> 24), UInt8.ofNat (value >>> 16),
    UInt8.ofNat (value >>> 8), UInt8.ofNat value]

def writeUint24 (value : Nat) : Bytes :=
  [UInt8.ofNat (value >>> 16), UInt8.ofNat (value >>> 8), UInt8.ofNat value]

def readUint32 (data : Bytes) : Nat :=
  (data.getD 0 0).toNat <<< 24 ||| (data.getD 1 0).toNat <<< 16 |||
    (data.getD 2 0).toNat <<< 8 ||| (data.getD 3 0).toNat

def http2WriteFrameHeader (length type flags streamId : Nat) : Bytes :=
  writeUint24 length ++ [UInt8.ofNat type, UInt8.ofNat flags] ++
    writeUint32 (streamId &&& 0x7FFFFFFF)

section

variable (ctx : Http2Ctx)

/-- Hand one frame to the sender, and record it when it is accepted. -/
def sendRecorded (bytes : Bytes) (frame : SentFrame) : Http2Ctx × Bool :=
  let r := http2SendFrame ctx.io bytes
  ({ ctx with
      io := r.1
      sent := if r.2 then ctx.sent ++ [frame] else ctx.sent },
    r.2)

def settingEntry (id value : Nat) : Bytes :=
  [UInt8.ofNat (id >>> 8), UInt8.ofNat id] ++ writeUint32 value

def http2SendSettings (ack : Bool) : Http2Ctx × Bool :=
  let payload :=
    if ack then []
    else
      (if ctx.isClient then settingEntry 0x02 0 else []) ++
        settingEntry 0x01 hpackMaxDynamicTableSize ++
        settingEntry 0x04 65535 ++
        settingEntry 0x05 defaultMaxFrameSize ++
        (if 0 < ctx.maxConcurrentStreams then settingEntry 0x03 ctx.maxConcurrentStreams.toNat
        else
          [])
  sendRecorded ctx
    (http2WriteFrameHeader payload.length frameSettings (if ack then flagAck else 0) 0 ++ payload)
    (.settings ack)

def http2SendWindowUpdate (streamId increment : Nat) : Http2Ctx × Bool :=
  sendRecorded ctx
    (http2WriteFrameHeader 4 frameWindowUpdate 0 streamId ++ writeUint32 (increment &&& 0x7FFFFFFF))
    (.windowUpdate streamId increment)

/-- `_http2_send_goaway`, which is only called without debug data. -/
def http2SendGoaway (lastStreamId errorCode : Nat) : Http2Ctx × Bool :=
  sendRecorded ctx
    (http2WriteFrameHeader 8 frameGoaway 0 0 ++
      writeUint32 (lastStreamId &&& 0x7FFFFFFF) ++ writeUint32 errorCode)
    (.goaway errorCode)

def http2SendDataFrame (owner : StreamPtr) (streamId : Nat) (data : Bytes)
    (endStream : Bool) : Http2Ctx × Bool :=
  sendRecorded ctx
    (http2WriteFrameHeader data.length frameData
      (if endStream then flagEndStream else 0) streamId ++ data)
    (.data owner streamId data endStream)

def http2SendRstStream (streamId errorCode : Nat) : Http2Ctx × Bool :=
  sendRecorded ctx
    (http2WriteFrameHeader 4 frameRstStream 0 streamId ++ writeUint32 errorCode)
    (.rstStream streamId errorCode)

/-- The answer to a PING. -/
def http2SendPong (payload : Bytes) : Http2Ctx × Bool :=
  sendRecorded ctx
    (http2WriteFrameHeader 8 framePing flagAck 0 ++ payload)
    (.ping payload)

/--
The header loop of `_http2_send_headers_frame`.  The block buffer doubles once
before a header when less than 4096 bytes are left.  The encoder context is
returned also when the loop stops with an error.
-/
def encodeHeaderList :
    HpackContext → List Header → (block : Bytes) → (blockSize : Nat) →
      HpackContext × Option Bytes
  | encoder, [], block, _ => (encoder, some block)
  | encoder, (name, value) :: fields, block, blockSize =>
    match
      (if blockSize < block.length + 4096 then safeBufferSize blockSize 2
      else
        some blockSize)
    with
    | none => (encoder, none)
    | some blockSize =>
      match
        hpackEncodeHeader encoder name value (blockSize - block.length)
      with
      | none => (encoder, none)
      | some (encoder, bs) => encodeHeaderList encoder fields (block ++ bs) blockSize

/--
`_http2_send_headers_frame`, which is always called with `end_headers` set.
The frame header and the block are two calls of the sender; the block is
recorded when it is handed over.
-/
def http2SendHeadersFrame (streamId : Nat) (headerList : List Header)
    (endStream : Bool) : Http2Ctx × Bool :=
  match encodeHeaderList ctx.encoder headerList [] 4096 with
  | (encoder, none) => ({ ctx with encoder := encoder }, false)
  | (encoder, some block) =>
    let ctx := { ctx with encoder := encoder }
    if 0 < ctx.peerMaxHeaderListSize ∧
        ctx.peerMaxHeaderListSize < block.length then
      (ctx, false)
    else
      let flags := (if endStream then flagEndStream else 0) ||| flagEndHeaders
      match
        http2SendFrame ctx.io
          (http2WriteFrameHeader block.length frameHeaders flags streamId)
      with
      | (io, false) => ({ ctx with io := io }, false)
      | (io, true) =>
        let ctx :=
          { ctx with
            io := io
            sent := ctx.sent ++ [.headers streamId block endStream] }
        if block.length = 0 then (ctx, true)
        else
          let r := http2SendFrame ctx.io block
          ({ ctx with io := r.1 }, r.2)

end

/-! ### What the sender can do to the connection -/

/--
The changes that the code makes to the I/O part of a connection: hand a
buffer to the sender, set an error status, set `errno` or `want_write`.
-/
inductive IoReach : Http2Io → Http2Io → Prop
  | refl (io : Http2Io) : IoReach io io
  | send {io io' : Http2Io} (data : Bytes) :
      IoReach io io' → IoReach io (http2SendFrame io' data).1
  | status {io io' : Http2Io} (status : Int) :
      status < 0 → IoReach io io' →
        IoReach io { io' with status := status }
  | errno {io io' : Http2Io} (errno : Errno) :
      IoReach io io' → IoReach io { io' with errno := errno }
  | wantWrite {io io' : Http2Io} (wantWrite : Bool) :
      IoReach io io' → IoReach io { io' with wantWrite := wantWrite }

theorem IoReach.trans {io₁ io₂ io₃ : Http2Io} (h₁ : IoReach io₁ io₂) (h₂ : IoReach io₂ io₃) :
    IoReach io₁ io₃ := by
  induction h₂ with
  | refl => exact h₁
  | send data _ ih => exact .send data ih
  | status st hst _ ih => exact .status st hst ih
  | errno e _ ih => exact .errno e ih
  | wantWrite w _ ih => exact .wantWrite w ih

/-- A failed connection refuses every buffer, and nothing else changes. -/
theorem http2SendFrame_of_status_neg (hneg : io.status < 0) (data : Bytes) :
    http2SendFrame io data = ({ io with sendFailed := true }, false) := by
  simp [http2SendFrame, hneg]

theorem IoReach.status_neg (h : IoReach io io') (hneg : io.status < 0) : io'.status < 0 := by
  induction h with
  | refl => exact hneg
  | send data _ ih => simpa [http2SendFrame_of_status_neg ih] using ih
  | status st hst _ _ => exact hst
  | errno _ _ ih => exact ih
  | wantWrite _ _ ih => exact ih

theorem IoReach.status_nonneg (h : IoReach io io') (hok : 0 ≤ io'.status) : 0 ≤ io.status := by
  by_contra hneg
  have := h.status_neg (by omega)
  omega

section

variable (io : Http2Io)

theorem bufferNewData_sendFailed (unsent : Bytes) :
    (bufferNewData io unsent).1.sendFailed = (io.sendFailed || !(bufferNewData io unsent).2) := by
  unfold bufferNewData
  dsimp only
  repeat' split
  all_goals simp

theorem flushPendingWrite_sendFailed : (flushPendingWrite io).1.sendFailed = io.sendFailed := by
  unfold flushPendingWrite
  dsimp only
  repeat' split
  all_goals rfl

theorem http2SendFrame_sendFailed (data : Bytes) :
    (http2SendFrame io data).1.sendFailed = (io.sendFailed || !(http2SendFrame io data).2) := by
  have hflush := flushPendingWrite_sendFailed io
  unfold http2SendFrame
  split
  · simp
  split
  · simp
  next io' heq =>
    rw [heq] at hflush
    rw [bufferNewData_sendFailed, ← hflush]
  next io' heq =>
  rw [heq] at hflush
  split
  · simp [← hflush]
  · rw [bufferNewData_sendFailed, ← hflush]
  · simp

/-! ### What the sender does with the bytes -/

theorem writeLoop_append (bio : List BioWrite) (data : Bytes) (errno : Errno) :
    (writeLoop bio data errno).2.1 ++ (writeLoop bio data errno).2.2.1 =
      data := by
  fun_induction writeLoop bio data errno with
  | case1 => rfl
  | case2 => rfl
  | case3 => rfl
  | case4 => rfl
  | case5 => rfl
  | case6 n bio data errno hne ret hret r ih =>
    simp only [List.append_assoc]
    rw [ih, List.take_append_drop]

theorem writeLoop_done (bio : List BioWrite) (data : Bytes) (errno : Errno)
    (h : (writeLoop bio data errno).2.2.2 = .done) :
    (writeLoop bio data errno).2.2.1 = [] := by
  fun_induction writeLoop bio data errno with
  | case1 => rfl
  | case6 n bio data errno hne ret hret r ih => exact ih h
  | _ => simp at h

theorem writeLoop_failed (bio : List BioWrite) (data : Bytes) (errno : Errno)
    {status : Int} {e : Errno} (h : (writeLoop bio data errno).2.2.2 = .failed status e) :
    status < 0 := by
  fun_induction writeLoop bio data errno with
  | case4 | case5 =>
    obtain ⟨rfl, rfl⟩ := WriteOutcome.failed.inj h
    decide
  | case6 n bio data errno hne ret hret r ih => exact ih h
  | _ => simp at h

theorem flushPendingWrite_failed {status : Int} {e : Errno}
    (h : (flushPendingWrite io).2 = .failed status e) :
    (flushPendingWrite io).1.status < 0 := by
  unfold flushPendingWrite at h ⊢
  dsimp only at h ⊢
  repeat' split
  all_goals simp_all [errIo, errEof]
  all_goals omega

theorem flushPendingWrite_append :
    (flushPendingWrite io).1.written ++ (flushPendingWrite io).1.pendingWriteBuffer =
      io.written ++ io.pendingWriteBuffer := by
  unfold flushPendingWrite
  dsimp only
  repeat' split
  all_goals simp

theorem flushPendingWrite_done (h : (flushPendingWrite io).2 = .done) :
    (flushPendingWrite io).1.pendingWriteBuffer = [] := by
  unfold flushPendingWrite at h ⊢
  dsimp only at h ⊢
  repeat' split
  all_goals simp_all

theorem flushPendingWrite_capacity :
    (flushPendingWrite io).1.pendingWriteCapacity = io.pendingWriteCapacity := by
  unfold flushPendingWrite
  dsimp only
  repeat' split
  all_goals rfl

theorem flushPendingWrite_length_le :
    (flushPendingWrite io).1.pendingWriteBuffer.length ≤ io.pendingWriteBuffer.length := by
  unfold flushPendingWrite
  dsimp only
  repeat' split
  all_goals simp

theorem bufferNewData_append (unsent : Bytes) (h : (bufferNewData io unsent).2 = true) :
    (bufferNewData io unsent).1.written ++ (bufferNewData io unsent).1.pendingWriteBuffer =
      io.written ++ io.pendingWriteBuffer ++ unsent := by
  unfold bufferNewData at h ⊢
  dsimp only at h ⊢
  split
  next hnil => simp [hnil]
  next hne =>
  rw [if_neg hne] at h
  split
  next heq => simp [heq] at h
  · simp

/--
**The sender loses nothing.**  When it accepts a buffer, what the transport
took and what the sender keeps are the bytes of all buffers so far, in order.
-/
theorem http2SendFrame_append (data : Bytes) (h : (http2SendFrame io data).2 = true) :
    (http2SendFrame io data).1.written ++ (http2SendFrame io data).1.pendingWriteBuffer =
      io.written ++ io.pendingWriteBuffer ++ data := by
  have hflush := flushPendingWrite_append io
  have hdone := flushPendingWrite_done io
  unfold http2SendFrame at h ⊢
  split
  next hneg => simp [hneg] at h
  next hneg =>
  rw [if_neg hneg] at h
  split
  next heq => simp [heq] at h
  next io' heq =>
    rw [heq] at h hflush
    rw [bufferNewData_append io' data h, hflush]
  next io' heq =>
  rw [heq] at h hflush hdone
  have hnil : io'.pendingWriteBuffer = [] := hdone rfl
  have happend := writeLoop_append io'.bio data io'.errno
  have hrest := writeLoop_done io'.bio data io'.errno
  simp only [hnil, List.append_nil] at hflush
  split
  next bio taken rest hloop =>
    rw [hloop] at happend hrest
    have hrest : rest = [] := hrest rfl
    simp only [hrest, List.append_nil] at happend
    simp [hnil, ← hflush, happend]
  next bio taken rest hloop =>
    rw [hloop] at happend
    simp only [hloop] at h
    rw [bufferNewData_append _ _ h]
    simp only at happend
    simp [hnil, ← hflush, happend]
  next hloop => simp [hloop] at h

theorem bufferNewData_capacity (unsent : Bytes) (hsize : DoublingSize io.pendingWriteCapacity) :
    DoublingSize (bufferNewData io unsent).1.pendingWriteCapacity := by
  unfold bufferNewData
  split
  · exact hsize
  dsimp only
  split
  · exact hsize
  next capacity heq =>
  split at heq
  · exact growBuffer_doublingSize (j := 13) (by omega) hsize heq
  · cases heq
    exact hsize

theorem http2SendFrame_capacity (data : Bytes) (hsize : DoublingSize io.pendingWriteCapacity) :
    DoublingSize (http2SendFrame io data).1.pendingWriteCapacity := by
  rw [← flushPendingWrite_capacity io] at hsize
  unfold http2SendFrame
  split
  · rwa [flushPendingWrite_capacity io] at hsize
  split
  next heq => rwa [heq] at hsize
  next heq =>
    rw [heq] at hsize
    exact bufferNewData_capacity _ data hsize
  next heq =>
  rw [heq] at hsize
  split
  · exact hsize
  · exact bufferNewData_capacity _ _ hsize
  · exact hsize

theorem bufferNewData_accepts (unsent : Bytes) (hsize : DoublingSize io.pendingWriteCapacity)
    (hroom : io.pendingWriteBuffer.length + unsent.length ≤ 2 ^ 30) :
    (bufferNewData io unsent).2 = true ∧ (bufferNewData io unsent).1.pendingWriteBuffer.length ≤
        io.pendingWriteBuffer.length + unsent.length := by
  unfold bufferNewData
  split
  · exact ⟨rfl, by simp⟩
  dsimp only
  by_cases hlt : io.pendingWriteCapacity < io.pendingWriteBuffer.length + unsent.length
  · obtain ⟨size, hgrow⟩ :=
      growBuffer_isSome (j := 13) (by omega) hsize hlt hroom
    norm_num at hgrow
    simp only [if_pos hlt, hgrow]
    exact ⟨trivial, by simp⟩
  · simp only [if_neg hlt]
    exact ⟨trivial, by simp⟩

/--
A buffer is refused only when the connection has failed, as long as the bytes
that the sender would have to keep stay below its limit.
-/
theorem http2SendFrame_accepts (data : Bytes) (hsize : DoublingSize io.pendingWriteCapacity)
    (hroom : io.pendingWriteBuffer.length + data.length ≤ 2 ^ 30)
    (hok : 0 ≤ (http2SendFrame io data).1.status) :
    (http2SendFrame io data).2 = true ∧ (http2SendFrame io data).1.pendingWriteBuffer.length ≤
        io.pendingWriteBuffer.length + data.length := by
  have hlen := flushPendingWrite_length_le io
  have hcap := flushPendingWrite_capacity io
  unfold http2SendFrame at hok ⊢
  split
  next hneg =>
    rw [if_pos hneg] at hok
    exact absurd hok (by simpa using hneg)
  next hneg =>
  rw [if_neg hneg] at hok
  split
  next io' status errno heq =>
    have hfail := flushPendingWrite_failed io (congrArg Prod.snd heq)
    rw [heq] at hok hfail
    exact absurd hok (by simpa using hfail)
  next io' heq =>
    rw [heq] at hlen hcap
    simp only at hlen hcap
    have h := bufferNewData_accepts io' data (hcap ▸ hsize) (by omega)
    exact ⟨h.1, by omega⟩
  next io' heq =>
  rw [heq] at hlen hcap
  simp only at hlen hcap
  have happend := writeLoop_append io'.bio data io'.errno
  split
  · exact ⟨rfl, by simp only; omega⟩
  next bio taken rest hloop =>
    rw [hloop] at happend
    have hrest : rest.length ≤ data.length := by
      rw [← happend]
      simp
    have h := bufferNewData_accepts { io' with
        bio := bio
        written := io'.written ++ taken
        wantWrite := true
        errno := .eagain }
      rest (hcap ▸ hsize) (by simp only; omega)
    simp only at h
    exact ⟨h.1, by omega⟩
  next status errno hloop =>
    have hfail := writeLoop_failed io'.bio data io'.errno (congrArg (fun r => r.2.2.2) hloop)
    simp only [heq, hloop] at hok
    omega

end

theorem IoReach.sendFailed_mono (h : IoReach io io') (hok : io'.sendFailed = false) :
    io.sendFailed = false := by
  induction h with
  | refl => exact hok
  | send data _ ih =>
    rw [http2SendFrame_sendFailed] at hok
    exact ih (by simpa using (Bool.or_eq_false_iff.mp hok).1)
  | status _ _ _ ih => exact ih hok
  | errno _ _ ih => exact ih hok
  | wantWrite _ _ ih => exact ih hok

theorem IoReach.capacity (h : IoReach io io') (hsize : DoublingSize io.pendingWriteCapacity) :
    DoublingSize io'.pendingWriteCapacity := by
  induction h with
  | refl => exact hsize
  | send data _ ih => exact http2SendFrame_capacity _ data ih
  | status _ _ _ ih => exact ih
  | errno _ _ ih => exact ih
  | wantWrite _ _ ih => exact ih

end SmartDns.Http2
