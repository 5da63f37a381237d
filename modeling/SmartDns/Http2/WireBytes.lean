import SmartDns.Http2.Quiet

/-!
# The bytes on the wire

A frame that the transport does not take at once is kept, in whole or in part,
and offered again with the next one.  Nothing is lost, doubled or put out of order:
what the transport has taken and what is kept are the frames that were sent.

Without a hard error of the transport the sender refuses bytes only when it would
have to keep more than `2 ^ 30` of them.  A HEADERS frame is handed over in two
parts, so there the first part can be kept and the second one refused.
-/

namespace SmartDns.Http2

open Hpack List

/-- What the transport has taken, and what is kept for it. -/
def Http2Io.output (io : Http2Io) : Bytes :=
  io.written ++ io.pendingWriteBuffer

/-- The frames that were sent, one behind the other. -/
def Http2Ctx.wire (ctx : Http2Ctx) : Bytes :=
  ctx.sent.flatMap (SentFrame.wire ctx.isClient ctx.maxConcurrentStreams)

/-! ### A transport without hard errors -/

/-- Every answer of the transport is that it would block, or that it takes something. -/
def NoHardError (bio : List BioWrite) : Prop :=
  ∀ answer ∈ bio, answer ≠ .error ∧ answer ≠ .accept 0

structure Http2Io.Sound (io : Http2Io) : Prop where
  bio : NoHardError io.bio
  capacity : DoublingSize io.pendingWriteCapacity

variable {io io' : Http2Io}

theorem writeLoop_bio (bio : List BioWrite) (data : Bytes) (errno : Errno) :
    (writeLoop bio data errno).1 <:+ bio := by
  fun_induction writeLoop bio data errno with
  | case1 => exact suffix_rfl
  | case2 => exact suffix_rfl
  | case6 n bio data errno hne ret hret r ih => exact ih.trans (suffix_cons _ _)
  | _ => exact suffix_cons _ _

theorem writeLoop_not_failed {bio : List BioWrite} (h : NoHardError bio) (data : Bytes)
    (errno : Errno) (status : Int) (e : Errno) :
    (writeLoop bio data errno).2.2.2 ≠ .failed status e := by
  fun_induction writeLoop bio data errno with
  | case4 => exact absurd rfl (h .error mem_cons_self).1
  | case5 n bio data errno hne ret hret =>
    have hn := (h _ mem_cons_self).2
    have hpos : data.length ≠ 0 := fun hlen => hne (length_eq_zero_iff.mp hlen)
    refine absurd (show ret = min n data.length from rfl) fun hmin => hn ?_
    congr
    omega
  | case6 n bio data errno hne ret hret r ih =>
    exact ih fun answer hmem => h answer (mem_cons_of_mem _ hmem)
  | _ => simp

theorem flushPendingWrite_kept (io : Http2Io) :
    (flushPendingWrite io).1.bio <:+ io.bio ∧
      (flushPendingWrite io).1.mostNeeded = io.mostNeeded := by
  unfold flushPendingWrite
  dsimp only
  split
  · exact ⟨suffix_rfl, rfl⟩
  repeat' split
  all_goals exact ⟨by simp_all, rfl⟩

theorem flushPendingWrite_not_failed (h : NoHardError io.bio) :
    (∀ status e, (flushPendingWrite io).2 ≠ .failed status e) ∧
      (flushPendingWrite io).1.status = io.status := by
  unfold flushPendingWrite
  dsimp only
  split
  · exact ⟨by simp, rfl⟩
  next hpending =>
  cases hbio : io.bio with
  | nil => exact ⟨by simp, rfl⟩
  | cons answer bio =>
  have hanswer := h answer (hbio ▸ mem_cons_self)
  cases answer with
  | again => exact ⟨by simp, rfl⟩
  | error => exact absurd rfl hanswer.1
  | accept n =>
    have hpos := length_pos_of_ne_nil hpending
    have hn : n ≠ 0 := fun hn => hanswer.2 (hn ▸ rfl)
    dsimp only
    rw [if_neg (by omega)]
    split
    · exact ⟨by simp, rfl⟩
    · exact ⟨by simp, rfl⟩

theorem bufferNewData_kept (io : Http2Io) (unsent : Bytes) :
    (bufferNewData io unsent).1.bio = io.bio ∧ (bufferNewData io unsent).1.status = io.status ∧
      io.mostNeeded ≤ (bufferNewData io unsent).1.mostNeeded := by
  unfold bufferNewData
  dsimp only
  repeat' split
  all_goals simp

/-- What the largest need bounds is kept. -/
theorem bufferNewData_of_mostNeeded (hsize : DoublingSize io.pendingWriteCapacity) (unsent : Bytes)
    (h : (bufferNewData io unsent).1.mostNeeded ≤ 2 ^ 30) : (bufferNewData io unsent).2 = true := by
  by_cases hroom : io.pendingWriteBuffer.length + unsent.length ≤ 2 ^ 30
  · exact (bufferNewData_accepts io unsent hsize hroom).1
  unfold bufferNewData at h ⊢
  dsimp only at h ⊢
  repeat' split at h
  all_goals simp_all
  all_goals omega

theorem http2SendFrame_kept (io : Http2Io) (data : Bytes) :
    (http2SendFrame io data).1.bio <:+ io.bio ∧
      io.mostNeeded ≤ (http2SendFrame io data).1.mostNeeded := by
  obtain ⟨hbio, hmost⟩ := flushPendingWrite_kept io
  unfold http2SendFrame
  split
  · exact ⟨suffix_rfl, le_rfl⟩
  generalize flushPendingWrite io = flushed at hbio hmost ⊢
  obtain ⟨io₁, outcome⟩ := flushed
  have hloop := writeLoop_bio io₁.bio data io₁.errno
  rw [← hmost]
  split
  next heq => cases heq; exact ⟨hbio, le_rfl⟩
  next io₂ heq =>
    cases heq
    obtain ⟨hbuffer, -, hle⟩ := bufferNewData_kept io₁ data
    exact ⟨hbuffer ▸ hbio, hle⟩
  next io₂ heq =>
    cases heq
    split
    next heq => exact ⟨(heq ▸ hloop).trans hbio, le_rfl⟩
    next bio taken unsent heq =>
      rw [heq] at hloop
      obtain ⟨hbuffer, -, hle⟩ := bufferNewData_kept { io₁ with
        bio := bio, written := io₁.written ++ taken, wantWrite := true, errno := .eagain } unsent
      exact ⟨hbuffer ▸ hloop.trans hbio, hle⟩
    next heq => exact ⟨(heq ▸ hloop).trans hbio, le_rfl⟩

/-- A connection that stands takes every buffer for which there is room. -/
theorem http2SendFrame_taken (h : io.Sound) (hstatus : 0 ≤ io.status) (data : Bytes)
    (hroom : (http2SendFrame io data).1.mostNeeded ≤ 2 ^ 30) :
    (http2SendFrame io data).2 = true ∧ (http2SendFrame io data).1.status = io.status := by
  obtain ⟨hnever, hsame⟩ := flushPendingWrite_not_failed h.bio
  obtain ⟨hbio, -⟩ := flushPendingWrite_kept io
  have hsize : DoublingSize (flushPendingWrite io).1.pendingWriteCapacity := by
    rw [flushPendingWrite_capacity]
    exact h.capacity
  unfold http2SendFrame at hroom ⊢
  rw [if_neg (by omega)] at hroom ⊢
  generalize flushPendingWrite io = flushed at hnever hsame hbio hsize hroom ⊢
  obtain ⟨io₁, outcome⟩ := flushed
  have hloop := writeLoop_not_failed (fun answer hmem => h.bio answer (hbio.subset hmem)) data
    io₁.errno
  cases outcome with
  | failed status e => exact absurd rfl (hnever status e)
  | blocked =>
    exact ⟨bufferNewData_of_mostNeeded hsize data hroom, (bufferNewData_kept _ _).2.1.trans hsame⟩
  | done =>
  dsimp only at hroom ⊢
  generalize writeLoop io₁.bio data io₁.errno = result at hloop hroom ⊢
  obtain ⟨bio, taken, unsent, outcome⟩ := result
  cases outcome with
  | done => exact ⟨rfl, hsame⟩
  | blocked =>
    exact ⟨@bufferNewData_of_mostNeeded { io₁ with
        bio := bio, written := io₁.written ++ taken, wantWrite := true, errno := .eagain }
      hsize unsent hroom, (bufferNewData_kept _ _).2.1.trans hsame⟩
  | failed status e => exact absurd rfl (hloop status e)

theorem IoReach.mostNeeded_mono (h : IoReach io io') : io.mostNeeded ≤ io'.mostNeeded := by
  induction h with
  | refl => exact le_rfl
  | send data _ ih => exact ih.trans (http2SendFrame_kept _ data).2
  | status _ _ _ ih => exact ih
  | errno _ _ ih => exact ih
  | wantWrite _ _ ih => exact ih

theorem IoReach.sound (h : IoReach io io') (hsound : io.Sound) : io'.Sound := by
  refine ⟨?_, h.capacity hsound.capacity⟩
  induction h with
  | refl => exact hsound.bio
  | send data _ ih =>
    exact fun answer hmem => ih answer ((http2SendFrame_kept _ data).1.subset hmem)
  | status _ _ _ ih => exact ih
  | errno _ _ ih => exact ih
  | wantWrite _ _ ih => exact ih

/-! ### The output of a run -/

/-- The sender on a connection that has failed, or that has room for the buffer. -/
theorem http2SendFrame_output (h : io.Sound) (data : Bytes)
    (hroom : (http2SendFrame io data).1.mostNeeded ≤ 2 ^ 30) :
    (http2SendFrame io data).1.output =
      io.output ++ if (http2SendFrame io data).2 then data else [] := by
  by_cases hneg : io.status < 0
  · rw [http2SendFrame_of_status_neg hneg]
    simp [Http2Io.output]
  · have htaken := (http2SendFrame_taken h (Int.not_lt.mp hneg) data hroom).1
    rw [if_pos htaken]
    exact http2SendFrame_append io data htaken

section

variable {ctx ctx' : Http2Ctx} (heq : ctx.io.output = ctx.wire) (hsound : ctx.io.Sound)
include heq hsound

theorem sendRecorded_output {bytes : Bytes} {frame : SentFrame}
    (hbytes : bytes = frame.wire ctx.isClient ctx.maxConcurrentStreams)
    (hroom : (sendRecorded ctx bytes frame).1.io.mostNeeded ≤ 2 ^ 30) :
    (sendRecorded ctx bytes frame).1.io.output = (sendRecorded ctx bytes frame).1.wire := by
  have hout := http2SendFrame_output hsound bytes hroom
  rw [heq] at hout
  subst hbytes
  cases hsent : (http2SendFrame ctx.io (frame.wire ctx.isClient ctx.maxConcurrentStreams)).2 with
  | false | true => simpa [sendRecorded, hsent, Http2Ctx.wire] using hout

theorem http2SendHeadersFrame_output (streamId : Nat) (fields : List Header) (endStream : Bool)
    (hroom : (http2SendHeadersFrame ctx streamId fields endStream).1.io.mostNeeded ≤ 2 ^ 30) :
    (http2SendHeadersFrame ctx streamId fields endStream).1.io.output =
      (http2SendHeadersFrame ctx streamId fields endStream).1.wire := by
  unfold http2SendHeadersFrame at hroom ⊢
  split
  · exact heq
  next encoder block hblock =>
  simp only [hblock] at hroom
  dsimp only at hroom ⊢
  split
  · exact heq
  next hfits =>
  rw [if_neg hfits] at hroom
  generalize hheader : http2WriteFrameHeader block.length frameHeaders
    ((if endStream then flagEndStream else 0) ||| flagEndHeaders) streamId = header at hroom ⊢
  have hfirst := http2SendFrame_output hsound header
  have htaken := fun hstatus => http2SendFrame_taken hsound hstatus header
  have hreach : IoReach ctx.io (http2SendFrame ctx.io header).1 := .send header (.refl _)
  have hneg : (http2SendFrame ctx.io header).2 = true → 0 ≤ ctx.io.status := fun hsent => by
    by_contra hneg
    rw [http2SendFrame_of_status_neg (Int.not_le.mp hneg)] at hsent
    cases hsent
  generalize http2SendFrame ctx.io header = r at hroom hfirst htaken hreach hneg ⊢
  obtain ⟨io, sent⟩ := r
  cases sent with
  | false => simpa [heq, Http2Ctx.wire] using hfirst hroom
  | true =>
  have hwire : ctx.wire ++ header ++ block = Http2Ctx.wire
      { ctx with sent := ctx.sent ++ [.headers streamId block endStream] } := by
    simp [Http2Ctx.wire, SentFrame.wire, wireFrame, hheader]
  simp only [if_true, heq] at hfirst
  dsimp only at hroom ⊢
  split
  next hempty =>
    rw [if_pos hempty] at hroom
    refine (hfirst hroom).trans (Eq.trans ?_ hwire)
    rw [length_eq_zero_iff.mp hempty, append_nil]
  next hnonempty =>
  rw [if_neg hnonempty] at hroom
  -- the block is taken because its header was
  have hfront : io.mostNeeded ≤ 2 ^ 30 := (http2SendFrame_kept io block).2.trans hroom
  have hstatus := (htaken (hneg rfl) hfront).2
  have hsecond := http2SendFrame_output (hreach.sound hsound) block hroom
  rw [(http2SendFrame_taken (hreach.sound hsound) (hstatus ▸ hneg rfl) block hroom).1,
    if_pos rfl, hfirst hfront] at hsecond
  exact hsecond.trans hwire

/-- **One change.**  It leaves the output alone, or sends a frame. -/
theorem Change.output {k : Kind} (h : Change ctx k ctx') (hroom : ctx'.io.mostNeeded ≤ 2 ^ 30) :
    ctx'.io.output = ctx'.wire := by
  cases h with
  | control bytes hframe hbytes => exact sendRecorded_output heq hsound hbytes hroom
  | windowUpdate | data => exact sendRecorded_output heq hsound rfl hroom
  | headers streamId fields endStream =>
    exact http2SendHeadersFrame_output heq hsound streamId fields endStream hroom
  | flushWrites =>
    have hout := http2SendFrame_output hsound [] hroom
    simp only [ite_self, append_nil] at hout
    exact hout.trans heq
  | create streamId =>
    unfold http2CreateStream
    split
    · exact heq
    · exact heq
  | remove p =>
    unfold http2RemoveStream
    dsimp only
    split
    · exact heq
    · exact heq
  | _ => exact heq

end

theorem Changes.output {K : List Kind} {ctx ctx' : Http2Ctx} (h : Changes K ctx ctx')
    (heq : ctx.io.output = ctx.wire) (hsound : ctx.io.Sound)
    (hroom : ctx'.io.mostNeeded ≤ 2 ^ 30) : ctx'.io.output = ctx'.wire := by
  induction h with
  | refl ctx => exact heq
  | cons hk hchange hrest ih =>
    refine ih (hchange.output heq hsound ?_) (hchange.kept.io.sound hsound) hroom
    exact hrest.kept.io.mostNeeded_mono.trans hroom

/--
**Output is loss-free.**  In every run of a connection over a transport without hard
errors that never has to keep more than `2 ^ 30` bytes, and for every pattern of whole
writes, partial writes and writes that would block, the bytes that the transport has
taken followed by the bytes that are kept for it are the wire encodings of the frames
that were sent, in order.
-/
theorem output_lossless
    (isClient : Bool) (server : CStr) (maxConcurrentStreams : Int) (bio : List BioWrite)
    (hbio : NoHardError bio) (events : List Event)
    (hroom : (run step (http2CtxNew isClient server maxConcurrentStreams bio)
      events).io.mostNeeded ≤ 2 ^ 30) :
    let ctx := run step (http2CtxNew isClient server maxConcurrentStreams bio) events
    ctx.io.written ++ ctx.io.pendingWriteBuffer =
      ctx.sent.flatMap (SentFrame.wire ctx.isClient ctx.maxConcurrentStreams) := by
  have hnew := http2CtxNew_changes isClient server maxConcurrentStreams bio
  have hsound : (http2CtxNew isClient server maxConcurrentStreams bio).io.Sound :=
    hnew.kept.io.sound ⟨hbio, .inl rfl⟩
  have hinv := @run_invariant _ _ step (fun _ _ => True)
    (fun ctx => ctx.io.Sound ∧ (ctx.io.mostNeeded ≤ 2 ^ 30 → ctx.io.output = ctx.wire))
    (fun ctx e h _ => ?_) _
    ⟨hsound, fun hroom => hnew.output rfl ⟨hbio, .inl rfl⟩ hroom⟩ events
    (admissible_true step _ events)
  · exact hinv.2 hroom
  · have hkept := (step_changes ctx e).kept.io
    exact ⟨hkept.sound h.1, fun hroom => (step_changes ctx e).output
      (h.2 (hkept.mostNeeded_mono.trans hroom)) h.1 hroom⟩

/-- The transport takes ten bytes of the connection preface and blocks. -/
theorem output_lossless_blocked :
    let ctx := run step (http2CtxNew true (CStr.ofString "dns") 0 [.accept 10, .again])
      [.streamNew, .flushWrites]
    ctx.io.written.length = 10 ∧ ctx.io.written ++ ctx.io.pendingWriteBuffer =
      ctx.sent.flatMap (SentFrame.wire ctx.isClient ctx.maxConcurrentStreams) :=
  ⟨by decide, output_lossless _ _ _ _ (by simp [NoHardError]) _ (by decide)⟩

/-! ### A frame of which only the header is kept -/

/-- A transport that takes nothing. -/
structure Http2Io.Blocked (io : Http2Io) : Prop where
  bio : io.bio = []
  status : io.status = 0
  written : io.written = []
  pending : io.pendingWriteBuffer ≠ []
  capacity : DoublingSize io.pendingWriteCapacity

theorem Http2Io.Blocked.keeps (h : io.Blocked) {data : Bytes} (hdata : data ≠ [])
    (hroom : io.pendingWriteBuffer.length + data.length ≤ 2 ^ 30) :
    (http2SendFrame io data).1.Blocked ∧ (http2SendFrame io data).2 = true ∧
      (http2SendFrame io data).1.pendingWriteBuffer = io.pendingWriteBuffer ++ data := by
  have hcapacity := http2SendFrame_capacity io data h.capacity
  obtain ⟨size, hsize⟩ : ∃ size, (if io.pendingWriteCapacity < io.pendingWriteBuffer.length +
      data.length then growBuffer 8192 io.pendingWriteCapacity (io.pendingWriteBuffer.length +
        data.length) else some io.pendingWriteCapacity) = some size := by
    split
    next hlt =>
      have hgrow := growBuffer_isSome (j := 13) (by omega) h.capacity hlt hroom
      norm_num at hgrow
      exact hgrow
    next => exact ⟨_, rfl⟩
  have hsend : http2SendFrame io data = ({ io with
      pendingWriteBuffer := io.pendingWriteBuffer ++ data
      pendingWriteCapacity := size
      wantWrite := true
      errno := .eagain
      mostNeeded := max io.mostNeeded (io.pendingWriteBuffer.length + data.length) }, true) := by
    simp [http2SendFrame, flushPendingWrite, bufferNewData, h.bio, h.pending, h.status, hdata,
      hsize]
  rw [hsend] at hcapacity ⊢
  exact ⟨⟨h.bio, h.status, h.written, by simp [hdata], hcapacity⟩, rfl, rfl⟩

theorem Http2Io.Blocked.refuses (h : io.Blocked) {data : Bytes} (hdata : data ≠ [])
    (hfull : 2 ^ 30 < io.pendingWriteBuffer.length + data.length) :
    (http2SendFrame io data).2 = false ∧ (http2SendFrame io data).1.status = 0 ∧
      (http2SendFrame io data).1.output = io.pendingWriteBuffer := by
  have hlt : io.pendingWriteCapacity < io.pendingWriteBuffer.length + data.length := by
    rcases h.capacity with hzero | ⟨k, hk, hpow⟩
    · omega
    · rw [hpow]
      exact (Nat.pow_le_pow_right (by omega) hk).trans_lt hfull
  have hgrow := growBuffer_eq_none (j := 13) (by omega) h.capacity hfull
  norm_num at hgrow
  simp [http2SendFrame, flushPendingWrite, bufferNewData, h.bio, h.pending, h.status, hdata, hlt,
    hgrow, Http2Io.output, h.written]

/-- The client with a stream. -/
def idleClient : Http2Ctx :=
  run step blockedClient [.streamNew]

def pingEvent : Event :=
  .recvFrame ⟨framePing, 0, 0, List.replicate 8 0⟩

def queryEvent : Event :=
  .setRequest 0 (CStr.ofString "POST") (CStr.ofString "/dns-query") none []

theorem run_queryEvent (ctx : Http2Ctx) :
    run step ctx [queryEvent] = (http2StreamSetRequest ctx 0 (CStr.ofString "POST")
      (CStr.ofString "/dns-query") none []).1 := rfl

/-- The client after pings: only what it has sent and what it keeps have changed. -/
structure Pinged (n : Nat) (ctx : Http2Ctx) : Prop where
  same : ctx = { idleClient with io := ctx.io, sent := ctx.sent }
  blocked : ctx.io.Blocked
  kept : ctx.io.pendingWriteBuffer.length = 57 + 17 * n
  wire : ctx.wire.length = 57 + 17 * n

theorem idleClient_pings {n : Nat} (hroom : 57 + 17 * n ≤ 2 ^ 30) :
    Pinged n (run step idleClient (List.replicate n pingEvent)) := by
  induction n with
  | zero =>
    refine ⟨rfl, ⟨rfl, rfl, by decide, by decide, ?_⟩, by decide, by decide⟩
    exact .inr ⟨13, by decide, by decide⟩
  | succ n ih =>
  have h := ih (by omega)
  rw [replicate_succ', run_append]
  generalize run step idleClient (List.replicate n pingEvent) = ctx at h ⊢
  have hopen : idleClient.ioClosed = false ∧ idleClient.localMaxFrameSize = 16384 ∧
      idleClient.continuationActive = false := by decide
  have hstep : run step ctx [pingEvent] = (http2SendPong ctx (List.replicate 8 0)).1 := by
    rw [h.same]
    simp [step, pingEvent, http2ProcessFrame, hopen, dispatchFrame, processPing, framePing,
      frameData, frameHeaders, frameContinuation, frameSettings, frameWindowUpdate,
      defaultMaxFrameSize, hasFlag]
  have hpong : (http2WriteFrameHeader 8 framePing flagAck 0 ++ List.replicate 8 0).length = 17 :=
    rfl
  have hkept := h.kept
  obtain ⟨hkeeps, hsent, hpending⟩ := h.blocked.keeps (ne_nil_of_length_eq_add_one hpong)
    (by omega)
  rw [hstep]
  refine ⟨?_, hkeeps, ?_, ?_⟩
  · conv_lhs => rw [h.same]
    rfl
  · refine (congrArg List.length hpending).trans ?_
    rw [length_append, hkept, hpong]
    omega
  · have hwire : (http2SendPong ctx (List.replicate 8 0)).1.wire =
        ctx.wire ++ SentFrame.wire ctx.isClient ctx.maxConcurrentStreams
          (.ping (List.replicate 8 0)) := by
      simp only [http2SendPong, sendRecorded, hsent, if_true, Http2Ctx.wire, flatMap_append,
        flatMap_singleton]
    rw [hwire, length_append, h.wire]
    exact congrArg (57 + 17 * n + ·) hpong

section Torn

variable {ctx : Http2Ctx} {encoder : HpackContext} {block : Bytes} {m : Nat}
variable (h : ctx.io.Blocked) (hlist : block.length ≤ ctx.peerMaxHeaderListSize)
variable (hkept : ctx.io.pendingWriteBuffer.length = m)
variable (hroom : m + 9 ≤ 2 ^ 30) (hfull : 2 ^ 30 < m + 9 + block.length)
include h hlist hkept hroom hfull

/-- The header of a HEADERS frame is kept, and its block is refused. -/
theorem http2SendHeadersFrame_torn {fields : List Header} (streamId : Nat) (endStream : Bool)
    (hblock : encodeHeaderList ctx.encoder fields [] 4096 = (encoder, some block)) :
    let ctx' := (http2SendHeadersFrame ctx streamId fields endStream).1
    ctx'.io.status = 0 ∧ ctx'.io.output.length = m + 9 ∧
      ctx'.wire.length = ctx.wire.length + 9 + block.length := by
  have hheader : (http2WriteFrameHeader block.length frameHeaders
      ((if endStream then flagEndStream else 0) ||| flagEndHeaders) streamId).length = 9 := rfl
  unfold http2SendHeadersFrame
  rw [hblock]
  dsimp only
  rw [if_neg (by omega)]
  obtain ⟨hkeeps, hsent, hpending⟩ := h.keeps (ne_nil_of_length_eq_add_one hheader)
    (by omega)
  generalize http2SendFrame ctx.io _ = r at hkeeps hsent hpending ⊢
  obtain ⟨io, ok⟩ := r
  obtain rfl : ok = true := hsent
  have hlen : io.pendingWriteBuffer.length = m + 9 := by
    rw [hpending, length_append, hheader, hkept]
  dsimp only
  rw [if_neg (by omega)]
  obtain ⟨-, hstatus, hout⟩ := hkeeps.refuses (length_pos_iff.mp (by omega))
    (by omega : 2 ^ 30 < io.pendingWriteBuffer.length + block.length)
  refine ⟨hstatus, by rw [hout, hlen], ?_⟩
  simp only [Http2Ctx.wire, SentFrame.wire, wireFrame, flatMap_append, flatMap_singleton,
    length_append, hheader, Nat.add_assoc]

theorem http2StreamSetRequest_torn {p : StreamPtr} {method path : CStr}
    (hlinked : (ctx.heap p).linked = true) (hblock : encodeHeaderList ctx.encoder
      (requestHeaders ctx method path none []) [] 4096 = (encoder, some block)) :
    let ctx' := (http2StreamSetRequest ctx p method path none []).1
    ctx'.io.status = 0 ∧ ctx'.io.output.length = m + 9 ∧
      ctx'.wire.length = ctx.wire.length + 9 + block.length := by
  unfold http2StreamSetRequest
  rw [if_neg (by simp [hlinked])]
  exact @http2SendHeadersFrame_torn (ctx.modifyStream p fun s =>
      { s with headerList := requestHeaders ctx method path none [] })
    encoder block m h hlist hkept hroom hfull _ _ _ hblock

end Torn

theorem idleClient_query :
    (idleClient.heap 0).linked = true ∧ 19 ≤ idleClient.peerMaxHeaderListSize ∧
      (encodeHeaderList idleClient.encoder (requestHeaders idleClient (CStr.ofString "POST")
        (CStr.ofString "/dns-query") none []) [] 4096).2.map List.length = some 19 := by
  decide +kernel

/-- The request of a client for which `n` pings have left room for the header of its frame
only. -/
theorem queryEvent_torn {n : Nat} (hroom : 57 + 17 * n + 9 ≤ 2 ^ 30)
    (hfull : 2 ^ 30 < 57 + 17 * n + 9 + 19) :
    let ctx := run step idleClient (List.replicate n pingEvent ++ [queryEvent])
    ctx.io.status = 0 ∧ ctx.io.output.length = 57 + 17 * n + 9 ∧
      ctx.wire.length = 57 + 17 * n + 9 + 19 := by
  have h := @idleClient_pings n (by omega)
  obtain ⟨hlinked, hlist, hblock⟩ := idleClient_query
  rw [run_append, run_queryEvent]
  generalize run step idleClient (List.replicate n pingEvent) = ctx at h ⊢
  cases hencoded : encodeHeaderList idleClient.encoder (requestHeaders idleClient
    (CStr.ofString "POST") (CStr.ofString "/dns-query") none []) [] 4096 with | mk encoder result =>
  rw [hencoded] at hblock
  obtain ⟨block, rfl, hnineteen⟩ := Option.map_eq_some_iff.mp hblock
  have hheap : ctx.heap = idleClient.heap := by rw [h.same]
  have hencoder : ctx.encoder = idleClient.encoder := by rw [h.same]
  have hpeer : ctx.peerMaxHeaderListSize = idleClient.peerMaxHeaderListSize := by
    rw [h.same]
  have hserver : ctx.server = idleClient.server := by rw [h.same]
  rw [← hheap] at hlinked
  rw [← hpeer, ← hnineteen] at hlist
  rw [← hencoder, requestHeaders, ← hserver] at hencoded
  obtain ⟨hstatus, hout, hwire⟩ := http2StreamSetRequest_torn h.blocked hlist h.kept hroom
    (hnineteen ▸ hfull) hlinked hencoded
  rw [h.wire, hnineteen] at hwire
  exact ⟨hstatus, hout, hwire⟩

/-- After 63161279 pings that a blocked transport leaves unanswered, 15 bytes can be kept: the
client's request leaves the header of a HEADERS frame without its block, and the connection
stands. -/
theorem headers_frame_torn :
    let ctx := run step (http2CtxNew true (CStr.ofString "dns") 0 [])
      ([.streamNew] ++ (List.replicate 63161279 pingEvent ++ [queryEvent]))
    ctx.io.status = 0 ∧ ctx.io.written ++ ctx.io.pendingWriteBuffer ≠
      ctx.sent.flatMap (SentFrame.wire ctx.isClient ctx.maxConcurrentStreams) := by
  have hidle : run step (http2CtxNew true (CStr.ofString "dns") 0 []) [.streamNew] = idleClient :=
    rfl
  obtain ⟨hstatus, hout, hwire⟩ := @queryEvent_torn 63161279 (by norm_num) (by norm_num)
  rw [run_append, hidle]
  generalize run step idleClient _ = ctx at hstatus hout hwire ⊢
  refine ⟨hstatus, fun heq => ?_⟩
  have hlength := hout.symm.trans ((congrArg List.length heq).trans hwire)
  omega

end SmartDns.Http2
