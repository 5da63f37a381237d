import SmartDns.Http2.Quiet

/-!
# Header blocks and the HPACK decoder

The HPACK decoder belongs to the connection: a header block that is not run
through it leaves its table behind the peer's.  `BlockAssembly` puts the
header blocks together from the frames alone; the connection decodes them
unless a frame arrives for a stream that is closed and read to its end.
-/

namespace SmartDns.Http2

open Hpack

variable {ctx ctx' : Http2Ctx} {refuse : Bool} {streamId : Nat} {fragment : Bytes}
variable {a : BlockAssembly}

/-- The header blocks of a sequence of frames: the one under assembly, and
those that are complete, in arrival order. -/
structure BlockAssembly where
  buffer : Bytes := []
  complete : List Bytes := []

/-- A fragment belongs to the block under assembly. -/
def BlockAssembly.append (a : BlockAssembly) (fragment : Bytes) (endHeaders : Bool) :
    BlockAssembly :=
  if endHeaders then ⟨[], a.complete ++ [a.buffer ++ fragment]⟩
  else ⟨a.buffer ++ fragment, a.complete⟩

/-- A HEADERS frame starts a block, a CONTINUATION frame goes on with it. -/
def BlockAssembly.receive (a : BlockAssembly) (f : Frame) : BlockAssembly :=
  if f.type = frameHeaders then
    match headersFragment f.payload f.flags with
    | none => a
    | some fragment =>
      { a with buffer := [] }.append fragment
        (hasFlag f.flags flagEndHeaders)
  else if f.type = frameContinuation then a.append f.payload (hasFlag f.flags flagEndHeaders)
  else a

/-- The frames that arrive while the transport is open. -/
def observeBlocks (ctx : Http2Ctx) : Event → BlockAssembly → BlockAssembly
  | .recvFrame f, a => if ctx.ioClosed then a else a.receive f
  | _, a => a

/-- No HEADERS or CONTINUATION frame arrives for a stream that is closed and
read to its end. -/
def headersReachDecoder (ctx : Http2Ctx) : Event → Prop
  | .recvFrame f =>
    f.type = frameHeaders ∨ f.type = frameContinuation →
      ∀ p, http2FindStream ctx f.streamId = some p →
        ¬((ctx.heap p).state = .closed ∧ (ctx.heap p).endStreamReadHandled)
  | _ => True

/-- The part of the connection that header blocks go through. -/
structure BlockState where
  active : Bool
  buffer : Bytes
  decoded : List Bytes
  decoder : HpackContext

def blockState (ctx : Http2Ctx) : BlockState where
  active := ctx.continuationActive
  buffer := ctx.headerBlockBuffer
  decoded := ctx.decoded
  decoder := ctx.decoder

/-- A block is complete and goes through the decoder. -/
def BlockState.decode (b : BlockState) : BlockState where
  active := false
  buffer := []
  decoded := b.decoded ++ [b.buffer].filter (· ≠ [])
  decoder := decoderAfter b.decoder [b.buffer]

/-- A fragment is appended, and the block decoded when it is complete. -/
def BlockState.append (b : BlockState) (fragment : Bytes) (endHeaders : Bool) : BlockState :=
  if endHeaders then { b with buffer := b.buffer ++ fragment }.decode
  else { b with active := true, buffer := b.buffer ++ fragment }

theorem HeadersKept.blockState (h : HeadersKept ctx ctx') : blockState ctx' = blockState ctx := by
  have hview := h.headers
  simp only [Http2Ctx.headerView, HeaderView.mk.injEq] at hview
  simp only [Http2.blockState, hview]

theorem runDecoder_ctx (ctx : Http2Ctx) (target : HeaderTarget) :
    (runDecoder ctx target).ctx = decoderAfter ctx.decoder [ctx.headerBlockBuffer] := by
  unfold runDecoder decoderAfter
  split
  next hnil => simp [hnil, hpackDecodeHeaders, hpackDecodeHeadersLoop]
  · exact hpackDecodeHeadersLoop_ctx _ _ _ _ _ _

theorem decoderRan_blockState (ctx : Http2Ctx) (target : HeaderTarget) :
    blockState (http2ClearContinuation (decoderRan ctx target)) = (blockState ctx).decode := by
  have hctx := runDecoder_ctx ctx target
  have hlog : (if ctx.headerBlockBuffer = [] then ctx.decoded
        else ctx.decoded ++ [ctx.headerBlockBuffer]) =
      ctx.decoded ++ [ctx.headerBlockBuffer].filter (· ≠ []) := by
    split
    next hnil => simp [hnil]
    next hne => simp [hne]
  unfold decoderRan
  rw [hctx, hlog]
  cases target
  all_goals rfl

/-- A complete block goes through the decoder, whatever its stream is. -/
theorem decodeHeaderBlock_blockState {target : HeaderTarget} {headersFlags : Nat}
    (hok : (decodeHeaderBlock ctx target refuse streamId headersFlags).2 = true) :
    blockState (decodeHeaderBlock ctx target refuse streamId headersFlags).1 =
      (blockState ctx).decode := by
  rw [← decoderRan_blockState ctx target]
  unfold decodeHeaderBlock at hok ⊢
  dsimp only at hok ⊢
  split
  next hfail => simp [hfail] at hok
  split
  · exact ((http2SendRstStream_still _ Kind.plain_only _ _).changes.headersKept
    (by simp)).blockState
  split
  · exact ((headersReceived_traced (A := fun _ _ => True) _ Kind.plain_only _ _
      ⟨fun _ _ => trivial, trivial⟩).changes.headersKept (by simp)).blockState
  · rfl

theorem appendHeaderBlock_blockState {target : HeaderTarget} {flags : Nat} {isContinuation : Bool}
    (hcont : isContinuation = true → ctx.continuationActive = true)
    (hok : (appendHeaderBlock ctx target refuse streamId fragment flags isContinuation).2 = true) :
    blockState (appendHeaderBlock ctx target refuse streamId fragment flags isContinuation).1 =
      (blockState ctx).append fragment (hasFlag flags flagEndHeaders) := by
  have hfields : HeadersKept ctx
        (if isContinuation then ctx else setTargetHeaders ctx [] target) := by
    split
    · exact (Quiet.refl ctx).headersKept
    · exact (setTargetHeaders_still ctx Kind.plain_only [] target).changes.headersKept (by simp)
  rw [← hfields.blockState]
  have hactive : isContinuation = true → (if isContinuation then ctx else
          setTargetHeaders ctx [] target).continuationActive = true := by
    intro h
    simpa [h] using hcont h
  unfold appendHeaderBlock at hok ⊢
  dsimp only at hok ⊢
  generalize (if isContinuation then ctx else setTargetHeaders ctx [] target) = ctx'
    at hok hactive ⊢
  unfold BlockState.append
  split
  next hbig => simp [hbig] at hok
  next hbig =>
  rw [if_neg hbig] at hok
  by_cases hend : hasFlag flags flagEndHeaders = true
  · simp only [hend, Bool.not_true, Bool.false_eq_true, if_false] at hok ⊢
    exact decodeHeaderBlock_blockState hok
  simp only [hend, Bool.not_false, if_true]
  by_cases hc : isContinuation = true
  · simp only [hc, if_true]
    simp [blockState, hactive hc]
  · simp only [hc]
    rfl

/-- A fragment reaches the block under assembly, unless its stream is closed
and read to its end. -/
theorem headersForStream_blockState {flags : Nat} {isContinuation : Bool}
    (hcont : isContinuation = true → ctx.continuationActive = true)
    (hreach : ∀ p, http2FindStream ctx streamId = some p →
      ¬((ctx.heap p).state = .closed ∧ (ctx.heap p).endStreamReadHandled))
    (hok : (headersForStream ctx streamId fragment flags isContinuation refuse).2 = true) :
    blockState (headersForStream ctx streamId fragment flags isContinuation refuse).1 =
      (blockState ctx).append fragment (hasFlag flags flagEndHeaders) := by
  unfold headersForStream at hok ⊢
  cases hfind : http2FindStream ctx streamId with
  | none =>
    simp only [hfind] at hok ⊢
    split
    next hunknown => simp [hunknown, failConnection] at hok
    next hunknown =>
    rw [if_neg hunknown] at hok
    split
    next hrefuse =>
      rw [if_pos hrefuse] at hok
      exact appendHeaderBlock_blockState hcont hok
    next hrefuse =>
    rw [if_neg hrefuse] at hok
    have hcreate := http2CreateStream_quiet ctx streamId
    generalize http2CreateStream ctx streamId = r
      at hok hcreate ⊢
    obtain ⟨ctx', _ | p⟩ := r
    · simp at hok
    have hsame := hcreate.headersKept.blockState
    rw [← hsame]
    refine appendHeaderBlock_blockState (fun h => ?_) hok
    exact (congrArg BlockState.active hsame).trans (hcont h)
  | some p =>
  have hclosed := hreach p hfind
  simp only [hfind] at hok ⊢
  split
  next hended =>
    rw [if_pos hended] at hok
    split
    next hskip => exact absurd (by simpa using hskip) hclosed
    next hskip => simp [hskip] at hok
  next hended =>
    rw [if_neg hended] at hok
    exact appendHeaderBlock_blockState hcont hok

/-- The connection has decoded the complete blocks of an assembly. -/
structure BlocksDecoded (ctx : Http2Ctx) (a : BlockAssembly) : Prop where
  idle : ctx.continuationActive = false → a.buffer = []
  buffer : ctx.headerBlockBuffer = a.buffer
  decoded : ctx.decoded = a.complete.filter (· ≠ [])
  decoder : ctx.decoder = decoderAfter hpackInitContext a.complete

theorem BlocksDecoded.of_blockState
    (h : BlocksDecoded ctx a) (heq : blockState ctx' = blockState ctx) :
    BlocksDecoded ctx' a := by
  simp only [blockState, BlockState.mk.injEq] at heq
  obtain ⟨hactive, hbuffer, hdecoded, hdecoder⟩ := heq
  exact ⟨fun hidle => h.idle (hactive ▸ hidle), hbuffer.trans h.buffer,
    hdecoded.trans h.decoded, hdecoder.trans h.decoder⟩

/-- A fragment that reaches the connection's block is in both assemblies. -/
theorem BlocksDecoded.append (h : BlocksDecoded ctx a) {endHeaders : Bool}
    (heq : blockState ctx' = (blockState ctx).append fragment endHeaders) :
    BlocksDecoded ctx' (a.append fragment endHeaders) := by
  cases endHeaders with
  | false =>
    simp only [blockState, BlockState.append, Bool.false_eq_true,
      if_false, BlockState.mk.injEq] at heq
    obtain ⟨hactive, hbuffer, hdecoded, hdecoder⟩ := heq
    refine ⟨fun hidle => ?_, ?_, hdecoded.trans h.decoded, hdecoder.trans h.decoder⟩
    · simp [hactive] at hidle
    · rw [hbuffer, h.buffer]
      rfl
  | true =>
  simp only [blockState, BlockState.append, BlockState.decode, if_true,
    BlockState.mk.injEq] at heq
  obtain ⟨-, hbuffer, hdecoded, hdecoder⟩ := heq
  refine ⟨fun _ => rfl, hbuffer, ?_, ?_⟩
  · rw [hdecoded, h.buffer, h.decoded, ← List.filter_append]
    rfl
  · rw [hdecoder, h.buffer, h.decoder]
    simp [BlockAssembly.append, decoderAfter]

theorem blocksDecoded_headers
    {f : Frame} (htype : f.type = frameHeaders) (hidle : ctx.continuationActive = false)
    (hreach : headersReachDecoder ctx (.recvFrame f)) (h : BlocksDecoded ctx a)
    (hok : (http2ProcessHeadersFrame ctx f.streamId f.payload f.flags).2 = true) :
    BlocksDecoded (http2ProcessHeadersFrame ctx f.streamId f.payload f.flags).1 (a.receive f) := by
  unfold http2ProcessHeadersFrame at hok ⊢
  by_cases hid : f.streamId = 0
  · simp [hid, failConnection] at hok
  simp only [if_neg hid, hidle, Bool.false_eq_true, if_false] at hok ⊢
  have hstart : { a with buffer := [] } = a := by rw [← h.idle hidle]
  unfold BlockAssembly.receive
  rw [if_pos htype, hstart]
  cases hfrag : headersFragment f.payload f.flags with
  | none => simp [hfrag] at hok
  | some fragment =>
    simp only [hfrag] at hok ⊢
    exact h.append (headersForStream_blockState (by simp) (hreach (.inl htype)) hok)

theorem blocksDecoded_continuation {f : Frame} (htype : f.type = frameContinuation)
    (hreach : headersReachDecoder ctx (.recvFrame f)) (h : BlocksDecoded ctx a)
    (hok : (http2ProcessContinuationFrame ctx f.streamId f.payload f.flags).2 = true) :
    BlocksDecoded (http2ProcessContinuationFrame ctx f.streamId f.payload f.flags).1
      (a.receive f) := by
  unfold http2ProcessContinuationFrame at hok ⊢
  by_cases hid : f.streamId = 0
  · simp [hid, failConnection] at hok
  rw [if_neg hid] at hok ⊢
  split
  next hother =>
    rw [if_pos hother] at hok
    simp [failConnection] at hok
  next hother =>
  rw [if_neg hother] at hok
  split
  next hflags => simp [hflags, failConnection] at hok
  next hflags =>
  rw [if_neg hflags] at hok
  have hactive : ctx.continuationActive = true := by
    by_contra hidle
    simp [hidle] at hother
  unfold BlockAssembly.receive
  rw [if_neg (by rw [htype]; decide), if_pos htype]
  exact h.append (headersForStream_blockState (fun _ => hactive) (hreach (.inr htype)) hok)

/-- One event keeps the connection in step with the blocks received. -/
theorem blocksDecoded_step
    {e : Event} (hreach : headersReachDecoder ctx e) (h : 0 ≤ ctx.status → BlocksDecoded ctx a)
    (hok : 0 ≤ (step ctx e).status) :
    BlocksDecoded (step ctx e) (observeBlocks ctx e a) := by
  have hb := h ((step_kept ctx e).status_nonneg hok)
  by_cases hframe : ∃ f, e = .recvFrame f ∧
      (f.type = frameHeaders ∨ f.type = frameContinuation) ∧
      ctx.ioClosed = false
  · obtain ⟨f, rfl, htype, hopen⟩ := hframe
    obtain ⟨hdispatch, hcont⟩ := http2ProcessFrame_ok hopen hok
    have hnodata : f.type ≠ frameData := by
      rcases htype with h | h
      all_goals
        rw [h]
        decide
    simp only [step, hdispatch, dispatchFrame, if_neg hnodata] at hok ⊢
    simp only [observeBlocks, hopen, Bool.false_eq_true, if_false]
    by_cases hheaders : f.type = frameHeaders
    · simp only [if_pos hheaders] at hok ⊢
      obtain ⟨hsucc, heq⟩ := frameResult_ok hok
      rw [heq]
      refine blocksDecoded_headers hheaders ?_ hreach hb hsucc
      by_contra hactive
      have hcontinuation := hcont (by simpa using hactive)
      rw [hheaders] at hcontinuation
      exact absurd hcontinuation (by decide)
    · have hcontinuation := htype.resolve_left hheaders
      simp only [if_neg hheaders, if_pos hcontinuation] at hok ⊢
      obtain ⟨hsucc, heq⟩ := frameResult_ok hok
      rw [heq]
      exact blocksDecoded_continuation hcontinuation hreach hb hsucc
  · have hsame : observeBlocks ctx e a = a := by
      cases e with
      | recvFrame f =>
        simp only [observeBlocks]
        split
        · rfl
        next hopen =>
          have htype :
              ¬(f.type = frameHeaders ∨ f.type = frameContinuation) :=
            fun h => hframe ⟨f, rfl, h, by simpa using hopen⟩
          rw [not_or] at htype
          rw [BlockAssembly.receive, if_neg htype.1, if_neg htype.2]
      | _ => rfl
    rw [hsame]
    refine hb.of_blockState ?_
    by_cases htype :
        e.hasType frameHeaders = true ∨ e.hasType frameContinuation = true
    · cases e with
      | recvFrame f =>
        have hclosed : ctx.ioClosed = true := by
          by_contra hopen
          exact hframe ⟨f, rfl, by simpa [Event.hasType] using htype,
            by simpa using hopen⟩
        simp [step, http2ProcessFrame, hclosed]
      | _ => simp [Event.hasType] at htype
    · rw [not_or] at htype
      exact (step_headersKept ctx (by simpa using htype.1)
        (by simpa using htype.2)).blockState

/--
**Every header block is decoded.**  In every run in which no header frame
arrives for a stream that is closed and read to its end, as long as the status
is not an error, the blocks that went through the decoder are the complete
blocks received, each once and in arrival order.  The decoder is not called
for an empty block, which would not change it.
-/
theorem decoded_eq_complete (isClient : Bool) (server : CStr) (maxConcurrentStreams : Int)
    (bio : List BioWrite) (events : List Event) (hreach : Admissible step headersReachDecoder
      (http2CtxNew isClient server maxConcurrentStreams bio) events)
    (hok : 0 ≤ (run step (http2CtxNew isClient server maxConcurrentStreams bio) events).status) :
    (run step (http2CtxNew isClient server maxConcurrentStreams bio) events).decoded =
        (observed step observeBlocks (http2CtxNew isClient server maxConcurrentStreams bio) {}
          events).complete.filter (· ≠ []) ∧
      (run step (http2CtxNew isClient server maxConcurrentStreams bio) events).decoder =
        decoderAfter hpackInitContext (observed step observeBlocks
            (http2CtxNew isClient server maxConcurrentStreams bio) {} events).complete := by
  have hinit : BlocksDecoded (http2CtxNew isClient server maxConcurrentStreams bio) {} := by
    have hnew : BlocksDecoded (http2CtxInitCommon isClient server maxConcurrentStreams bio) {} :=
      ⟨fun _ => rfl, rfl, rfl, rfl⟩
    exact hnew.of_blockState (http2CtxNew_quiet _ _ _ _).headersKept.blockState
  have hrun := observed_invariant step observeBlocks
    (fun ctx a => 0 ≤ ctx.status → BlocksDecoded ctx a)
    (fun _ _ _ h hreach => blocksDecoded_step hreach h)
    (fun _ => hinit) hreach hok
  exact ⟨hrun.decoded, hrun.decoder⟩

/-- The header `a: b`, to be added to the table, on stream 1. -/
def plainHeaders : Event :=
  .recvFrame ⟨frameHeaders, flagEndHeaders, 1, [0x40, 1, 97, 1, 98]⟩

/-- The same block in two frames. -/
def splitHeaders : List Event :=
  [.streamNew, .recvFrame ⟨frameHeaders, 0, 1, [0x40, 1, 97]⟩,
    .recvFrame ⟨frameContinuation, flagEndHeaders, 1, [1, 98]⟩]

theorem decoded_eq_complete_splitHeaders :
    (run step blockedClient splitHeaders).decoded = [[0x40, 1, 97, 1, 98]] ∧
      (run step blockedClient splitHeaders).decoded =
        (observed step observeBlocks blockedClient {} splitHeaders).complete.filter (· ≠ []) := by
  refine ⟨by decide +kernel, (decoded_eq_complete true (CStr.ofString "dns") 0 [] splitHeaders
    ⟨trivial, ?_, ?_, trivial⟩ (by decide +kernel)).1⟩
  all_goals
    intro _ p hp
    obtain rfl : 0 = p := Option.some.inj hp
    decide +kernel

/-- The peer resets stream 1, the application reads the end of the stream, and
headers that were under way arrive. -/
def lateHeadersRun : List Event :=
  [.streamNew, .recvFrame ⟨frameRstStream, 0, 1, [0, 0, 0, 8]⟩, .readBody 0 16 none, plainHeaders]

/-- A header block for a stream that was reset and read is not decoded, and
the connection goes on. -/
theorem late_headers_not_decoded :
    0 ≤ (run step blockedClient lateHeadersRun).status ∧
      (run step blockedClient lateHeadersRun).decoded ≠
        (observed step observeBlocks blockedClient {} lateHeadersRun).complete.filter (· ≠ []) := by
  decide +kernel

end SmartDns.Http2
