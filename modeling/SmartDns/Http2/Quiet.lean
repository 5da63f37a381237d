import SmartDns.Http2.Walk

/-!
# What the parts of the connection leave alone

The receiving side of a connection is the HPACK decoder, the header block
under assembly and the receive window.  Everything but the handlers of HEADERS,
CONTINUATION and DATA frames leaves it alone; `Quiet` says so.  `Kept` is the
part that holds for every event.
-/

namespace SmartDns.Http2

open Hpack

/-- The credit that a frame returns to the peer's connection window. -/
def connCredit : SentFrame → Nat
  | .windowUpdate 0 increment => increment
  | _ => 0

/-- The sum of all increments sent in WINDOW_UPDATE frames for stream 0. -/
def totalConnCredit (frames : List SentFrame) : Nat :=
  (frames.map connCredit).sum

@[simp] theorem totalConnCredit_append (frames frames' : List SentFrame) :
    totalConnCredit (frames ++ frames') = totalConnCredit frames + totalConnCredit frames' := by
  simp [totalConnCredit]

/-- The decoder and the header block under assembly. -/
structure HeaderView where
  decoder : HpackContext
  decoded : List Bytes
  headerBlockBuffer : Bytes
  continuationStreamId : Nat
  continuationFlags : Nat
  continuationActive : Bool
  continuationRefuseStream : Bool

def Http2Ctx.headerView (ctx : Http2Ctx) : HeaderView where
  decoder := ctx.decoder
  decoded := ctx.decoded
  headerBlockBuffer := ctx.headerBlockBuffer
  continuationStreamId := ctx.continuationStreamId
  continuationFlags := ctx.continuationFlags
  continuationActive := ctx.continuationActive
  continuationRefuseStream := ctx.continuationRefuseStream

/-- The connection's receive window and the credit returned for it. -/
def Http2Ctx.recvWindow (ctx : Http2Ctx) : Int × Nat :=
  (ctx.recvConnWindowSize, totalConnCredit ctx.sent)

/-- What every event keeps. -/
structure Kept (ctx ctx' : Http2Ctx) : Prop where
  io : IoReach ctx.io ctx'.io
  encoder : ctx.encoder.Wf → ctx'.encoder.Wf
  silent : ctx.status < 0 → ctx'.sent = ctx.sent

/-- A change that leaves the receiving side alone. -/
structure Quiet (ctx ctx' : Http2Ctx) : Prop extends Kept ctx ctx' where
  headers : ctx'.headerView = ctx.headerView
  window : ctx'.recvWindow = ctx.recvWindow

/-- A change that leaves the decoder and the header block alone. -/
structure HeadersKept (ctx ctx' : Http2Ctx) : Prop
    extends Kept ctx ctx' where
  headers : ctx'.headerView = ctx.headerView

/-- A change that leaves the receive window alone. -/
structure WindowKept (ctx ctx' : Http2Ctx) : Prop
    extends Kept ctx ctx' where
  window : ctx'.recvWindow = ctx.recvWindow

variable {ctx ctx' : Http2Ctx} {k : Kind}

theorem Kept.refl (ctx : Http2Ctx) : Kept ctx ctx :=
  ⟨.refl _, id, fun _ => rfl⟩

theorem Kept.trans {ctx₁ ctx₂ ctx₃ : Http2Ctx} (h₁ : Kept ctx₁ ctx₂) (h₂ : Kept ctx₂ ctx₃) :
    Kept ctx₁ ctx₃ :=
  ⟨h₁.io.trans h₂.io, h₂.encoder ∘ h₁.encoder, fun hneg =>
    (h₂.silent (h₁.io.status_neg hneg)).trans (h₁.silent hneg)⟩

theorem Kept.status_nonneg (h : Kept ctx ctx') (hok : 0 ≤ ctx'.status) :
    0 ≤ ctx.status :=
  h.io.status_nonneg hok

theorem Quiet.refl (ctx : Http2Ctx) : Quiet ctx ctx :=
  ⟨.refl _, rfl, rfl⟩

theorem Quiet.headersKept (h : Quiet ctx ctx') : HeadersKept ctx ctx' :=
  ⟨h.toKept, h.headers⟩

theorem Quiet.windowKept (h : Quiet ctx ctx') : WindowKept ctx ctx' :=
  ⟨h.toKept, h.window⟩

section

variable (ctx : Http2Ctx)

theorem setStream_quiet (p : StreamPtr) (s : Http2Stream) : Quiet ctx (ctx.setStream p s) :=
  ⟨⟨.refl _, id, fun _ => rfl⟩, rfl, rfl⟩

theorem modifyStream_quiet (p : StreamPtr) (f : Http2Stream → Http2Stream) :
    Quiet ctx (ctx.modifyStream p f) :=
  setStream_quiet ctx p _

theorem sendRecorded_kept (bytes : Bytes) (frame : SentFrame) :
    Kept ctx (sendRecorded ctx bytes frame).1 := by
  refine ⟨.send bytes (.refl _), id, fun hneg => ?_⟩
  simp [sendRecorded, http2SendFrame_of_status_neg hneg]

theorem sendRecorded_recvWindow
    (bytes : Bytes) {frame : SentFrame} (hframe : connCredit frame = 0) :
    (sendRecorded ctx bytes frame).1.recvWindow = ctx.recvWindow := by
  have hcredit : totalConnCredit (sendRecorded ctx bytes frame).1.sent =
      totalConnCredit ctx.sent := by
    simp only [sendRecorded]
    split
    · simp [totalConnCredit, hframe]
    · rfl
  simp only [Http2Ctx.recvWindow, hcredit]
  rfl

theorem encodeHeaderList_wf {encoder : HpackContext} (hwf : encoder.Wf) (fields : List Header)
    (block : Bytes) (size : Nat) :
    (encodeHeaderList encoder fields block size).1.Wf := by
  induction fields generalizing encoder block size with
  | nil => exact hwf
  | cons field fields ih =>
  unfold encodeHeaderList
  split
  · exact hwf
  split
  · exact hwf
  next henc => exact ih (hpackEncodeHeader_wf hwf henc) _ _

theorem http2SendHeadersFrame_quiet (streamId : Nat) (fields : List Header) (endStream : Bool) :
    Quiet ctx (http2SendHeadersFrame ctx streamId fields endStream).1 := by
  have hwf : ctx.encoder.Wf → (encodeHeaderList ctx.encoder fields [] 4096).1.Wf :=
    fun hwf => encodeHeaderList_wf hwf fields [] 4096
  have hcredit : ∀ block : Bytes, totalConnCredit [.headers streamId block endStream] = 0 :=
    fun _ => rfl
  unfold http2SendHeadersFrame
  split
  next heq => exact ⟨⟨.refl _, by rwa [heq] at hwf, fun _ => rfl⟩, rfl, rfl⟩
  next encoder block heq =>
  rw [heq] at hwf
  dsimp only
  split
  · exact ⟨⟨.refl _, hwf, fun _ => rfl⟩, rfl, rfl⟩
  generalize http2WriteFrameHeader block.length frameHeaders
      ((if endStream then flagEndStream else 0) ||| flagEndHeaders)
      streamId = header
  have hfirst := IoReach.send header (.refl ctx.io)
  have hrefused : ctx.status < 0 → (http2SendFrame ctx.io header).2 = false :=
    fun hneg => by rw [http2SendFrame_of_status_neg hneg]
  generalize http2SendFrame ctx.io header = r at hfirst hrefused ⊢
  obtain ⟨io, ok⟩ := r
  cases ok with
  | false => exact ⟨⟨hfirst, hwf, fun _ => rfl⟩, rfl, rfl⟩
  | true =>
  have hsilent : ¬ctx.status < 0 := fun hneg => absurd (hrefused hneg) (by simp)
  dsimp only
  split
  · exact ⟨⟨hfirst, hwf, fun h => absurd h hsilent⟩, rfl, by simp [Http2Ctx.recvWindow, hcredit]⟩
  · exact ⟨⟨hfirst.send block, hwf, fun h => absurd h hsilent⟩, rfl,
      by simp [Http2Ctx.recvWindow, hcredit]⟩

/-! ### What the changes keep -/

theorem http2CreateStream_quiet (streamId : Nat) :
    Quiet ctx (http2CreateStream ctx streamId).1 := by
  unfold http2CreateStream
  split
  · exact ⟨⟨.errno _ (.refl _), id, fun _ => rfl⟩, rfl, rfl⟩
  · exact ⟨⟨.refl _, id, fun _ => rfl⟩, rfl, rfl⟩

theorem http2RemoveStream_quiet (p : StreamPtr) : Quiet ctx (http2RemoveStream ctx p) := by
  unfold http2RemoveStream
  dsimp only
  split
  all_goals exact ⟨⟨.refl _, id, fun _ => rfl⟩, rfl, rfl⟩

theorem http2CtxDisconnect_io : IoReach ctx.io (http2CtxDisconnect ctx).io := by
  unfold http2CtxDisconnect
  split
  · exact .wantWrite false (.status errEof (by decide) (.refl _))
  · exact .wantWrite false (.refl _)

end

theorem Change.kept (h : Change ctx k ctx') : Kept ctx ctx' := by
  cases h with
  | errno e => exact ⟨.errno e (.refl _), id, fun _ => rfl⟩
  | status hneg => exact ⟨.status _ hneg (.refl _), id, fun _ => rfl⟩
  | headers streamId fields endStream =>
    exact (http2SendHeadersFrame_quiet ctx streamId fields endStream).toKept
  | flushWrites => exact ⟨.send [] (.refl _), id, fun _ => rfl⟩
  | disconnect => exact ⟨http2CtxDisconnect_io ctx, id, fun _ => rfl⟩
  | encoder value =>
    refine ⟨.refl _, fun hwf => ?_, fun _ => rfl⟩
    exact hpackResizeDynamicTable_wf hwf.toAccounted (lt_of_le_of_lt (min_le_right _ _) (by decide))
  | create streamId => exact (http2CreateStream_quiet ctx streamId).toKept
  | remove p => exact (http2RemoveStream_quiet ctx p).toKept
  | control | windowUpdate | data => exact sendRecorded_kept ctx _ _
  | _ => exact ⟨.refl _, id, fun _ => rfl⟩

theorem Change.headerView_eq (h : Change ctx k ctx') (hk : k ≠ .headerBlock) :
    ctx'.headerView = ctx.headerView := by
  cases h with
  | headers streamId fields endStream =>
    exact (http2SendHeadersFrame_quiet ctx streamId fields endStream).headers
  | create streamId => exact (http2CreateStream_quiet ctx streamId).headers
  | remove p => exact (http2RemoveStream_quiet ctx p).headers
  | decoder | headerBlock | continuation => exact absurd rfl hk
  | _ => rfl

theorem Change.recvWindow_eq (h : Change ctx k ctx') (hk : k ≠ .recvWindow) :
    ctx'.recvWindow = ctx.recvWindow := by
  cases h with
  | @control bytes frame hframe hbytes =>
    refine sendRecorded_recvWindow ctx bytes ?_
    cases frame <;> first | rfl | cases hframe
  | headers streamId fields endStream =>
    exact (http2SendHeadersFrame_quiet ctx streamId fields endStream).window
  | create streamId => exact (http2CreateStream_quiet ctx streamId).window
  | remove p => exact (http2RemoveStream_quiet ctx p).window
  | data p streamId endStream hfits => exact sendRecorded_recvWindow ctx _ rfl
  | windowUpdate | recvWindow => exact absurd rfl hk
  | _ => rfl

namespace Changes

variable {K : List Kind} (h : Changes K ctx ctx')
include h

theorem kept : Kept ctx ctx' :=
  h.related Kept.refl Kept.trans fun _ => Change.kept

theorem headersKept (hK : .headerBlock ∉ K) : HeadersKept ctx ctx' :=
  ⟨h.kept, h.related (R := fun ctx ctx' => ctx'.headerView = ctx.headerView) (fun _ => rfl)
    (fun h₁ h₂ => h₂.trans h₁) fun hk hc => hc.headerView_eq (ne_of_mem_of_not_mem hk hK)⟩

theorem windowKept (hK : .recvWindow ∉ K) : WindowKept ctx ctx' :=
  ⟨h.kept, h.related (R := fun ctx ctx' => ctx'.recvWindow = ctx.recvWindow) (fun _ => rfl)
    (fun h₁ h₂ => h₂.trans h₁) fun hk hc => hc.recvWindow_eq (ne_of_mem_of_not_mem hk hK)⟩

theorem quiet (hblock : .headerBlock ∉ K) (hwindow : .recvWindow ∉ K) : Quiet ctx ctx' :=
  ⟨h.kept, (h.headersKept hblock).headers, (h.windowKept hwindow).window⟩

end Changes

theorem Sending.kept {A : StreamTable → TableOp → Prop} {p : StreamPtr}
    (h : Sending [.plain, .body p, .remove] A p ctx ctx') : Kept ctx ctx' :=
  h.changes.kept

/-! ### Events -/

/-- The event is the arrival of a frame of the given type. -/
def Event.hasType (type : Nat) : Event → Bool
  | .recvFrame f => f.type == type
  | _ => false

/-- A frame leaves a healthy connection only when its handler succeeded. -/
theorem frameResult_ok {r : Http2Ctx × Bool} (hok : 0 ≤ (frameResult r).status) :
    r.2 = true ∧ frameResult r = r.1 := by
  unfold frameResult at hok ⊢
  by_cases hr : r.2 = true
  · simp [hr]
  simp only [hr, Bool.false_eq_true, if_false] at hok
  split at hok
  · exact absurd hok (by simp [errProtocol])
  · contradiction

/-- A frame that leaves the connection healthy went through the switch. -/
theorem http2ProcessFrame_ok {ctx : Http2Ctx} {f : Frame} (hopen : ctx.ioClosed = false)
    (hok : 0 ≤ (http2ProcessFrame ctx f).status) :
    http2ProcessFrame ctx f = dispatchFrame ctx f ∧
      (ctx.continuationActive = true → f.type = frameContinuation) := by
  unfold http2ProcessFrame at hok ⊢
  rw [if_neg (by simp [hopen])] at hok ⊢
  split
  next hlong =>
    rw [if_pos hlong] at hok
    exact absurd hok (by simp [errProtocol])
  next hlong =>
  rw [if_neg hlong] at hok
  split
  next hcont =>
    rw [if_pos hcont] at hok
    exact absurd hok (by simp [failConnection, errProtocol])
  next hcont =>
  refine ⟨rfl, fun hactive => ?_⟩
  by_contra htype
  exact hcont (by simp [hactive, htype])

theorem step_windowKept (ctx : Http2Ctx) {e : Event} (he : e.hasType frameData = false) :
    WindowKept ctx (step ctx e) := by
  refine (step_changes ctx e).windowKept ?_
  cases e with
  | recvFrame f =>
    have htype : f.type ≠ frameData := by simpa [Event.hasType] using he
    simp only [Event.kinds, Frame.kinds, if_neg htype]
    repeat' split
    all_goals simp
  | _ => simp [Event.kinds]

theorem step_headersKept (ctx : Http2Ctx) {e : Event} (hheaders : e.hasType frameHeaders = false)
    (hcont : e.hasType frameContinuation = false) :
    HeadersKept ctx (step ctx e) := by
  refine (step_changes ctx e).headersKept ?_
  cases e with
  | recvFrame f =>
    have htype : ¬ (f.type = frameHeaders ∨ f.type = frameContinuation) := by
      simpa [Event.hasType] using And.intro hheaders hcont
    simp only [Event.kinds, Frame.kinds, if_neg htype]
    repeat' split
    all_goals simp
  | _ => simp [Event.kinds]

/-- **What every event keeps.** -/
theorem step_kept (ctx : Http2Ctx) (e : Event) : Kept ctx (step ctx e) :=
  (step_changes ctx e).kept

theorem http2CtxNew_quiet (isClient : Bool) (server : CStr) (maxConcurrentStreams : Int)
    (bio : List BioWrite) :
    Quiet (http2CtxInitCommon isClient server maxConcurrentStreams bio)
      (http2CtxNew isClient server maxConcurrentStreams bio) :=
  (http2CtxNew_changes isClient server maxConcurrentStreams bio).quiet (by simp) (by simp)

theorem run_status_nonneg {ctx : Http2Ctx} {events : List Event}
    (hok : 0 ≤ (run step ctx events).status) :
    0 ≤ ctx.status := by
  induction events generalizing ctx with
  | nil => exact hok
  | cons e events ih => exact (step_kept ctx e).status_nonneg (ih hok)

end SmartDns.Http2
