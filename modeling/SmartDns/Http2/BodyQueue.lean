import SmartDns.Http2.SendQuiet

/-!
# One body at a time

The body of a stream is what its DATA frames carried and what is still queued.
Everything the send functions do on one stream leaves the bodies of the others
alone; that is `Changes.bodyQuiet`.
-/

namespace SmartDns.Http2

open Hpack

variable {p : StreamPtr} {ctx ctx' : Http2Ctx}

/-- The DATA frames of one stream: payload and end flag. -/
def bodyFrames (p : StreamPtr) (frames : List SentFrame) : List (Bytes × Bool) :=
  (dataFrames frames).filterMap fun f => if f.1 = p then some f.2 else none

@[simp] theorem bodyFrames_append (p : StreamPtr) (frames frames' : List SentFrame) :
    bodyFrames p (frames ++ frames') = bodyFrames p frames ++ bodyFrames p frames' := by
  simp [bodyFrames]

@[simp] theorem bodyFrames_data_self
    (p : StreamPtr) (streamId : Nat) (payload : Bytes) (endStream : Bool) :
    bodyFrames p [.data p streamId payload endStream] = [(payload, endStream)] := by
  simp [bodyFrames, dataFrames]

/-- A change that leaves the body of a stream alone. -/
structure BodyQuiet (p : StreamPtr) (ctx ctx' : Http2Ctx) : Prop where
  view : (ctx'.heap p).bodyView = (ctx.heap p).bodyView
  frames : bodyFrames p ctx'.sent = bodyFrames p ctx.sent
  nextPtr : ctx.nextPtr ≤ ctx'.nextPtr

theorem BodyQuiet.refl (p : StreamPtr) (ctx : Http2Ctx) : BodyQuiet p ctx ctx :=
  ⟨rfl, rfl, le_refl _⟩

theorem BodyQuiet.trans
    {ctx₁ ctx₂ ctx₃ : Http2Ctx} (h₁ : BodyQuiet p ctx₁ ctx₂) (h₂ : BodyQuiet p ctx₂ ctx₃) :
    BodyQuiet p ctx₁ ctx₃ :=
  ⟨h₂.view.trans h₁.view, h₂.frames.trans h₁.frames, h₁.nextPtr.trans h₂.nextPtr⟩

theorem Regrants.bodyQuiet (h : Regrants ctx ctx') (p : StreamPtr) : BodyQuiet p ctx ctx' := by
  refine ⟨congrArg (fun v => v.toBodyView) (h.body p), ?_, h.nextPtr.ge⟩
  rw [bodyFrames, h.data, bodyFrames]

theorem SendQuiet.bodyQuiet (h : SendQuiet ctx ctx') (p : StreamPtr) : BodyQuiet p ctx ctx' :=
  h.regrants.bodyQuiet p

theorem http2SendDataFrame_bodyQuiet
    (ctx : Http2Ctx) {q : StreamPtr} (hne : p ≠ q) (streamId : Nat) (data : Bytes)
    (endStream : Bool) :
    BodyQuiet p ctx (http2SendDataFrame ctx q streamId data endStream).1 := by
  rcases hr : http2SendDataFrame ctx q streamId data endStream with ⟨ctx', ok⟩
  cases ok with
  | false => exact (http2SendDataFrame_refused hr).bodyQuiet p
  | true =>
    obtain ⟨io, rfl⟩ := http2SendDataFrame_accepted hr
    refine ⟨rfl, ?_, le_refl _⟩
    simp [bodyFrames, dataFrames, hne.symm]

/-- Removing a stream leaves all bodies alone, its own included. -/
theorem http2RemoveStream_bodyQuiet (ctx : Http2Ctx) (q p : StreamPtr) :
    BodyQuiet p ctx (http2RemoveStream ctx q) := by
  unfold http2RemoveStream
  dsimp only
  split
  · refine ⟨?_, rfl, le_refl _⟩
    dsimp only
    split
    next h => rw [h]; rfl
    · rfl
  · exact ⟨rfl, rfl, le_refl _⟩

/-- Only the changes of its own kind touch the body of a stream. -/
theorem Change.bodyQuiet
    {k : Kind} (h : Change ctx k ctx') (hk : k ≠ .body p) (hp : p < ctx.nextPtr) :
    BodyQuiet p ctx ctx' := by
  cases h with
  | @data q streamId payload endStream hfits =>
    exact http2SendDataFrame_bodyQuiet ctx (fun h => hk (congrArg _ h.symm)) _ _ _
  | bodyWindow | collect => exact ⟨rfl, rfl, le_refl _⟩
  | @bodyStream q s hlinked hid =>
    have hne : p ≠ q := fun h => hk (congrArg _ h.symm)
    exact ⟨by rw [Http2Ctx.setStream_heap_ne ctx s hne], rfl, le_refl _⟩
  | create streamId =>
    unfold http2CreateStream
    split
    · exact (setErrno_sendQuiet ctx _).bodyQuiet p
    · refine ⟨?_, rfl, Nat.le_succ _⟩
      dsimp only
      rw [if_neg (Nat.ne_of_lt hp)]
  | remove q => exact http2RemoveStream_bodyQuiet ctx q p
  | streamWindow q size => exact (setWindow_regrants ctx q size).bodyQuiet p
  | connWindow | initialWindow | maxFrame => exact ⟨rfl, rfl, le_refl _⟩
  | @stream q s hview hid => exact (setStream_sendQuiet ctx hview).bodyQuiet p
  | @control bytes frame hframe hbytes =>
    exact ((Change.control bytes hframe hbytes).sendQuiet rfl).bodyQuiet p
  | headers streamId fields endStream =>
    exact (http2SendHeadersFrame_sendQuiet ctx streamId fields endStream).bodyQuiet p
  | windowUpdate streamId increment => exact (sendRecorded_sendQuiet ctx _ rfl).bodyQuiet p
  | _ => exact ⟨rfl, rfl, le_refl _⟩

theorem Changes.bodyQuiet
    {K : List Kind} (h : Changes K ctx ctx') (hK : .body p ∉ K) (hp : p < ctx.nextPtr) :
    BodyQuiet p ctx ctx' := by
  induction h with
  | refl ctx => exact .refl p ctx
  | cons hk hc _ ih =>
    have hfirst := hc.bodyQuiet (ne_of_mem_of_not_mem hk hK) hp
    exact hfirst.trans (ih (hp.trans_le hfirst.nextPtr))

end SmartDns.Http2
