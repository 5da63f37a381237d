import SmartDns.Http2.Table

/-!
# What an event does

Every function of the connection is walked once.  `Traced` says of a call which
kinds of change it is made of and that it is a run of allowed operations on the
stream table; `Still` says that the table does not see it.  `step_changes` and
`step_performs` read the two sides off for whole events.
-/

namespace SmartDns.Http2

open Hpack StreamTable Event

variable {f : Frame}

/-- A sequence of changes that is, on the table, a run of allowed operations. -/
structure Traced
    (K : List Kind) (A : StreamTable → TableOp → Prop) (ctx ctx' : Http2Ctx) : Prop where
  changes : Changes K ctx ctx'
  performs : Performs A ctx ctx'

/-- A sequence of changes that the table does not see. -/
structure Still (K : List Kind) (ctx ctx' : Http2Ctx) : Prop where
  changes : Changes K ctx ctx'
  table : ctx'.table = ctx.table

section Sequences

variable {K : List Kind} {A A' : StreamTable → TableOp → Prop} {ctx ctx₁ ctx₂ : Http2Ctx}

namespace Still

theorem refl (ctx : Http2Ctx) : Still K ctx ctx :=
  ⟨.refl ctx, rfl⟩

theorem one {k : Kind} (h : Change ctx k ctx₁) (hk : k ∈ K) (htable : ctx₁.table = ctx.table) :
    Still K ctx ctx₁ :=
  ⟨.one h hk, htable⟩

theorem trans (h₁ : Still K ctx ctx₁) (h₂ : Still K ctx₁ ctx₂) : Still K ctx ctx₂ :=
  ⟨h₁.changes.trans h₂.changes, h₂.table.trans h₁.table⟩

theorem fst {β : Type} {r : Http2Ctx × β} {b : β} (heq : r = (ctx₁, b)) (h : Still K ctx r.1) :
    Still K ctx ctx₁ := by
  rwa [heq] at h

theorem traced (h : Still K ctx ctx₁) : Traced K A ctx ctx₁ :=
  ⟨h.changes, .of_eq h.table⟩

end Still

namespace Traced

theorem refl (ctx : Http2Ctx) : Traced K A ctx ctx :=
  (Still.refl ctx).traced

theorem trans (h₁ : Traced K A ctx ctx₁) (h₂ : Traced K A ctx₁ ctx₂) : Traced K A ctx ctx₂ :=
  ⟨h₁.changes.trans h₂.changes, h₁.performs.trans h₂.performs⟩

theorem mono (himp : ∀ t op, A t op → A' t op) (h : Traced K A ctx ctx₁) : Traced K A' ctx ctx₁ :=
  ⟨h.changes, h.performs.mono himp⟩

end Traced

end Sequences

theorem http2CheckContentLength_result
    (ctx : Http2Ctx) (p : StreamPtr) (streamId bodyLen : Nat) (endStream : Bool) :
    (http2CheckContentLength ctx p streamId bodyLen endStream).2 =
        contentLengthMismatch (ctx.heap p) bodyLen endStream ∧
    (http2CheckContentLength ctx p streamId bodyLen endStream).1.recvConnWindowSize =
        ctx.recvConnWindowSize := by
  have herrno : (contentLengthErrno ctx p).recvConnWindowSize = ctx.recvConnWindowSize := by
    rw [contentLengthErrno]
    split
    · rfl
    · split <;> rfl
  simp only [http2CheckContentLength]
  cases contentLengthMismatch (ctx.heap p) bodyLen endStream with
  | true => exact ⟨rfl, herrno⟩
  | false => exact ⟨rfl, herrno⟩

/-! ### Frames of fixed size, and failures -/

section Plain

variable {K : List Kind} {A : StreamTable → TableOp → Prop} (ctx : Http2Ctx) (hK : .plain ∈ K)
include hK

theorem setErrno_still (errno : Errno) : Still K ctx (ctx.setErrno errno) :=
  .one (.errno errno) hK rfl

theorem setStatus_still {status : Int} (hneg : status < 0) : Still K ctx (ctx.setStatus status) :=
  .one (.status hneg) hK rfl

theorem http2SendRstStream_still (streamId errorCode : Nat) :
    Still K ctx (http2SendRstStream ctx streamId errorCode).1 :=
  .one (.control _ rfl rfl) hK rfl

theorem failStream_still (streamId errorCode : Nat) :
    Still K ctx (failStream ctx streamId errorCode).1 :=
  (http2SendRstStream_still ctx hK _ _).trans (setStatus_still _ hK (by decide))

theorem failConnection_still (errorCode : Nat) : Still K ctx (failConnection ctx errorCode).1 := by
  have hsend : Still K ctx (http2SendGoaway ctx 0 errorCode).1 := .one (.control _ rfl rfl) hK rfl
  exact hsend.trans (setStatus_still _ hK (by decide))

theorem http2SendSettings_still (ack : Bool) : Still K ctx (http2SendSettings ctx ack).1 := by
  refine .one (.control _ rfl ?_) hK rfl
  simp only [SentFrame.wire, wireFrame, settingsPayload]

/-- An edit of a stream that neither sending nor the table sees. -/
theorem modifyStream_still (p : StreamPtr) (f : Http2Stream → Http2Stream)
    (hf : ∀ s, (f s).sendView = s.sendView ∧ (f s).view = s.view) :
    Still K ctx (ctx.modifyStream p f) :=
  .one (.stream p (hf _).1 (congrArg StreamView.streamId (hf _).2)) hK
    (setStream_table_same ctx p (hf _).2)

theorem modifyStream_traced
    (p : StreamPtr) {e : StreamEdit} (hop : A ctx.table (.edit p e)) (f : Http2Stream → Http2Stream)
    (hf : ∀ s, (f s).sendView = s.sendView ∧ (f s).streamId = s.streamId)
    (hview : ∀ s, (f s).view = e.apply s.view) :
    Traced K A ctx (ctx.modifyStream p f) :=
  ⟨.one (.stream p (hf _).1 (hf _).2) hK, .op _ hop (setStream_table ctx p e (hview _))⟩

theorem markStreamReset_traced (p : StreamPtr) (hop : A ctx.table (.edit p .reset)) :
    Traced K A ctx (ctx.modifyStream p http2MarkStreamReset) :=
  modifyStream_traced ctx hK p hop _ (fun _ => ⟨rfl, rfl⟩) fun _ => rfl

theorem closed_traced (p : StreamPtr) (hop : A ctx.table (.edit p .close)) :
    Traced K A ctx (ctx.modifyStream p fun s => { s with state := .closed }) :=
  modifyStream_traced ctx hK p hop _ (fun _ => ⟨rfl, rfl⟩) fun _ => rfl

theorem frameResult_traced {r : Http2Ctx × Bool} (h : Traced K A ctx r.1) :
    Traced K A ctx (frameResult r) := by
  unfold frameResult
  repeat' split
  · exact h
  · exact h.trans (setStatus_still _ hK (by decide)).traced
  · exact h

theorem http2CheckContentLength_still (p : StreamPtr) (streamId bodyLen : Nat) (endStream : Bool) :
    Still K ctx (http2CheckContentLength ctx p streamId bodyLen endStream).1 := by
  have herrno : Still K ctx (contentLengthErrno ctx p) := by
    unfold contentLengthErrno
    repeat' split
    · exact .refl ctx
    · exact .refl ctx
    · exact setErrno_still ctx hK _
  unfold http2CheckContentLength
  dsimp only
  split
  · exact herrno.trans (http2SendRstStream_still _ hK _ _)
  · exact herrno

theorem processPing_still (f : Frame) : Still K ctx (processPing ctx f) := by
  unfold processPing
  split
  · exact failConnection_still ctx hK _
  next hshape =>
  have hlength : f.payload.length = 8 := by
    by_contra hne
    exact hshape (Or.inl hne)
  split
  · exact .refl ctx
  · exact .one (.control _ rfl (by rw [SentFrame.wire, wireFrame, hlength])) hK rfl

theorem processRstStream_traced (htype : f.type = frameRstStream) :
    Traced K (Allowed ctx (.recvFrame f)) ctx (processRstStream ctx f) := by
  unfold processRstStream
  repeat' split
  · exact (failConnection_still ctx hK _).traced
  · exact .refl ctx
  next p hfind => exact closed_traced ctx hK p (.rstStream htype hfind)

theorem processGoaway_still (f : Frame) : Still K ctx (processGoaway ctx f) := by
  refine setStatus_still ctx hK ?_
  split
  all_goals decide

theorem setTargetHeaders_still (fields : List Header) (target : HeaderTarget) :
    Still K ctx (setTargetHeaders ctx fields target) := by
  cases target with
  | stream p => exact .one (.stream p rfl rfl) hK (setStream_table_same ctx p rfl)
  | tmp => exact .refl ctx

omit hK in
/-- The headers of a block are in: on the table their stream is opened, ended or reset. -/
theorem headersReceived_table (p : StreamPtr) (streamId headersFlags : Nat) :
    (headersReceived ctx p streamId headersFlags).1.table =
      if hasFlag headersFlags flagEndStream then
        if contentLengthMismatch (ctx.heap p) (ctx.heap p).bodyBuffer.length true then
          (ctx.table.edit p (.headers false)).edit p .reset
        else ctx.table.edit p (.headers true)
      else ctx.table.edit p (.headers false) := by
  have htable : (ctx.modifyStream p headersOpen).table = ctx.table.edit p (.headers false) :=
    setStream_table ctx p (.headers false) rfl
  have hheap : (ctx.modifyStream p headersOpen).heap p = headersOpen (ctx.heap p) :=
    ctx.setStream_heap_self p _
  unfold headersReceived
  dsimp only
  split
  · have hresult := (http2CheckContentLength_result (ctx.modifyStream p headersOpen) p streamId
      ((ctx.modifyStream p headersOpen).heap p).bodyBuffer.length true).1
    have hcheck := http2CheckContentLength_still (ctx.modifyStream p headersOpen)
      (List.mem_singleton_self Kind.plain) p streamId
      ((ctx.modifyStream p headersOpen).heap p).bodyBuffer.length true
    rw [hheap] at hresult hcheck ⊢
    change _ = contentLengthMismatch (ctx.heap p) (ctx.heap p).bodyBuffer.length true at hresult
    split
    next heq =>
      rw [heq] at hresult
      rw [← hresult, if_pos rfl, http2MarkStreamReset_table, (hcheck.fst heq).table, htable]
    next ctx₁ heq =>
    rw [heq] at hresult
    rw [← hresult, if_neg nofun]
    have hsame := (hcheck.fst heq).table
    -- on the table the two edits are one
    have hview : ctx₁.table.view p = (ctx.heap p).view.opened := by
      rw [hsame, htable, edit, setView_view_self]
      rfl
    have hboth : (headersEndStream (ctx₁.heap p)).view = (ctx.heap p).view.opened.headersEnd := by
      rw [← hview]
      rfl
    rw [Http2Ctx.modifyStream, setStream_setView, hboth, hsame, htable, edit, setView_setView]
    rfl
  · exact htable

theorem headersReceived_traced (p : StreamPtr) (streamId : Nat) {headersFlags : Nat}
    (h : HeadersAllowed A ctx.table p headersFlags) :
    Traced K A ctx (headersReceived ctx p streamId headersFlags).1 := by
  constructor
  · have hstream : ∀ (ctx₁ : Http2Ctx) (g : Http2Stream → Http2Stream),
        (∀ s, (g s).sendView = s.sendView ∧ (g s).streamId = s.streamId) →
        Changes K ctx₁ (ctx₁.modifyStream p g) :=
      fun _ _ hg => .one (.stream p (hg _).1 (hg _).2) hK
    have hopened := hstream ctx headersOpen fun _ => ⟨rfl, rfl⟩
    unfold headersReceived
    dsimp only
    split
    · have hcheck := http2CheckContentLength_still (ctx.modifyStream p headersOpen) hK p streamId
        ((ctx.modifyStream p headersOpen).heap p).bodyBuffer.length true
      split
      all_goals
        next heq =>
        exact (hopened.trans (hcheck.fst heq).changes).trans (hstream _ _ fun _ => ⟨rfl, rfl⟩)
    · exact hopened
  · have htable := headersReceived_table ctx p streamId headersFlags
    have hopen := h.headers false nofun
    split at htable
    next hend =>
      split at htable
      · exact ⟨[.edit p (.headers false), .edit p .reset], ⟨hopen, h.reset, trivial⟩, htable.symm⟩
      · exact .op _ (h.headers true fun _ => hend) htable
    · exact .op _ hopen htable

theorem http2StreamSetResponse_still (henc : .encoder ∈ K) (p : StreamPtr) (status : Nat)
    (headers : List HeaderPair) : Still K ctx (http2StreamSetResponse ctx p status headers).1 := by
  unfold http2StreamSetResponse
  split
  · exact .refl ctx
  · refine Still.trans ?_ (.one (.headers _ _ _) henc (http2SendHeadersFrame_table _ _ _ _))
    exact modifyStream_still ctx hK p _ fun _ => ⟨rfl, rfl⟩

theorem flushWrites_still : Still K ctx (flushWrites ctx) := by
  unfold flushWrites
  split
  · exact .refl ctx
  · exact .one .flushWrites hK rfl

theorem acceptStream_still : Still K ctx (acceptStream ctx) := by
  unfold acceptStream
  split
  · exact .refl ctx
  · exact modifyStream_still ctx hK _ _ fun _ => ⟨rfl, rfl⟩

end Plain

/-! ### Reading a body -/

theorem http2TryDecompressBody_view {ctx : Http2Ctx} {s s₁ : Http2Stream} {inflated : Option Bytes}
    (h : http2TryDecompressBody ctx s inflated = some s₁) :
    s₁.sendView = s.sendView ∧
    (s₁.view = s.view ∨ ∃ body, inflated = some body ∧ s.bodyDecompressed = false ∧
        s₁.view = (StreamEdit.inflate body).apply s.view) := by
  unfold http2TryDecompressBody at h
  split at h
  · cases h
    exact ⟨rfl, Or.inl rfl⟩
  next hcompressed =>
  split at h
  · cases h
    exact ⟨rfl, Or.inl rfl⟩
  split at h
  · cases inflated with
    | none => cases h
    | some body =>
      cases h
      have hraw : s.bodyDecompressed = false ∧ ¬s.bodyBuffer = [] := by simpa using hcompressed
      exact ⟨rfl, Or.inr ⟨body, rfl, hraw.1, rfl⟩⟩
  · cases h
    exact ⟨rfl, Or.inl rfl⟩

theorem readBody_view (ctx : Http2Ctx) (s : Http2Stream) (len : Nat) (inflated : Option Bytes) :
    ∃ s₁, (s₁ = s ∨ http2TryDecompressBody ctx s inflated = some s₁) ∧
    (readBody ctx s len inflated).1.sendView = s₁.sendView ∧
    ((readBody ctx s len inflated).1.view = s₁.view ∨
    (readBody ctx s len inflated).1.view = StreamEdit.readEnd.apply s₁.view) := by
  rw [readBody]
  split
  · exact ⟨s, Or.inl rfl, rfl, Or.inr rfl⟩
  next s₁ heq =>
  refine ⟨s₁, Or.inr heq, ?_⟩
  split
  · exact ⟨rfl, Or.inl rfl⟩
  split
  · split
    · exact ⟨rfl, Or.inr rfl⟩
    · exact ⟨rfl, Or.inl rfl⟩
  refine ⟨rfl, ?_⟩
  dsimp only
  cases hend : (s₁.endStreamReceived || s₁.state == .closed) &&
    decide (s₁.bodyBuffer.length ≤ s₁.bodyReadOffset +
      ((s₁.bodyBuffer.drop s₁.bodyReadOffset).take len).length) with
  | true =>
    right
    simp [Http2Stream.view, StreamEdit.apply]
  | false =>
    left
    simp [Http2Stream.view]

theorem http2StreamReadBody_traced
    {K : List Kind} (ctx : Http2Ctx) (hK : .plain ∈ K) (p : StreamPtr) (len : Nat)
    (inflated : Option Bytes) :
    Traced K (Allowed ctx (.readBody p len inflated)) ctx
    (http2StreamReadBody ctx p len inflated).1 := by
  have hset : Traced K (Allowed ctx (.readBody p len inflated)) ctx
      (ctx.setStream p (readBody ctx (ctx.heap p) len inflated).1) := by
    obtain ⟨s₁, hs₁, hsend, hread⟩ := readBody_view ctx (ctx.heap p) len inflated
    have hfirst : s₁.sendView = (ctx.heap p).sendView ∧ s₁.streamId = (ctx.heap p).streamId ∧
        Performs (Allowed ctx (.readBody p len inflated)) ctx (ctx.setStream p s₁) := by
      rcases hs₁ with rfl | hs₁
      · exact ⟨rfl, rfl, .of_eq (setStream_table_same ctx p rfl)⟩
      obtain ⟨hfields, hsame | ⟨body, rfl, hraw, hview⟩⟩ := http2TryDecompressBody_view hs₁
      · exact ⟨hfields, congrArg StreamView.streamId hsame,
          .of_eq (setStream_table_same ctx p hsame)⟩
      · exact ⟨hfields, congrArg StreamView.streamId hview,
          .op _ (.inflate hraw) (setStream_table ctx p (.inflate body) hview)⟩
    obtain ⟨hfields, hid, hperforms⟩ := hfirst
    have hid₁ : (readBody ctx (ctx.heap p) len inflated).1.streamId = s₁.streamId := by
      rcases hread with hread | hread
      all_goals exact congrArg StreamView.streamId hread
    refine ⟨.one (.stream p (hsend.trans hfields) (hid₁.trans hid)) hK, hperforms.trans ?_⟩
    rcases hread with hread | hread
    · refine .of_eq ?_
      rw [setStream_setView, setStream_setView, hread]
    refine .op _ .readEnd ?_
    rw [setStream_setView, setStream_setView, hread]
    simp only [apply, edit, setView_view_self, setView_setView]
  unfold http2StreamReadBody
  split
  · exact .refl ctx
  split
  next heq =>
    rw [heq] at hset
    exact hset.trans (setErrno_still _ hK _).traced
  next heq =>
  rw [heq] at hset
  exact hset

/-! ### DATA frames that arrive -/

section Data

variable {K : List Kind} (ctx : Http2Ctx) (hK : .plain ∈ K) (hwindow : .recvWindow ∈ K)
include hK hwindow

theorem replenishWindows_still (p : StreamPtr) (streamId len : Nat) :
    Still K ctx (replenishWindows ctx p streamId len).1 := by
  have hupdate : ∀ (ctx : Http2Ctx) (streamId : Nat),
      Still K ctx (http2SendWindowUpdate ctx streamId len).1 :=
    fun _ _ => .one (.windowUpdate _ _) hwindow rfl
  unfold replenishWindows
  split
  next heq => exact (hupdate ctx 0).fst heq
  next ctx₁ heq =>
  refine ((hupdate ctx 0).fst heq).trans
    ((Still.one (.recvWindow (ctx₁.recvConnWindowSize + len)) hwindow rfl).trans ?_)
  dsimp only
  split
  · split
    next heq' => exact ((hupdate _ _).fst heq').trans (.one (.recvWindow _) hwindow rfl)
    next heq' =>
    exact ((hupdate _ _).fst heq').trans
      (.one (.stream p rfl rfl) hK (setStream_table_same _ p (by rfl)))
  · exact .refl _

theorem acceptData_edits
    (p : StreamPtr) (streamId : Nat) (data : Bytes) (endStream : Bool) (size : Nat) :
    Changes K ctx (acceptData ctx p streamId data endStream size).1 ∧
    (acceptData ctx p streamId data endStream size).1.table =
        ctx.table.edit p (.data data endStream) := by
  have hstream : ∀ s : Http2Stream, s.sendView = (ctx.heap p).sendView →
      s.view = { (ctx.heap p).view with body := (ctx.heap p).bodyBuffer ++ data } →
      Changes K ctx ({ ctx with recvConnWindowSize := ctx.recvConnWindowSize - data.length
        }.setStream p (if endStream then dataEndStream s else s)) ∧
      ({ ctx with recvConnWindowSize := ctx.recvConnWindowSize - data.length
        }.setStream p (if endStream then dataEndStream s else s)).table =
          ctx.table.edit p (.data data endStream) := by
    intro s hsend hs
    have hid : s.streamId = (ctx.heap p).streamId := congrArg StreamView.streamId hs
    constructor
    · refine (Changes.one (.recvWindow _) hwindow).trans (.one (.stream p ?_ ?_) hK)
      · cases endStream
        all_goals exact hsend
      · cases endStream
        all_goals exact hid
    refine setStream_table { ctx with recvConnWindowSize := _ } p _ ?_
    cases endStream with
    | false => exact hs
    | true =>
      rw [if_pos rfl, dataEndStream_view, hs]
      rfl
  unfold acceptData
  dsimp only
  have h := hstream { ctx.heap p with
      bodyBuffer := (ctx.heap p).bodyBuffer ++ data
      bodyBufferSize := size
      recvWindowSize := (ctx.heap p).recvWindowSize - data.length } rfl rfl
  split
  · exact h
  have hmore : ∀ ctx₁, Still K ctx₁ (replenishWindows ctx₁ p streamId data.length).1 :=
    fun ctx₁ => replenishWindows_still ctx₁ hK hwindow p streamId data.length
  exact ⟨h.1.trans (hmore _).changes, (hmore _).table.trans h.2⟩

theorem http2ProcessDataFrame_traced (htype : f.type = frameData) :
    Traced K (Allowed ctx (.recvFrame f)) ctx
    (http2ProcessDataFrame ctx f.streamId f.payload f.flags).1 := by
  unfold http2ProcessDataFrame
  split
  · exact (failConnection_still ctx hK _).traced
  split
  · split
    · exact (http2SendRstStream_still ctx hK _ _).traced
    · exact (failStream_still ctx hK _ _).traced
  next p hfind =>
  have hrst := http2SendRstStream_still ctx hK f.streamId rstStreamClosed
  have hreset : ∀ {ctx₁}, Still K ctx ctx₁ → Traced K (Allowed ctx (.recvFrame f)) ctx
      (ctx₁.modifyStream p http2MarkStreamReset) :=
    fun h => h.traced.trans (markStreamReset_traced _ hK p
      (.reset (Or.inl htype) (by rw [h.table]; exact hfind)))
  dsimp only
  split
  · split
    · exact hreset hrst
    · exact (hrst.trans (setStatus_still _ hK (by decide))).traced
  next hopen =>
  simp only [Bool.or_eq_true, beq_iff_eq, not_or, Bool.not_eq_true] at hopen
  split
  · exact (http2SendRstStream_still ctx hK _ _).traced
  have hcheck := http2CheckContentLength_still ctx hK p f.streamId
    ((ctx.heap p).bodyBuffer.length + f.payload.length) (hasFlag f.flags flagEndStream)
  split
  next heq => exact hreset (hcheck.fst heq)
  next ctx₁ heq =>
  have hsame := hcheck.fst heq
  repeat' split
  · exact (hsame.trans (failStream_still _ hK _ _)).traced
  · exact (hsame.trans (failStream_still _ hK _ _)).traced
  · exact (hsame.trans (http2SendRstStream_still _ hK _ _)).traced
  obtain ⟨hchanges, htable⟩ := acceptData_edits ctx₁ hK hwindow p f.streamId f.payload
    (hasFlag f.flags flagEndStream) _
  refine ⟨hsame.changes.trans hchanges, .op _ (.data htype hfind hopen.1.1 hopen.1.2 hopen.2) ?_⟩
  rw [htable, hsame.table]
  rfl

end Data

/-! ### Header blocks -/

/-- A header block opens at most one stream. -/
structure OpensOne
    (K : List Kind) (A : StreamTable → TableOp → Prop) (streamId : Nat) (ctx ctx' : Http2Ctx) :
    Prop where
  changes : ∃ ctx₁, (ctx₁ = ctx ∨ ctx₁ = (http2CreateStream ctx streamId).1) ∧
    Changes K ctx₁ ctx'
  performs : Performs A ctx ctx'

section Headers

variable {K : List Kind} {A : StreamTable → TableOp → Prop} (ctx : Http2Ctx) (hK : .plain ∈ K)
variable (hblock : .headerBlock ∈ K)

theorem http2ClearContinuation_still (hblock : .headerBlock ∈ K) :
    Still K ctx (http2ClearContinuation ctx) :=
  (Still.one (.headerBlock []) hblock rfl).trans (.one (.continuation 0 0 false false) hblock rfl)

theorem Traced.opensOne {streamId : Nat} {ctx' : Http2Ctx} (h : Traced K A ctx ctx') :
    OpensOne K A streamId ctx ctx' :=
  ⟨⟨ctx, .inl rfl, h.changes⟩, h.performs⟩

theorem OpensOne.traced {streamId : Nat} {ctx' : Http2Ctx} (hcreate : .create ∈ K)
    (h : OpensOne K A streamId ctx ctx') :
    Traced K A ctx ctx' := by
  obtain ⟨⟨ctx₁, rfl | rfl, hchanges⟩, hperforms⟩ := h
  · exact ⟨hchanges, hperforms⟩
  · exact ⟨(Changes.one (.create _) hcreate).trans hchanges, hperforms⟩

include hK hblock

theorem decodeHeaderBlock_traced
    (target : HeaderTarget) (refuse : Bool) (streamId : Nat) {headersFlags : Nat}
    (h : TargetAllowed A ctx.table headersFlags target) :
    Traced K A ctx (decodeHeaderBlock ctx target refuse streamId headersFlags).1 := by
  have hran : Still K ctx (decoderRan ctx target) :=
    (Still.one (.decoder _ _) hblock rfl).trans (setTargetHeaders_still _ hK _ target)
  have hclear := hran.trans (http2ClearContinuation_still _ hblock)
  unfold decodeHeaderBlock
  dsimp only
  split
  · exact (hran.trans ((http2SendRstStream_still _ hK _ _).trans
      (http2ClearContinuation_still _ hblock))).traced
  repeat' split
  · exact (hclear.trans (http2SendRstStream_still _ hK _ _)).traced
  · refine hclear.traced.trans (headersReceived_traced _ hK _ _ ?_)
    rw [hclear.table]
    exact h
  · exact hclear.traced

theorem appendHeaderBlock_traced
    (target : HeaderTarget) (refuse : Bool) (streamId : Nat) (fragment : Bytes) {flags : Nat}
    {isContinuation : Bool} (h : TargetAllowed A ctx.table
    (if isContinuation then ctx.continuationFlags else flags) target) :
    Traced K A ctx
    (appendHeaderBlock ctx target refuse streamId fragment flags isContinuation).1 := by
  have hfields : Still K ctx (if isContinuation then ctx else setTargetHeaders ctx [] target) := by
    split
    · exact .refl ctx
    · exact setTargetHeaders_still ctx hK [] target
  have hflags : (if isContinuation then
      (if isContinuation then ctx else setTargetHeaders ctx [] target).continuationFlags
      else flags) = if isContinuation then ctx.continuationFlags else flags := by
    cases isContinuation <;> rfl
  unfold appendHeaderBlock
  dsimp only
  rw [← hflags, ← hfields.table] at h
  refine hfields.traced.trans ?_
  generalize (if isContinuation then ctx else setTargetHeaders ctx [] target) = ctx' at h
  have hfragment : Still K ctx'
      { ctx' with headerBlockBuffer := ctx'.headerBlockBuffer ++ fragment } :=
    .one (.headerBlock _) hblock rfl
  split
  · exact ((http2SendRstStream_still _ hK _ _).trans (http2ClearContinuation_still _ hblock)).traced
  refine hfragment.traced.trans ?_
  split
  · split
    · exact .refl _
    · exact (Still.one (.continuation _ _ _ _) hblock rfl).traced
  · exact decodeHeaderBlock_traced _ hK hblock target refuse streamId h

theorem headersForStream_opensOne
    {isContinuation : Bool} (fragment : Bytes) (refuse : Bool) (hid : f.streamId ≠ 0)
    (htype : f.type = if isContinuation then frameContinuation else frameHeaders) :
    OpensOne K (Allowed ctx (.recvFrame f)) f.streamId ctx
    (headersForStream ctx f.streamId fragment f.flags isContinuation refuse).1 := by
  have hkind : f.type = frameHeaders ∨ f.type = frameContinuation := by
    cases isContinuation <;> simp [htype]
  have hflags : (if isContinuation then ctx.continuationFlags else f.flags) =
      if f.type = frameContinuation then ctx.continuationFlags else f.flags := by
    cases isContinuation <;> simp [htype, frameHeaders, frameContinuation]
  unfold headersForStream
  split
  next hfind =>
    split
    · exact (failConnection_still ctx hK _).traced.opensOne
    next hfirst =>
    dsimp only
    split
    · exact (appendHeaderBlock_traced ctx hK hblock .tmp _ _ _ trivial).opensOne
    next hrefuse =>
    -- a CONTINUATION frame without its stream is refused or fails
    obtain rfl : isContinuation = false := by cases isContinuation <;> simp_all
    have hcreate := http2CreateStream_table ctx f.streamId
    split
    next ctx₁ heq =>
      rw [heq] at hcreate
      rcases hcreate with ⟨-, htable⟩ | ⟨hsome, -⟩
      · exact ⟨⟨ctx₁, .inr (by rw [heq]), .refl _⟩, .of_eq htable⟩
      · cases hsome
    next ctx₁ p heq =>
    rw [heq] at hcreate
    rcases hcreate with ⟨hnone, -⟩ | ⟨hsome, htable⟩
    · cases hnone
    obtain rfl : p = ctx.nextPtr := Option.some.inj hsome
    have hview : ctx₁.table.view ctx.nextPtr = .fresh f.streamId := by
      rw [htable]
      exact if_pos rfl
    have hblocks : ∀ refuse, Traced K (Allowed ctx (.recvFrame f)) ctx₁
        (appendHeaderBlock ctx₁ (.stream ctx.nextPtr) refuse f.streamId fragment
          f.flags false).1 := by
      intro refuse
      refine appendHeaderBlock_traced ctx₁ hK hblock (.stream ctx.nextPtr) _ _ _ ?_
      refine headersAllowed_of_find hkind ?_ ?_ ?_ (Or.inr ?_) ?_
      · rw [htable]
        simp [StreamTable.find, StreamTable.create, StreamView.fresh, Http2Ctx.table]
      · rw [hview]
        rfl
      · rw [hview]
        simp [StreamView.fresh]
      · rw [hview]
        rfl
      · simpa using hflags
    exact ⟨⟨ctx₁, .inr (by rw [heq]), (hblocks _).changes⟩,
      .trans (.op _ (.createPeer htype hid hfind) htable) (hblocks _).performs⟩
  next p hfind =>
  have hrst := http2SendRstStream_still ctx hK f.streamId rstStreamClosed
  dsimp only
  split
  · split
    · refine (hrst.traced.trans (markStreamReset_traced _ hK p ?_)).opensOne
      exact .reset (Or.inr hkind) hfind
    · exact (hrst.trans (setStatus_still _ hK (by decide))).traced.opensOne
  next hopen =>
  simp only [Bool.or_eq_true, beq_iff_eq, not_or, Bool.not_eq_true] at hopen
  exact (appendHeaderBlock_traced ctx hK hblock (.stream p) _ _ _
    (headersAllowed_of_find hkind hfind hopen.1 hopen.2 (Or.inl rfl) hflags)).opensOne

theorem http2ProcessHeadersFrame_opensOne (htype : f.type = frameHeaders) :
    OpensOne K (Allowed ctx (.recvFrame f)) f.streamId ctx
    (http2ProcessHeadersFrame ctx f.streamId f.payload f.flags).1 := by
  unfold http2ProcessHeadersFrame
  split
  · exact (failConnection_still ctx hK _).traced.opensOne
  next hid =>
  repeat' split
  · exact (failConnection_still ctx hK _).traced.opensOne
  · exact (Traced.refl ctx).opensOne
  · exact headersForStream_opensOne ctx hK hblock _ _ hid (by simpa using htype)

theorem http2ProcessContinuationFrame_opensOne (htype : f.type = frameContinuation) :
    OpensOne K (Allowed ctx (.recvFrame f)) f.streamId ctx
    (http2ProcessContinuationFrame ctx f.streamId f.payload f.flags).1 := by
  unfold http2ProcessContinuationFrame
  split
  · exact (failConnection_still ctx hK _).traced.opensOne
  next hid =>
  repeat' split
  · exact (failConnection_still ctx hK _).traced.opensOne
  · exact (failConnection_still ctx hK _).traced.opensOne
  · exact headersForStream_opensOne ctx hK hblock _ _ hid (by simpa using htype)

end Headers

/-! ### Frames that grant something -/

section Grants

variable {K : List Kind} (hK : .plain ∈ K) (hgrant : .grant ∈ K)
include hK hgrant

theorem shiftWindows_still (delta : Int) (streams : List StreamPtr) (ctx : Http2Ctx) :
    Still K ctx (shiftWindows delta streams ctx).1 := by
  induction streams generalizing ctx with
  | nil => exact .refl ctx
  | cons p rest ih =>
    unfold shiftWindows
    dsimp only
    split
    · exact failConnection_still ctx hK _
    · exact (Still.one (.streamWindow p _) hgrant (setStream_table_same _ p (by rfl))).trans (ih _)

theorem applySetting_still (ctx : Http2Ctx) (id value : Nat) (henc : id = 1 → .encoder ∈ K) :
    Still K ctx (applySetting ctx id value).1 := by
  unfold applySetting
  repeat' split
  next hid => exact .one (.encoder value) (henc hid) rfl
  · exact failConnection_still ctx hK _
  · exact .refl ctx
  · exact .one (.peerMaxConcurrentStreams value) hK rfl
  · exact failConnection_still ctx hK _
  · exact (Still.one (.initialWindow value) hgrant rfl).trans (shiftWindows_still hK hgrant _ _ _)
  · exact failConnection_still ctx hK _
  next hsize => exact .one (.maxFrame (by simp [defaultMaxFrameSize]; omega)) hgrant rfl
  · exact .one (.peerMaxHeaderListSize value) hK rfl
  · exact .refl ctx

theorem applySettings_still (entries : List (Nat × Nat))
    (henc : ∀ entry ∈ entries, entry.1 = 1 → .encoder ∈ K) (ctx : Http2Ctx) :
    Still K ctx (applySettings entries ctx).1 := by
  induction entries generalizing ctx with
  | nil => exact .refl ctx
  | cons entry rest ih =>
  obtain ⟨id, value⟩ := entry
  have hfirst := applySetting_still hK hgrant ctx id value (henc _ List.mem_cons_self)
  unfold applySettings
  split
  next heq => exact hfirst.fst heq
  next heq => exact (hfirst.fst heq).trans (ih (fun _ h => henc _ (.tail _ h)) _)

theorem http2ProcessSettingsFrame_still (ctx : Http2Ctx) (data : Bytes) (flags : Nat)
    (henc : ∀ entry ∈ settingsEntries data, entry.1 = 1 → .encoder ∈ K) :
    Still K ctx (http2ProcessSettingsFrame ctx data flags).1 := by
  have happly := applySettings_still hK hgrant (settingsEntries data) henc ctx
  unfold http2ProcessSettingsFrame
  repeat' split
  · exact failConnection_still ctx hK _
  · exact .refl ctx
  · exact failConnection_still ctx hK _
  next heq => exact happly.fst heq
  next heq =>
    exact (happly.fst heq).trans
      ((Still.one .settingsReceived hK rfl).trans (http2SendSettings_still _ hK true))

theorem creditWindow_still (ctx : Http2Ctx) (streamId increment : Nat) :
    Still K ctx (creditWindow ctx streamId increment).1 := by
  unfold creditWindow
  split
  · split
    · exact failConnection_still ctx hK _
    · exact .one (.connWindow _) hgrant rfl
  split
  · exact .refl ctx
  dsimp only
  split
  · exact http2SendRstStream_still ctx hK _ _
  · exact .one (.streamWindow _ _) hgrant (setStream_table_same _ _ (by rfl))

end Grants

/-! ### Bodies -/

theorem toSend_le_remain (ctx : Http2Ctx) (s : Http2Stream) (remain : Nat) :
    toSend ctx s remain ≤ remain := by
  unfold toSend
  omega

theorem length_take_toSend_le (ctx : Http2Ctx) (s : Http2Stream) (rest : Bytes) :
    (rest.take (toSend ctx s rest.length)).length ≤ ctx.peerMaxFrameSize := by
  rw [List.length_take, toSend]
  omega

theorem http2StreamMarkEndSent_fixed (s : Http2Stream) :
    (http2StreamMarkEndSent s).sendWindowSize = s.sendWindowSize ∧
    (http2StreamMarkEndSent s).linked = s.linked ∧
    (http2StreamMarkEndSent s).streamId = s.streamId := by
  unfold http2StreamMarkEndSent
  split
  all_goals exact ⟨rfl, rfl, rfl⟩

@[simp] theorem http2StreamMarkEndSent_window (s : Http2Stream) :
    (http2StreamMarkEndSent s).sendWindowSize = s.sendWindowSize :=
  (http2StreamMarkEndSent_fixed s).1

@[simp] theorem http2StreamMarkEndSent_linked (s : Http2Stream) :
    (http2StreamMarkEndSent s).linked = s.linked :=
  (http2StreamMarkEndSent_fixed s).2.1

@[simp] theorem spendWindow_linked (ctx : Http2Ctx) (p q : StreamPtr) (n : Nat) (isEnd : Bool) :
    ((spendWindow ctx p n isEnd).heap q).linked = (ctx.heap q).linked := by
  by_cases hq : q = p
  · subst hq
    cases isEnd
    all_goals simp [spendWindow, Http2Ctx.setStream]
  · simp [spendWindow, Http2Ctx.setStream, hq]

theorem writeBodyLoop_nil
    (fuel : Nat) (ctx : Http2Ctx) (p : StreamPtr) (endStream : Bool) (totalSent : Nat) :
    (writeBodyLoop fuel ctx p [] endStream totalSent).1 = ctx := by
  cases fuel <;> simp [writeBodyLoop]

/-- A step of the functions that send the body of a stream. -/
inductive SendingStep
    (K : List Kind) (A : StreamTable → TableOp → Prop) (p : StreamPtr) (ctx : Http2Ctx) :
    Http2Ctx → Prop
  | plain {ctx' : Http2Ctx} (h : Traced [.plain] A ctx ctx') : SendingStep K A p ctx ctx'
  | headers (henc : .encoder ∈ K) (streamId : Nat) (fields : List Header) (endStream : Bool) :
      SendingStep K A p ctx (http2SendHeadersFrame ctx streamId fields endStream).1
  /-- A frame that is refused, or has no payload. -/
  | frame {ctx' : Http2Ctx} {streamId : Nat} {payload : Bytes} {isEnd ok : Bool}
      (hfits : payload.length ≤ ctx.peerMaxFrameSize)
      (hsend : http2SendDataFrame ctx p streamId payload isEnd = (ctx', ok))
      (hok : ok = true → payload = [] ∧ (ctx.heap p).linked = true) : SendingStep K A p ctx ctx'
  /-- A turn of a send loop. -/
  | chunk {ctx' : Http2Ctx} {streamId : Nat} {rest : Bytes} {isEnd : Bool}
      (hlinked : (ctx.heap p).linked = true) (hopen : windowsClosed ctx (ctx.heap p) = false)
      (hsend : http2SendDataFrame ctx p streamId
        (rest.take (toSend ctx (ctx.heap p) rest.length)) isEnd = (ctx', true))
      (hend : isEnd = true → A ctx.table (.edit p .endSent)) :
      SendingStep K A p ctx (spendWindow ctx' p (toSend ctx (ctx.heap p) rest.length) isEnd)
  | edit {s : Http2Stream} (hwindow : s.sendWindowSize = (ctx.heap p).sendWindowSize)
      (hlinked : s.linked = (ctx.heap p).linked) (hid : s.streamId = (ctx.heap p).streamId)
      (hperforms : Performs A ctx (ctx.setStream p s)) : SendingStep K A p ctx (ctx.setStream p s)
  | remove (hremove : .remove ∈ K) (hdrain : ∀ t op, Draining t op → A t op) :
      SendingStep K A p ctx (http2RemoveStream ctx p)

abbrev Sending (K : List Kind) (A : StreamTable → TableOp → Prop) (p : StreamPtr) :
    Http2Ctx → Http2Ctx → Prop :=
  Relation.ReflTransGen (SendingStep K A p)

section Bodies

variable {K : List Kind} {A : StreamTable → TableOp → Prop} {p : StreamPtr} {ctx ctx' : Http2Ctx}

theorem http2SendDataFrame_same {streamId : Nat} {payload : Bytes} {isEnd ok : Bool}
    (hsend : http2SendDataFrame ctx p streamId payload isEnd = (ctx', ok)) :
    ctx'.heap = ctx.heap ∧ ctx'.table = ctx.table := by
  obtain rfl := congrArg Prod.fst hsend
  exact ⟨rfl, rfl⟩

theorem spendWindow_traced (ctx : Http2Ctx) (hbody : .body p ∈ K) (n : Nat) (isEnd : Bool)
    (hend : isEnd = true → A ctx.table (.edit p .endSent)) :
    Traced K A ctx (spendWindow ctx p n isEnd) := by
  constructor
  · refine (Changes.one (.bodyWindow p (ctx.sendConnWindowSize - n)) hbody).trans
      (.one (.bodyStream p ?_ ?_) hbody)
    · split
      · exact (http2StreamMarkEndSent_fixed _).2.1
      · rfl
    split
    · exact (http2StreamMarkEndSent_fixed _).2.2
    · rfl
  · cases isEnd with
    | false => exact .of_eq (setStream_table_same { ctx with sendConnWindowSize := _ } p rfl)
    | true =>
      exact .op _ (hend rfl) (setStream_table { ctx with sendConnWindowSize := _ } p .endSent
        (http2StreamMarkEndSent_view _))

theorem SendingStep.traced (h : SendingStep K A p ctx ctx') (hK : .plain ∈ K)
    (hbody : .body p ∈ K) : Traced K A ctx ctx' := by
  cases h with
  | plain h => exact ⟨h.changes.mono (by simpa using hK), h.performs⟩
  | headers henc =>
    exact (Still.one (.headers _ _ _) henc (http2SendHeadersFrame_table _ _ _ _)).traced
  | frame hfits hsend => exact (Still.fst hsend (.one (.data p _ _ hfits) hbody rfl)).traced
  | chunk _ _ hsend hend =>
    have hsent : Still K ctx _ :=
      .fst hsend (.one (.data p _ _ (length_take_toSend_le ctx _ _)) hbody rfl)
    refine hsent.traced.trans (spendWindow_traced _ hbody _ _ fun h => ?_)
    rw [hsent.table]
    exact hend h
  | edit _ hlinked hid hperforms => exact ⟨.one (.bodyStream p hlinked hid) hbody, hperforms⟩
  | remove hremove hdrain =>
    exact ⟨.one (.remove p) hremove, (http2RemoveStream_performs ctx p).mono hdrain⟩

theorem Sending.traced (h : Sending K A p ctx ctx') (hK : .plain ∈ K) (hbody : .body p ∈ K) :
    Traced K A ctx ctx' := by
  induction h with
  | refl => exact .refl ctx
  | tail _ hstep ih => exact ih.trans (hstep.traced hK hbody)

theorem Sending.changes (h : Sending [.plain, .body p, .remove] A p ctx ctx') :
    Changes [.plain, .body p, .remove] ctx ctx' :=
  (h.traced (by simp) (by simp)).changes

theorem Still.sends (h : Still [.plain] ctx ctx') : Sending K A p ctx ctx' :=
  .single (.plain h.traced)

section Flush

variable (hflush : ∀ t op, Flushing p t op → A t op)
include hflush

theorem flushLoop_sends (fuel : Nat) (hlinked : (ctx.heap p).linked = true) :
    Sending K A p ctx (flushLoop fuel ctx p).1 ∧
    ((flushLoop fuel ctx p).1.heap p).linked = true := by
  induction fuel generalizing ctx with
  | zero => exact ⟨.refl, hlinked⟩
  | succ fuel ih =>
  unfold flushLoop
  dsimp only
  split
  · split
    · exact ⟨(setErrno_still ctx Kind.plain_only _).sends, hlinked⟩
    next hopen =>
    rw [Bool.not_eq_true, Bool.or_eq_false_iff] at hopen
    split
    next hsend =>
      exact ⟨.single (.frame (length_take_toSend_le ctx _ _) hsend nofun),
        (http2SendDataFrame_same hsend).1 ▸ hlinked⟩
    next ctx₁ hsend =>
    have hnext : ∀ n isEnd, (((spendWindow ctx₁ p n isEnd).modifyStream p
        (advancePending n)).heap p).linked = true := by
      intro n isEnd
      simpa [Http2Ctx.modifyStream, advancePending, (http2SendDataFrame_same hsend).1]
        using hlinked
    refine ⟨.head (.chunk hlinked hopen.1 hsend fun hend => hflush _ _ (.endSent ?_))
      (.head (.edit (s := advancePending _ _) rfl rfl rfl
        (.of_eq (setStream_table_same _ p rfl))) (ih (hnext _ _)).1), (ih (hnext _ _)).2⟩
    exact (Bool.and_eq_true_iff.mp hend).1
  · exact ⟨.refl, hlinked⟩

theorem flushEnd_sends (hlinked : (ctx.heap p).linked = true) :
    Sending K A p ctx (flushEnd ctx p).1 := by
  unfold flushEnd
  dsimp only
  split
  next hpending =>
    split
    next hsend => exact .single (.frame (Nat.zero_le _) hsend nofun)
    next ctx₁ hsend =>
    refine .head (.frame (Nat.zero_le _) hsend fun _ => ⟨rfl, hlinked⟩) (.single (.edit
      (http2StreamMarkEndSent_fixed _).1 (http2StreamMarkEndSent_fixed _).2.1
      (http2StreamMarkEndSent_fixed _).2.2 ⟨[.edit p .endSent, .edit p .clearQueue],
        ⟨hflush _ _ (.endSent ?_), hflush _ _ .clearQueue, trivial⟩, ?_⟩))
    · rw [(http2SendDataFrame_same hsend).2]
      exact (Bool.and_eq_true_iff.mp hpending).1
    have hview : (http2StreamClearPendingSend (http2StreamMarkEndSent (ctx₁.heap p))).view =
        StreamEdit.clearQueue.apply (ctx₁.heap p).view.endSent := by
      rw [← http2StreamMarkEndSent_view]
      rfl
    rw [setStream_setView, hview]
    simp only [run_cons, run_nil, apply, edit, setView_view_self, setView_setView]
    rfl
  · exact .single (.edit rfl rfl rfl
      (.op _ (hflush _ _ .clearQueue) (setStream_table ctx p .clearQueue rfl)))

theorem http2StreamFlushPendingSend_sends (ctx : Http2Ctx) :
    Sending K A p ctx (http2StreamFlushPendingSend ctx p).1 := by
  unfold http2StreamFlushPendingSend
  dsimp only
  split
  · exact .refl
  next hlinked =>
  rw [Bool.not_eq_true, Bool.not_eq_false'] at hlinked
  have hloop := flushLoop_sends (K := K) hflush ((ctx.heap p).pendingSendBody.length -
    (ctx.heap p).pendingSendBodyOffset) hlinked
  split
  next heq =>
    rw [heq] at hloop
    exact hloop.1
  next heq =>
    rw [heq] at hloop
    exact hloop.1.trans (flushEnd_sends hflush hloop.2)

end Flush

theorem flushStream_sends (ctx : Http2Ctx) (hremove : .remove ∈ K) :
    Sending K Draining p ctx (flushStream ctx p) := by
  have hflush : Sending K Draining p ctx (http2StreamFlushPendingSend ctx p).1 :=
    http2StreamFlushPendingSend_sends (fun _ _ => .flush) ctx
  unfold flushStream
  dsimp only
  repeat' split
  · exact hflush
  · exact hflush.tail (.remove hremove fun _ _ => id)
  · exact hflush
  · exact .refl

theorem http2StreamQueueSendBody_sends (ctx : Http2Ctx) (data : Bytes) {endStream : Bool}
    (hop : A ctx.table (.edit p (.queueEnd endStream))) :
    Sending K A p ctx (http2StreamQueueSendBody ctx p data endStream).1 := by
  unfold http2StreamQueueSendBody
  dsimp only
  split
  · exact (setErrno_still ctx Kind.plain_only _).sends
  split
  · exact .refl
  · exact .single (.edit rfl rfl rfl
      (.op _ hop (setStream_table ctx p (.queueEnd endStream) (by rfl))))

theorem queueRest_sends (ctx : Http2Ctx) (rest : Bytes) {endStream : Bool} (totalSent : Nat)
    (hop : A ctx.table (.edit p (.queueEnd endStream))) :
    Sending K A p ctx (queueRest ctx p rest endStream totalSent).1 := by
  have hqueue : Sending K A p ctx _ := http2StreamQueueSendBody_sends ctx rest hop
  unfold queueRest
  split
  all_goals
    next heq =>
      rw [heq] at hqueue
      exact hqueue

/-- The loop sends pieces; the end of the stream is sent with the last one, or
queued. -/
theorem writeBodyLoop_sends
    (fuel : Nat) {ctx₀ ctx : Http2Ctx} (data rest : Bytes) (endStream : Bool) (totalSent : Nat)
    (hlinked : (ctx.heap p).linked = true)
    (hstate : (ctx.table.view p).state = (ctx₀.heap p).state) :
    Sending K (Allowed ctx₀ (.writeBody p data endStream)) p ctx
    (writeBodyLoop fuel ctx p rest endStream totalSent).1 := by
  induction fuel generalizing ctx rest totalSent with
  | zero => exact .refl
  | succ fuel ih =>
  unfold writeBodyLoop
  dsimp only
  split
  · exact .refl
  split
  · exact (setErrno_still ctx Kind.plain_only _).sends
  split
  · exact queueRest_sends ctx _ _ (.writeQueue hstate)
  next hopen =>
  rw [Bool.not_eq_true, Bool.or_eq_false_iff] at hopen
  split
  next hsend =>
    have hsent : SendingStep K (Allowed ctx₀ (.writeBody p data endStream)) p ctx _ :=
      .frame (length_take_toSend_le ctx _ _) hsend nofun
    split
    · rw [← (http2SendDataFrame_same hsend).2] at hstate
      exact .head hsent (queueRest_sends _ _ _ (.writeQueue hstate))
    · exact .single hsent
  next ctx₁ hsend =>
  obtain ⟨hheap, htable⟩ := http2SendDataFrame_same hsend
  refine .head (.chunk hlinked hopen.1 hsend fun hend => ?_) ?_
  · obtain rfl := (Bool.and_eq_true_iff.mp hend).1
    exact .writeEnd hstate
  generalize toSend ctx (ctx.heap p) rest.length = n
  cases hend : endStream && n == rest.length with
  | false =>
    have hsame : (spendWindow ctx₁ p n false).table = ctx₁.table :=
      setStream_table_same { ctx₁ with sendConnWindowSize := _ } p rfl
    refine ih _ _ (by rwa [spendWindow_linked, hheap]) ?_
    rw [hsame, htable]
    exact hstate
  | true =>
    -- the last piece: nothing is left for the next turn
    simp only [Bool.and_eq_true, beq_iff_eq] at hend
    rw [hend.2, List.drop_length, writeBodyLoop_nil]

variable (ctx : Http2Ctx)

theorem http2StreamWriteBody_sends (data : Bytes) (endStream : Bool) :
    Sending K (Allowed ctx (.writeBody p data endStream)) p ctx
    (http2StreamWriteBody ctx p data endStream).1 := by
  unfold http2StreamWriteBody
  split
  · exact .refl
  next hnonempty =>
  split
  · exact .refl
  next hlinked =>
  rw [Bool.not_eq_true, Bool.not_eq_false'] at hlinked
  repeat' split
  · exact (setErrno_still ctx Kind.plain_only _).sends
  · have hqueue : Sending K (Allowed ctx (.writeBody p data endStream)) p ctx _ :=
      http2StreamQueueSendBody_sends ctx data (.writeQueue rfl)
    unfold writeBodyQueued
    split
    next heq =>
      rw [heq] at hqueue
      exact hqueue
    next heq =>
    rw [heq] at hqueue
    have h := hqueue.trans (http2StreamFlushPendingSend_sends
      (fun _ _ h => .drain trivial (.flush h)) _)
    dsimp only
    split
    all_goals exact h
  next hnil =>
    obtain rfl : endStream = true := by simpa [hnil] using hnonempty
    unfold writeBodyEnd
    repeat' split
    · exact .refl
    next hsend => exact .single (.frame (Nat.zero_le _) hsend nofun)
    next hsend =>
    refine .head (.frame (Nat.zero_le _) hsend fun _ => ⟨rfl, hlinked⟩) (.single (.edit
      (http2StreamMarkEndSent_fixed _).1 (http2StreamMarkEndSent_fixed _).2.1
      (http2StreamMarkEndSent_fixed _).2.2 (.op _ (.writeEnd ?_)
        (setStream_table _ p .endSent (http2StreamMarkEndSent_view _)))))
    rw [(http2SendDataFrame_same hsend).2]
    rfl
  · exact writeBodyLoop_sends _ data data endStream 0 hlinked rfl

theorem http2StreamSetRequest_sends
    (henc : .encoder ∈ K) (method path : CStr) (scheme : Option CStr) (headers : List HeaderPair) :
    Sending K (Allowed ctx (.setRequest p method path scheme headers)) p ctx
    (http2StreamSetRequest ctx p method path scheme headers).1 := by
  unfold http2StreamSetRequest
  split
  · exact .refl
  dsimp only
  generalize requestHeaders ctx method path scheme headers = fields
  have hfields : Still [.plain] ctx (ctx.modifyStream p fun s => { s with headerList := fields }) :=
    modifyStream_still ctx Kind.plain_only p _ fun _ => ⟨rfl, rfl⟩
  generalize ctx.modifyStream p (fun s => { s with headerList := fields }) = ctx₁ at hfields ⊢
  refine (hfields.sends.tail (.headers henc _ _ _)).tail (.edit rfl rfl rfl
    (.op (.edit p (.request _)) ?_ (setStream_table _ p _ (by rfl))))
  rw [http2SendHeadersFrame_table, hfields.table]
  exact .request

theorem closeNow_steps (hclose : A ctx.table (.edit p .close)) :
    ∃ ctx₁, Traced [.plain] A ctx ctx₁ ∧ closeNow ctx p = http2RemoveStream ctx₁ p := by
  have hclosed := closed_traced ctx Kind.plain_only p hclose
  unfold closeNow
  dsimp only
  split
  · exact ⟨_, hclosed.trans (http2SendRstStream_still _ Kind.plain_only _ _).traced, rfl⟩
  · exact ⟨_, hclosed, rfl⟩

theorem closeNow_changes (p : StreamPtr) : Changes [.plain, .remove] ctx (closeNow ctx p) := by
  obtain ⟨ctx₁, h, heq⟩ := @closeNow_steps (fun _ _ => True) p ctx trivial
  rw [heq]
  exact (h.changes.mono (by simp)).trans (.one (.remove p) (by simp))

theorem http2StreamClose_sends (hremove : .remove ∈ K) :
    Sending K (Allowed ctx (.close p)) p ctx (http2StreamClose ctx p) := by
  have hnow : ∀ ctx₁, Sending K (Allowed ctx (.close p)) p ctx₁ (closeNow ctx₁ p) := by
    intro ctx₁
    obtain ⟨ctx₂, h, heq⟩ := closeNow_steps ctx₁ (@Allowed.close ctx _ p)
    rw [heq]
    exact .head (.plain h) (.single (.remove hremove fun _ _ => .drain trivial))
  have hclosed : ∀ ctx₁, SendingStep K (Allowed ctx (.close p)) p ctx₁
      (ctx₁.modifyStream p fun s => { s with state := .closed }) :=
    fun ctx₁ => .plain (closed_traced ctx₁ Kind.plain_only p .close)
  unfold http2StreamClose
  split
  · exact .refl
  split
  · have hmark := modifyStream_still ctx Kind.plain_only p
      (fun s => { s with closeAfterSend := true }) fun _ => ⟨rfl, rfl⟩
    have hflush : Sending K (Allowed ctx (.close p)) p ctx _ :=
      hmark.sends.trans (http2StreamFlushPendingSend_sends
        (fun _ _ h => .drain trivial (.flush h)) _)
    dsimp only
    repeat' split
    · exact hflush.tail (hclosed _)
    · exact (hflush.tail (hclosed _)).trans (hnow _)
    · exact hflush
    · exact hflush.trans (hnow _)
  · exact hnow ctx

end Bodies

/-! ### Events -/

section

variable (ctx : Http2Ctx)

theorem http2CtxFlushPendingSendBodies_traced
    {K : List Kind} (hK : .plain ∈ K) (hremove : .remove ∈ K)
    (hbody : ∀ p ∈ ctx.streams, .body p ∈ K) :
    Traced K Draining ctx (http2CtxFlushPendingSendBodies ctx) := by
  unfold http2CtxFlushPendingSendBodies
  generalize ctx.streams = streams at hbody
  induction streams generalizing ctx with
  | nil => exact .refl ctx
  | cons p rest ih =>
    exact ((flushStream_sends ctx hremove).traced hK (hbody p List.mem_cons_self)).trans
      (ih _ fun q hq => hbody q (List.mem_cons_of_mem p hq))

theorem creditWindow_streams (streamId increment : Nat) :
    (creditWindow ctx streamId increment).1.streams = ctx.streams := by
  unfold creditWindow
  repeat' split
  all_goals first | rfl | (dsimp only; split <;> rfl)

theorem http2ProcessWindowUpdateFrame_traced
    {K : List Kind} (hK : .plain ∈ K) (hgrant : .grant ∈ K) (hremove : .remove ∈ K)
    (hbody : ∀ p ∈ ctx.streams, .body p ∈ K) (streamId : Nat) (data : Bytes) :
    Traced K Draining ctx (http2ProcessWindowUpdateFrame ctx streamId data).1 := by
  have hcredit := creditWindow_still hK hgrant ctx streamId (windowIncrement data)
  have hstreams := creditWindow_streams ctx streamId (windowIncrement data)
  unfold http2ProcessWindowUpdateFrame
  repeat' split
  · exact (failConnection_still ctx hK _).traced
  · exact (failConnection_still ctx hK _).traced
  · exact (failStream_still ctx hK _ _).traced
  next heq => exact (hcredit.fst heq).traced
  next heq =>
  rw [heq] at hstreams
  refine (hcredit.fst heq).traced.trans (http2CtxFlushPendingSendBodies_traced _ hK hremove ?_)
  rwa [hstreams]

theorem dispatchFrame_traced (f : Frame) :
    Traced (f.kinds ctx.streams) (Allowed ctx (.recvFrame f)) ctx (dispatchFrame ctx f) := by
  unfold dispatchFrame Frame.kinds
  by_cases hdata : f.type = frameData
  · rw [if_pos hdata, if_pos hdata]
    exact frameResult_traced ctx (by simp)
      (http2ProcessDataFrame_traced ctx (by simp) (by simp) hdata)
  rw [if_neg hdata, if_neg hdata]
  by_cases hheaders : f.type = frameHeaders
  · rw [if_pos (Or.inl hheaders), if_pos hheaders]
    exact frameResult_traced ctx (by simp) (OpensOne.traced ctx (by simp)
      (http2ProcessHeadersFrame_opensOne ctx (by simp) (by simp) hheaders))
  by_cases hcont : f.type = frameContinuation
  · rw [if_pos (Or.inr hcont), if_neg hheaders, if_pos hcont]
    exact frameResult_traced ctx (by simp) (OpensOne.traced ctx (by simp)
      (http2ProcessContinuationFrame_opensOne ctx (by simp) (by simp) hcont))
  rw [if_neg (not_or.mpr ⟨hheaders, hcont⟩), if_neg hheaders, if_neg hcont]
  split
  · split
    · exact (failConnection_still ctx (by simp) _).traced
    · exact frameResult_traced ctx (by simp)
        (http2ProcessSettingsFrame_still (by simp) (by simp) ctx _ _
          fun entry h hid => by simpa using ⟨entry.2, hid ▸ h⟩).traced
  split
  next htype =>
    exact frameResult_traced ctx (by simp)
      ((http2ProcessWindowUpdateFrame_traced ctx (by simp) (by simp) (by simp) (by simp)
        _ _).mono fun _ _ => .drain htype)
  split
  · exact (processPing_still ctx (by simp) f).traced
  split
  next htype => exact processRstStream_traced ctx (by simp) htype
  split
  · exact (processGoaway_still ctx (by simp) f).traced
  · exact .refl ctx

/-- A frame changes neither the side that this is nor `io_closed`. -/
theorem dispatchFrame_setup (f : Frame) :
    (dispatchFrame ctx f).isClient = ctx.isClient ∧
    (dispatchFrame ctx f).ioClosed = ctx.ioClosed := by
  obtain ⟨ops, hok, hrun⟩ := (dispatchFrame_traced ctx f).performs
  have hinv : ∀ t op, t.isClient = ctx.table.isClient ∧ t.ioClosed = ctx.table.ioClosed →
      Allowed ctx (.recvFrame f) t op →
      (t.apply op).isClient = ctx.table.isClient ∧ (t.apply op).ioClosed = ctx.table.ioClosed := by
    intro t op h hop
    cases op with
    | create streamId => exact h
    | unmap p => exact h
    | edit p e => exact h
    | disconnect =>
      cases hop with
      | drain _ hdrain =>
        cases hdrain with
        | flush hflush => cases hflush
  have h := run_invariant _ _ hinv ⟨rfl, rfl⟩ hok
  rw [hrun] at h
  exact h

theorem plain_mem_kinds (streams : List StreamPtr) (f : Frame) : .plain ∈ f.kinds streams := by
  unfold Frame.kinds
  repeat' split
  all_goals simp

theorem step_traced (e : Event) : Traced (e.kinds ctx) (Allowed ctx e) ctx (step ctx e) := by
  cases e with
  | recvFrame f =>
    have hplain := plain_mem_kinds ctx.streams f
    rw [step, http2ProcessFrame]
    repeat' split
    · exact .refl ctx
    · exact (setStatus_still ctx hplain (by decide)).traced
    · exact (failConnection_still ctx hplain _).traced
    · exact dispatchFrame_traced ctx f
  | flushWrites => exact (flushWrites_still ctx (by simp [kinds])).traced
  | flushBodies =>
    exact (http2CtxFlushPendingSendBodies_traced ctx (by simp [kinds])
      (by simp [kinds]) (by simp [kinds])).mono fun _ _ => .drain trivial
  | collectReady room checkWritable =>
    exact (Still.one (.collect room checkWritable) (by simp [kinds]) rfl).traced
  | acceptStream => exact (acceptStream_still ctx (by simp [kinds])).traced
  | streamNew =>
    rw [step, http2StreamNew]
    repeat' split
    · exact (setErrno_still ctx (by simp [kinds]) _).traced
    · exact (setErrno_still ctx (by simp [kinds]) _).traced
    refine ⟨(Changes.one .nextStreamId (by simp [kinds])).trans
      (.one (.create _) (by simp [kinds])), ?_⟩
    rcases http2CreateStream_table { ctx with nextStreamId := ctx.nextStreamId + 2 }
      ctx.nextStreamId with ⟨-, htable⟩ | ⟨-, htable⟩
    · exact .of_eq htable
    · exact .op _ .createLocal htable
  | setRequest p method path scheme headers =>
    exact (http2StreamSetRequest_sends ctx (by simp [kinds]) _ _ _ _).traced (by simp [kinds])
      (by simp [kinds])
  | setResponse p status headers =>
    exact (http2StreamSetResponse_still ctx (by simp [kinds]) (by simp [kinds]) p status
      headers).traced
  | writeBody p data endStream =>
    exact (http2StreamWriteBody_sends ctx _ _).traced (by simp [kinds])
      (by simp [kinds])
  | readBody p len inflated =>
    exact http2StreamReadBody_traced ctx (by simp [kinds]) p len inflated
  | close p =>
    exact (http2StreamClose_sends ctx (by simp [kinds])).traced (by simp [kinds])
      (by simp [kinds])
  | disconnect => exact ⟨.one .disconnect (by simp [kinds]), .op .disconnect .disconnect rfl⟩

/-- **Every event is a sequence of changes of its kinds.** -/
theorem step_changes (e : Event) : Changes (e.kinds ctx) ctx (step ctx e) :=
  (step_traced ctx e).changes

/-- **Every event is a run of allowed operations on the stream table.** -/
theorem step_performs (e : Event) : Performs (Allowed ctx e) ctx (step ctx e) :=
  (step_traced ctx e).performs

end

/-- A new connection differs from the bare one by frames of fixed size. -/
theorem http2CtxNew_changes
    (isClient : Bool) (server : CStr) (maxConcurrentStreams : Int) (bio : List BioWrite) :
    Changes [.plain] (http2CtxInitCommon isClient server maxConcurrentStreams bio)
    (http2CtxNew isClient server maxConcurrentStreams bio) := by
  unfold http2CtxNew
  dsimp only
  split
  · exact (Changes.one (.control _ rfl (by rw [SentFrame.wire])) (by simp)).trans
      (http2SendSettings_still _ (by simp) false).changes
  · exact (http2SendSettings_still _ (by simp) false).changes

end SmartDns.Http2
