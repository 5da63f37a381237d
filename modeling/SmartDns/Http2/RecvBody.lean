import SmartDns.Http2.ReadBuffer
import SmartDns.Http2.Walk

/-!
# The received body

The connection with its read buffer, taken turn by turn of the loop of
`_http2_process_frames` and with every other call between two turns.  An observer
records the content of each DATA frame that a stream accepted, once, with the pad
length and the padding removed.
-/

namespace SmartDns.Http2

open Hpack List StreamTable

variable {r : Received} {p : StreamPtr} {t : StreamTable} {conn : Http2Conn} {ctx : Http2Ctx}

/-! ### Runs of a connection with its read buffer -/

/-- The start of a call of `_http2_process_frames`, one turn of its loop, or
another call of the interface. -/
inductive ConnEvent
  | start
  | turn
  | app (e : Event)

/-- The loop of `_http2_process_frames` is reached. -/
def Http2Conn.looping (conn : Http2Conn) : Bool :=
  !conn.ctx.ioClosed && (conn.ctx.isClient || conn.prefaceReceived)

/-- The effect of one event.  Frames come from the transport only. -/
def connStep (conn : Http2Conn) : ConnEvent → Http2Conn
  | .start =>
    if conn.ctx.ioClosed then conn
    else (http2VerifyConnectionPreface { conn with wantRead := false }).1
  | .turn => if conn.looping then (frameTurn conn).1 else conn
  | .app (.recvFrame _) => conn
  | .app e => { conn with ctx := step conn.ctx e }

def http2ConnNew
    (isClient : Bool) (server : CStr) (maxConcurrentStreams : Int) (bio : List BioWrite)
    (tape : List BioRead) : Http2Conn where
  ctx := http2CtxNew isClient server maxConcurrentStreams bio
  bio := tape

/-! ### What the peer has transmitted -/

/-- The data of a DATA frame, without the pad length and the padding. -/
def dataField (f : Frame) : Bytes :=
  if hasFlag f.flags flagPadded then
    match f.payload with
    | [] => []
    | padLen :: data => data.take (data.length - padLen.toNat)
  else f.payload

/-- The stream that takes the payload of a DATA frame in: the frame passes every
check of `_http2_process_data_frame`. -/
def dataAccepted (ctx : Http2Ctx) (f : Frame) : Option StreamPtr :=
  if f.streamId = 0 then none
  else
    match http2FindStream ctx f.streamId with
    | none => none
    | some p =>
      let s := ctx.heap p
      let bodyLen := s.bodyBuffer.length + f.payload.length
      if s.endStreamReceived || s.state == .halfClosedRemote || s.state == .closed then none
      else if intMax - f.payload.length < s.bodyBuffer.length then none
      else if contentLengthMismatch s bodyLen (hasFlag f.flags flagEndStream) then none
      else if 1024 * 1024 < bodyLen then none
      else if s.recvWindowSize < f.payload.length ∨
          ctx.recvConnWindowSize < f.payload.length then
        none
      else (growBodyBuffer s.bodyBufferSize bodyLen).map fun _ => p

/-- The connection at the point where a turn hands its frame to the switch. -/
def turnFrame (conn : Http2Conn) : Option Http2Conn :=
  match fillBuffer conn frameHeaderSize 0 with
  | (_, some _) => none
  | (conn, none) =>
    match headerRefused conn.ctx conn.readBuffer with
    | some _ => none
    | none =>
      match fillBuffer conn (frameHeaderSize + frameLength conn.readBuffer) 0 with
      | (_, some _) => none
      | (conn, none) => some conn

structure Received where
  /-- The content of the accepted DATA frames, in the order of the wire. -/
  frames : List (StreamPtr × Bytes) := []
  /-- The frame at the start of the read buffer is already among them. -/
  counted : Bool := false

/-- The content that was transmitted to a stream. -/
def Received.content (r : Received) (p : StreamPtr) : Bytes :=
  (r.frames.filter (·.1 = p)).flatMap (·.2)

/-- The switch meets the frame at the start of the buffer. -/
def Received.observeFrame (r : Received) (conn : Http2Conn) : Received :=
  let f := frameAt conn.readBuffer
  -- a frame that ends the call stays in the buffer
  let stays := (handleFrame conn).2.isSome
  match if f.type = frameData then dataAccepted conn.ctx f else none with
  | none => { r with counted := r.counted && stays }
  | some p =>
    { frames := if r.counted then r.frames else r.frames ++ [(p, dataField f)]
      counted := stays }

/-- The observer of a run. -/
def observeData (conn : Http2Conn) (e : ConnEvent) (r : Received) : Received :=
  match e with
  | .turn =>
    if conn.looping then
      match turnFrame conn with
      | none => r
      | some conn => r.observeFrame conn
    else r
  | _ => r

/-- The stream is as `_http2_mark_stream_reset` leaves it. -/
def StreamView.isReset (v : StreamView) : Prop :=
  v.state = .closed ∧ v.endStreamReceived = true ∧ v.readHandled = true ∧ v.body = []

/-- The body of a stream is what was transmitted to it. -/
def BodyExact (ctx : Http2Ctx) (r : Received) (p : StreamPtr) : Prop :=
  (ctx.heap p).bodyBuffer = r.content p

instance : Decidable (BodyExact ctx r p) :=
  inferInstanceAs (Decidable (_ = _))

/-- The buffer holds a complete DATA frame, which an earlier turn has left. -/
def dataLeft (buffer : Bytes) : Prop :=
  frameHeaderSize + frameLength buffer ≤ buffer.length ∧ (frameAt buffer).type = frameData

instance (buffer : Bytes) : Decidable (dataLeft buffer) :=
  inferInstanceAs (Decidable (_ ∧ _))

/-- A turn that neither meets a DATA frame again nor a padded one. -/
def plainData (conn : Http2Conn) : ConnEvent → Prop
  | .turn =>
    ¬dataLeft conn.readBuffer ∧
      ∀ conn' ∈ turnFrame conn, (frameAt conn'.readBuffer).type = frameData →
        hasFlag (frameAt conn'.readBuffer).flags flagPadded = false
  | _ => True

/-! ### The DATA handler on the table -/

/-- What the DATA handler does to the table, given the stream that accepts the
frame. -/
inductive DataEffect (ctx : Http2Ctx) (f : Frame) (t : StreamTable) : Option StreamPtr → Prop
  | accepted {p : StreamPtr} (found : ctx.table.find f.streamId = some p)
      (receiving : (ctx.heap p).endStreamReceived = false)
      (table : t = ctx.table.edit p (.data f.payload (hasFlag f.flags flagEndStream))) :
      DataEffect ctx f t (some p)
  | same (table : t = ctx.table) : DataEffect ctx f t none
  | reset {p : StreamPtr} (table : t = ctx.table.edit p .reset) : DataEffect ctx f t none

theorem http2ProcessDataFrame_effect (ctx : Http2Ctx) (f : Frame) :
    DataEffect ctx f (http2ProcessDataFrame ctx f.streamId f.payload f.flags).1.table
      (dataAccepted ctx f) := by
  simp only [http2ProcessDataFrame, dataAccepted]
  by_cases hid : f.streamId = 0
  · simp only [if_pos hid]
    exact .same rfl
  simp only [if_neg hid]
  cases hfind : http2FindStream ctx f.streamId with
  | none =>
    refine .same ?_
    dsimp only
    split <;> rfl
  | some p =>
  dsimp only
  by_cases hlate : ((ctx.heap p).endStreamReceived || (ctx.heap p).state == .halfClosedRemote ||
      (ctx.heap p).state == .closed) = true
  · simp only [if_pos hlate]
    split
    · exact .reset (http2MarkStreamReset_table _ p)
    · exact .same rfl
  simp only [if_neg hlate]
  by_cases hint : intMax - (f.payload.length : Int) < (ctx.heap p).bodyBuffer.length
  · simp only [if_pos hint]
    exact .same rfl
  simp only [if_neg hint]
  have htable := (http2CheckContentLength_still ctx Kind.plain_only p f.streamId
    ((ctx.heap p).bodyBuffer.length + f.payload.length) (hasFlag f.flags flagEndStream)).table
  obtain ⟨hmismatch, hwindow⟩ := http2CheckContentLength_result ctx p f.streamId
    ((ctx.heap p).bodyBuffer.length + f.payload.length) (hasFlag f.flags flagEndStream)
  rw [← hmismatch]
  generalize http2CheckContentLength ctx p f.streamId _ _ = r at htable hwindow ⊢
  obtain ⟨ctx₁, mismatch⟩ := r
  dsimp only at htable hwindow
  cases mismatch with
  | true =>
    refine .reset (p := p) ?_
    rw [http2MarkStreamReset_table, htable]
  | false =>
  simp only [Bool.false_eq_true, if_false, hwindow]
  by_cases hsize : 1024 * 1024 < (ctx.heap p).bodyBuffer.length + f.payload.length
  · simp only [if_pos hsize]
    exact .same htable
  simp only [if_neg hsize]
  by_cases hcredit : (ctx.heap p).recvWindowSize < f.payload.length ∨
      ctx.recvConnWindowSize < f.payload.length
  · simp only [if_pos hcredit]
    exact .same htable
  simp only [if_neg hcredit]
  cases growBodyBuffer (ctx.heap p).bodyBufferSize
      ((ctx.heap p).bodyBuffer.length + f.payload.length) with
  | none => exact .same htable
  | some size =>
    refine .accepted hfind ?_ ?_
    · simp only [Bool.or_eq_true, not_or, Bool.not_eq_true] at hlate
      exact hlate.1.1
    · rw [(acceptData_edits (K := [.plain, .recvWindow]) ctx₁ (by simp) (by simp) p _ _ _
        size).2, htable]

/-! ### The body of one stream -/

/-- The body is the content, unless it was dropped or inflated. -/
def StreamView.BodyOk (v : StreamView) (content : Bytes) : Prop :=
  v.isReset ∨ v.decompressed = true ∨ v.body = content

/-- An edit that is not the payload of a DATA frame keeps the content. -/
theorem StreamEdit.apply_bodyOk {e : StreamEdit} {v : StreamView} {content : Bytes}
    (hdata : ∀ payload endStream, e ≠ .data payload endStream) (h : v.BodyOk content) :
    (e.apply v).BodyOk content := by
  cases e with
  | data payload endStream => exact absurd rfl (hdata payload endStream)
  | inflate body => exact .inr (.inl rfl)
  | reset => exact .inl ⟨rfl, rfl, rfl, rfl⟩
  | unlink => exact h
  | queueEnd endStream => exact h
  | clearQueue => exact h
  | close => exact h.imp_left fun hreset => ⟨rfl, hreset.2⟩
  | readEnd => exact h.imp_left fun hreset => ⟨hreset.1, hreset.2.1, rfl, hreset.2.2.2⟩
  | request endStream =>
    refine h.imp_left fun hreset => ⟨?_, hreset.2⟩
    simp [StreamEdit.apply, StreamView.opened, hreset.1]
  | headers endStream =>
    cases endStream with
    | false =>
      refine h.imp_left fun hreset => ⟨?_, hreset.2⟩
      simp [StreamEdit.apply, StreamView.opened, hreset.1]
    | true =>
      refine h.imp_left fun hreset => ⟨?_, rfl, hreset.2.2⟩
      simp [StreamEdit.apply, StreamView.headersEnd, StreamView.opened, hreset.1]
  | endSent =>
    simp only [StreamEdit.apply, StreamView.endSent]
    split
    · exact h
    · refine h.imp_left fun hreset => ⟨?_, hreset.2⟩
      simp [hreset.1]

theorem StreamView.BodyOk.data {v : StreamView} {content : Bytes} (h : v.BodyOk content)
    (hreceiving : v.endStreamReceived = false) (payload : Bytes) (endStream : Bool) :
    ((StreamEdit.data payload endStream).apply v).BodyOk (content ++ payload) := by
  rcases h with hreset | hinflated | hbody
  · rw [hreset.2.1] at hreceiving
    cases hreceiving
  · right
    left
    cases endStream <;> exact hinflated
  · right
    right
    rw [← hbody]
    cases endStream <;> rfl

/-! ### The table and the record -/

/-- The bodies of a table are the contents of a record. -/
structure TableBodies (t : StreamTable) (r : Received) : Prop where
  body : ∀ p, (t.view p).BodyOk (r.content p)
  mapped : ∀ p ∈ t.map, p < t.nextPtr
  received : ∀ frame ∈ r.frames, frame.1 < t.nextPtr

theorem Received.content_eq_nil (h : ∀ frame ∈ r.frames, frame.1 ≠ p) : r.content p = [] := by
  have hnone : r.frames.filter (·.1 = p) = [] := by
    rw [filter_eq_nil_iff]
    intro frame hmem
    simpa using h frame hmem
  rw [Received.content, hnone]
  rfl

theorem TableBodies.apply
    {op : TableOp} (hdata : ∀ p payload endStream, op ≠ .edit p (.data payload endStream))
    (h : TableBodies t r) : TableBodies (t.apply op) r := by
  cases op with
  | disconnect => exact ⟨h.body, h.mapped, h.received⟩
  | unmap p => exact ⟨h.body, fun q hq => h.mapped q (mem_of_mem_erase hq), h.received⟩
  | edit p e =>
    refine ⟨fun q => ?_, h.mapped, h.received⟩
    by_cases hq : q = p
    · rw [hq, StreamTable.apply, StreamTable.edit, StreamTable.setView_view_self]
      refine StreamEdit.apply_bodyOk ?_ (h.body p)
      rintro payload endStream rfl
      exact hdata p payload endStream rfl
    · have hview : ((t.apply (.edit p e)).view q) = t.view q := if_neg hq
      rw [hview]
      exact h.body q
  | create streamId =>
  refine ⟨fun q => ?_, ?_, fun frame hmem => Nat.lt_succ_of_lt (h.received frame hmem)⟩
  · by_cases hq : q = t.nextPtr
    · have hview : ((t.apply (.create streamId)).view q) = .fresh streamId := if_pos hq
      rw [hview, Received.content_eq_nil fun frame hmem => ?_]
      · exact .inr (.inr rfl)
      · rw [hq]
        exact (h.received frame hmem).ne
    · have hview : ((t.apply (.create streamId)).view q) = t.view q := if_neg hq
      rw [hview]
      exact h.body q
  · intro q hq
    rcases mem_cons.mp hq with rfl | hq
    · exact Nat.lt_succ_self _
    · exact Nat.lt_succ_of_lt (h.mapped q hq)

theorem Received.content_append (r : Received) (p q : StreamPtr) (data : Bytes) (counted : Bool) :
    ({ frames := r.frames ++ [(p, data)], counted := counted } : Received).content q =
      r.content q ++ if q = p then data else [] := by
  by_cases hq : q = p
  · simp [Received.content, hq]
  · simp [Received.content, hq, Ne.symm hq]

theorem TableBodies.data
    (h : TableBodies t r) (hmap : p ∈ t.map) (hreceiving : (t.view p).endStreamReceived = false)
    (payload : Bytes) (endStream counted : Bool) :
    TableBodies (t.edit p (.data payload endStream))
      { frames := r.frames ++ [(p, payload)], counted := counted } := by
  refine ⟨fun q => ?_, h.mapped, ?_⟩
  · rw [Received.content_append]
    by_cases hq : q = p
    · rw [if_pos hq, hq, edit, setView_view_self]
      exact (h.body p).data hreceiving payload endStream
    have hview : ((t.edit p (.data payload endStream)).view q) = t.view q := if_neg hq
    rw [if_neg hq, append_nil, hview]
    exact h.body q
  · intro frame hmem
    rcases mem_append.mp hmem with hmem | hmem
    · exact h.received frame hmem
    · obtain rfl := mem_singleton.mp hmem
      exact h.mapped p hmap

/-! ### The turns of the loop -/

/-- What reading does to the connection. -/
structure BufferOnly (conn conn' : Http2Conn) : Prop where
  table : conn'.ctx.table = conn.ctx.table
  preface : conn'.prefaceReceived = conn.prefaceReceived
  buffer : conn.readBuffer = conn'.readBuffer.take conn.readBuffer.length

theorem BufferOnly.refl (conn : Http2Conn) : BufferOnly conn conn :=
  ⟨rfl, rfl, take_length.symm⟩

theorem fillBuffer_bufferOnly (conn : Http2Conn) (needed : Nat) (short : Int) :
    BufferOnly conn (fillBuffer conn needed short).1 ∧ ((fillBuffer conn needed short).2 = none →
        needed ≤ (fillBuffer conn needed short).1.readBuffer.length) := by
  rw [fillBuffer]
  split
  · split
    · exact ⟨⟨rfl, rfl, take_length.symm⟩, nofun⟩
    · exact ⟨⟨rfl, rfl, take_length.symm⟩, nofun⟩
    · exact ⟨⟨rfl, rfl, take_length.symm⟩, nofun⟩
    dsimp only
    split
    · exact ⟨⟨rfl, rfl, take_left.symm⟩, nofun⟩
    next hlen => exact ⟨⟨rfl, rfl, take_left.symm⟩, fun _ => Nat.not_lt.mp hlen⟩
  next hlen => exact ⟨.refl conn, fun _ => Nat.not_lt.mp hlen⟩

/-- The two kinds of turns: those that only read, and those that hand a complete
frame to the switch. -/
inductive TurnCase (conn : Http2Conn) : Option Http2Conn → Http2Conn × Option Int → Prop
  | reads {r : Http2Conn × Option Int} (table : r.1.ctx.table = conn.ctx.table)
      (preface : r.1.prefaceReceived = conn.prefaceReceived) : TurnCase conn none r
  | frame {conn' : Http2Conn} (table : conn'.ctx.table = conn.ctx.table)
      (preface : conn'.prefaceReceived = conn.prefaceReceived)
      (complete : frameHeaderSize + frameLength conn'.readBuffer ≤ conn'.readBuffer.length) :
      TurnCase conn (some conn') (handleFrame conn')

theorem frameTurn_cases (conn : Http2Conn) : TurnCase conn (turnFrame conn) (frameTurn conn) := by
  obtain ⟨hheader, hlen⟩ := fillBuffer_bufferOnly conn frameHeaderSize 0
  rw [turnFrame, frameTurn]
  generalize fillBuffer conn frameHeaderSize 0 = r₁ at hheader hlen ⊢
  obtain ⟨conn₁, ret₁⟩ := r₁
  cases ret₁ with
  | some ret => exact .reads hheader.table hheader.preface
  | none =>
  replace hlen : frameHeaderSize ≤ conn₁.readBuffer.length := hlen rfl
  dsimp only at hheader ⊢
  rw [readPayload]
  cases hrefused : headerRefused conn₁.ctx conn₁.readBuffer with
  | some ctx =>
    refine .reads ?_ hheader.preface
    rw [← hheader.table]
    rw [headerRefused] at hrefused
    split at hrefused
    · cases hrefused
      rfl
    split at hrefused
    · cases hrefused
      rfl
    · cases hrefused
  | none =>
  obtain ⟨hpayload, hcomplete⟩ := fillBuffer_bufferOnly conn₁
    (frameHeaderSize + frameLength conn₁.readBuffer) 0
  generalize fillBuffer conn₁ _ 0 = r₂ at hpayload hcomplete ⊢
  obtain ⟨conn₂, ret₂⟩ := r₂
  cases ret₂ with
  | some ret =>
    exact .reads (hpayload.table.trans hheader.table) (hpayload.preface.trans hheader.preface)
  | none =>
  refine .frame (hpayload.table.trans hheader.table)
    (hpayload.preface.trans hheader.preface) ?_
  have hlength : frameLength conn₁.readBuffer = frameLength conn₂.readBuffer := by
    rw [hpayload.buffer, frameLength_take hlen]
  rw [← hlength]
  exact hcomplete rfl

theorem handleFrame_ctx (conn : Http2Conn) :
    (handleFrame conn).1.ctx = dispatchFrame conn.ctx (frameAt conn.readBuffer) ∧
      (handleFrame conn).1.prefaceReceived = conn.prefaceReceived ∧
      ((handleFrame conn).2.isSome = true → (handleFrame conn).1.readBuffer = conn.readBuffer) := by
  simp only [handleFrame]
  cases dispatchReturn conn.ctx (frameAt conn.readBuffer) with
  | some ret => exact ⟨rfl, rfl, fun _ => rfl⟩
  | none => exact ⟨rfl, rfl, nofun⟩

theorem Http2Conn.looping_congr
    {conn' : Http2Conn} (hclient : conn'.ctx.isClient = conn.ctx.isClient)
    (hclosed : conn'.ctx.ioClosed = conn.ctx.ioClosed)
    (hpreface : conn'.prefaceReceived = conn.prefaceReceived) : conn'.looping = conn.looping := by
  rw [Http2Conn.looping, Http2Conn.looping, hclient, hclosed, hpreface]

theorem frameTurn_looping (conn : Http2Conn) : (frameTurn conn).1.looping = conn.looping := by
  have hcases := frameTurn_cases conn
  generalize frameTurn conn = result at hcases ⊢
  generalize turnFrame conn = met at hcases
  cases hcases with
  | reads table preface =>
    exact Http2Conn.looping_congr (congrArg isClient table)
      (congrArg ioClosed table) preface
  | @frame conn' table preface complete =>
    obtain ⟨hctx, hpreface, -⟩ := handleFrame_ctx conn'
    have hsetup := dispatchFrame_setup conn'.ctx (frameAt conn'.readBuffer)
    rw [← hctx] at hsetup
    exact Http2Conn.looping_congr (hsetup.1.trans (congrArg isClient table))
      (hsetup.2.trans (congrArg ioClosed table)) (hpreface.trans preface)

theorem frameLoop_run (fuel : Nat) (hloop : conn.looping = true) :
    ∃ turns, (frameLoop fuel conn).1 = run connStep conn (List.replicate turns .turn) := by
  induction fuel generalizing conn with
  | zero => exact ⟨0, rfl⟩
  | succ fuel ih =>
  have hstep : connStep conn .turn = (frameTurn conn).1 := if_pos hloop
  have hloop' := (frameTurn_looping conn).trans hloop
  rw [frameLoop]
  generalize frameTurn conn = r at hstep hloop' ⊢
  obtain ⟨conn', ret⟩ := r
  cases ret with
  | some ret => exact ⟨1, hstep.symm⟩
  | none =>
    obtain ⟨turns, hturns⟩ := ih hloop'
    refine ⟨turns + 1, ?_⟩
    rw [replicate_succ, run_cons, hstep]
    exact hturns

theorem verifyConnectionPreface_table (conn : Http2Conn) :
    (http2VerifyConnectionPreface conn).1.ctx.table = conn.ctx.table ∧
      ((http2VerifyConnectionPreface conn).2 = none →
        (conn.ctx.isClient || (http2VerifyConnectionPreface conn).1.prefaceReceived) = true) := by
  have hfill := (fillBuffer_bufferOnly conn connectionPrefaceLen errEagain).1.table
  rw [http2VerifyConnectionPreface]
  split
  next hready => exact ⟨rfl, fun _ => hready⟩
  generalize fillBuffer conn connectionPrefaceLen errEagain = r at hfill ⊢
  obtain ⟨conn₁, ret⟩ := r
  cases ret with
  | some ret => exact ⟨hfill, nofun⟩
  | none =>
    dsimp only
    split
    · exact ⟨hfill, nofun⟩
    · exact ⟨hfill, fun _ => Bool.or_true _⟩

theorem http2ProcessFrames_run (conn : Http2Conn) :
    ∃ turns, (http2ProcessFrames conn).1 =
      run connStep conn (.start :: List.replicate turns .turn) := by
  by_cases hclosed : conn.ctx.ioClosed = true
  · refine ⟨0, ?_⟩
    simp only [http2ProcessFrames, if_pos hclosed, run, replicate_zero, foldl_cons,
      connStep, foldl_nil]
  have hstart : connStep conn .start =
      (http2VerifyConnectionPreface { conn with wantRead := false }).1 := if_neg hclosed
  obtain ⟨htable, hready⟩ := verifyConnectionPreface_table { conn with wantRead := false }
  simp only [http2ProcessFrames, if_neg hclosed]
  generalize http2VerifyConnectionPreface _ = r at hstart htable hready ⊢
  obtain ⟨conn₁, ret⟩ := r
  cases ret with
  | some ret => exact ⟨0, hstart.symm⟩
  | none =>
  have hloop : conn₁.looping = true := by
    have hclient : conn₁.ctx.isClient = conn.ctx.isClient := congrArg isClient htable
    have hopen : conn₁.ctx.ioClosed = conn.ctx.ioClosed := congrArg ioClosed htable
    rw [Http2Conn.looping, hclient, hopen, hready rfl, Bool.and_true, Bool.not_eq_true']
    exact Bool.not_eq_true _ ▸ hclosed
  obtain ⟨turns, hturns⟩ := frameLoop_run
    (conn₁.readBuffer.length + (tapeBytes conn₁.bio).length + 1) hloop
  refine ⟨turns, ?_⟩
  rw [run_cons, hstart]
  exact hturns

/-! ### Whole runs -/

theorem TableBodies.performs {ctx' : Http2Ctx} {e : Event} (h : TableBodies ctx.table r)
    (hperforms : Performs (Allowed ctx e) ctx ctx')
    (hdata : ∀ f, e = .recvFrame f → f.type ≠ frameData) : TableBodies ctx'.table r := by
  obtain ⟨ops, hok, hrun⟩ := hperforms
  rw [← hrun]
  refine run_invariant _ (TableBodies · r) (fun t op hbodies hop => hbodies.apply ?_) h hok
  rintro p payload endStream rfl
  cases hop with
  | data htype => exact hdata _ rfl htype
  | drain _ hdrain =>
    cases hdrain with
    | flush hflush => cases hflush

structure RecvInv (conn : Http2Conn) (r : Received) : Prop where
  bodies : TableBodies conn.ctx.table r
  counted : r.counted = true →
    dataLeft conn.readBuffer ∧ (conn.ctx.isClient || conn.prefaceReceived) = true

theorem TableBodies.recount (h : TableBodies t r) (counted : Bool) :
    TableBodies t { r with counted := counted } :=
  ⟨h.body, h.mapped, h.received⟩

theorem find_mem {streamId : Nat} (h : t.find streamId = some p) : p ∈ t.map :=
  mem_of_find?_eq_some h

theorem observeFrame_bodies (h : TableBodies conn.ctx.table r) (hcounted : r.counted = false)
    (hplain : (frameAt conn.readBuffer).type = frameData →
      hasFlag (frameAt conn.readBuffer).flags flagPadded = false) :
    TableBodies (dispatchFrame conn.ctx (frameAt conn.readBuffer)).table (r.observeFrame conn) := by
  rw [Received.observeFrame]
  generalize frameAt conn.readBuffer = f at hplain ⊢
  by_cases htype : f.type = frameData
  · have heffect := http2ProcessDataFrame_effect conn.ctx f
    simp only [if_pos htype]
    rw [dispatchFrame, if_pos htype, frameResult_table]
    generalize dataAccepted conn.ctx f = accepted at heffect ⊢
    cases heffect with
    | accepted found receiving table =>
      have hfield : dataField f = f.payload := by
        rw [dataField, hplain htype]
        rfl
      simp only [hcounted, Bool.false_eq_true, if_false, hfield]
      rw [table]
      exact h.data (find_mem found) receiving _ _ _
    | same table =>
      rw [table]
      exact h.recount _
    | @reset p table =>
      rw [table]
      exact @TableBodies.apply _ _ (.edit p .reset) nofun (h.recount _)
  · simp only [if_neg htype]
    refine (h.recount _).performs (dispatchFrame_traced conn.ctx f).performs ?_
    rintro _ ⟨⟩
    exact htype

theorem observeFrame_counted
    (hcounted : r.counted = false) (h : (r.observeFrame conn).counted = true) :
    (frameAt conn.readBuffer).type = frameData ∧ (handleFrame conn).2.isSome = true := by
  simp only [Received.observeFrame] at h
  by_cases htype : (frameAt conn.readBuffer).type = frameData
  · simp only [if_pos htype] at h
    cases haccepted : dataAccepted conn.ctx (frameAt conn.readBuffer) with
    | none => simp [haccepted, hcounted] at h
    | some p =>
      rw [haccepted] at h
      exact ⟨htype, h⟩
  · simp [if_neg htype, hcounted] at h

theorem handleFrame_bodyInv (h : TableBodies conn.ctx.table r) (hcounted : r.counted = false)
    (hready : (conn.ctx.isClient || conn.prefaceReceived) = true)
    (hcomplete : frameHeaderSize + frameLength conn.readBuffer ≤ conn.readBuffer.length)
    (hplain : (frameAt conn.readBuffer).type = frameData →
      hasFlag (frameAt conn.readBuffer).flags flagPadded = false) :
    RecvInv (handleFrame conn).1 (r.observeFrame conn) := by
  obtain ⟨hctx, hpreface, hbuffer⟩ := handleFrame_ctx conn
  refine ⟨hctx ▸ observeFrame_bodies h hcounted hplain, fun hcounted' => ?_⟩
  obtain ⟨htype, hstays⟩ := observeFrame_counted hcounted hcounted'
  have hclient := (dispatchFrame_traced conn.ctx (frameAt conn.readBuffer)).performs.isClient
  rw [hbuffer hstays, hctx, hclient, hpreface]
  exact ⟨⟨hcomplete, htype⟩, hready⟩

theorem RecvInv.step {e : ConnEvent} (h : RecvInv conn r) (hok : plainData conn e) :
    RecvInv (connStep conn e) (observeData conn e r) := by
  cases e with
  | start =>
    simp only [connStep, observeData]
    split
    · exact h
    refine ⟨(verifyConnectionPreface_table _).1.symm ▸ h.bodies, fun hcounted => ?_⟩
    obtain ⟨hleft, hready⟩ := h.counted hcounted
    -- once a frame was met, the preface is over
    rw [http2VerifyConnectionPreface, if_pos hready]
    exact ⟨hleft, hready⟩
  | turn =>
    simp only [connStep, observeData]
    cases hloop : conn.looping with
    | false => exact h
    | true =>
      simp only [if_true]
      have hready : (conn.ctx.isClient || conn.prefaceReceived) = true :=
        (Bool.and_eq_true_iff.mp hloop).2
      have hcounted : r.counted = false := by
        rw [← Bool.not_eq_true]
        exact fun hcounted => hok.1 (h.counted hcounted).1
      have hcases := frameTurn_cases conn
      have hplain := hok.2
      generalize frameTurn conn = result at hcases ⊢
      generalize turnFrame conn = met at hcases hplain ⊢
      cases hcases with
      | reads table preface =>
        refine ⟨table ▸ h.bodies, fun hcounted' => ?_⟩
        rw [hcounted] at hcounted'
        cases hcounted'
      | @frame conn' table preface complete =>
        refine handleFrame_bodyInv (table ▸ h.bodies) hcounted ?_ complete (hplain conn' rfl)
        have hclient : conn'.ctx.isClient = conn.ctx.isClient := congrArg isClient table
        rw [hclient, preface]
        exact hready
  | app e =>
  by_cases hframe : ∃ f, e = .recvFrame f
  · obtain ⟨f, rfl⟩ := hframe
    exact h
  have hperforms := step_performs conn.ctx e
  have hstep : connStep conn (.app e) = { conn with ctx := Http2.step conn.ctx e } := by
    cases e with
    | recvFrame f => exact absurd ⟨f, rfl⟩ hframe
    | _ => rfl
  rw [hstep]
  refine ⟨h.bodies.performs hperforms fun f he => absurd ⟨f, he⟩ hframe, fun hcounted => ?_⟩
  rw [hperforms.isClient]
  exact h.counted hcounted

/-- A DATA frame for stream 1, on the wire. -/
def dataBytes (flags : Nat) (payload : Bytes) : Bytes :=
  http2WriteFrameHeader payload.length frameData flags 1 ++ payload

/-- A GOAWAY frame without an error, on the wire. -/
def goawayBytes : Bytes :=
  http2WriteFrameHeader 8 frameGoaway 0 0 ++ List.replicate 8 0

/-- A client opens a stream, and polls twice. -/
def twoPolls : List ConnEvent :=
  [.app .streamNew, .start, .turn, .turn, .start, .turn]

/-- A client whose transport never takes a byte, and delivers `bytes`. -/
def receivingClient (bytes : Bytes) : Http2Conn :=
  http2ConnNew true (CStr.ofString "dns") 0 [] [.data bytes]

end SmartDns.Http2
