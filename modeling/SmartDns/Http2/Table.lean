import SmartDns.Http2.Changes

/-!
# The stream table

The streams of a connection as a table with few operations: a stream is
created, edited, or taken out of the map.  `Allowed` says which operations an
event may perform, and in which state of the table.  The invariants of streams
are proved about the table.
-/

namespace SmartDns.Http2

open Hpack

structure StreamView where
  linked : Bool
  streamId : Nat
  state : StreamState
  endStreamReceived : Bool
  endStreamSent : Bool
  readHandled : Bool
  pendingEnd : Bool
  body : Bytes
  decompressed : Bool
deriving DecidableEq

def Http2Stream.view (s : Http2Stream) : StreamView where
  linked := s.linked
  streamId := s.streamId
  state := s.state
  endStreamReceived := s.endStreamReceived
  endStreamSent := s.endStreamSent
  readHandled := s.endStreamReadHandled
  pendingEnd := s.pendingSendEndStream
  body := s.bodyBuffer
  decompressed := s.bodyDecompressed

inductive StreamEdit
  | unlink
  | close
  | reset
  | request (endStream : Bool)
  | headers (endStream : Bool)
  | data (payload : Bytes) (endStream : Bool)
  | inflate (body : Bytes)
  | readEnd
  | queueEnd (endStream : Bool)
  | clearQueue
  | endSent

/-- The stream leaves the idle state. -/
def StreamView.opened (v : StreamView) : StreamView :=
  { v with state := if v.state = .idle then .opened else v.state }

/-- The peer's END_STREAM came with headers. -/
def StreamView.headersEnd (v : StreamView) : StreamView :=
  { v with
    endStreamReceived := true
    state := if v.state = .opened then .halfClosedRemote else v.state }

/-- The peer's END_STREAM came with data. -/
def StreamView.dataEnd (v : StreamView) : StreamView :=
  { v with
    endStreamReceived := true
    state :=
      match v.state with
      | .opened => .halfClosedRemote
      | .halfClosedLocal => .closed
      | state => state }

/-- The own END_STREAM was sent. -/
def StreamView.endSent (v : StreamView) : StreamView :=
  if v.endStreamSent then v
  else
    { v with
      endStreamSent := true
      state :=
        match v.state with
        | .opened => .halfClosedLocal
        | .halfClosedRemote => .closed
        | state => state }

def StreamEdit.apply (v : StreamView) : StreamEdit → StreamView
  | .unlink => { v with linked := false }
  | .close => { v with state := .closed }
  | .reset =>
    { v with state := .closed, endStreamReceived := true, readHandled := true, body := [] }
  | .request endStream => { v.opened with endStreamSent := v.endStreamSent || endStream }
  | .headers endStream => if endStream then v.opened.headersEnd else v.opened
  | .data payload endStream =>
    let v := { v with body := v.body ++ payload }
    if endStream then v.dataEnd else v
  | .inflate body => { v with body := body, decompressed := true }
  | .readEnd => { v with readHandled := true }
  | .queueEnd endStream => { v with pendingEnd := v.pendingEnd || endStream }
  | .clearQueue => { v with pendingEnd := false }
  | .endSent => v.endSent

/-- A stream as it is created. -/
def StreamView.fresh (streamId : Nat) : StreamView where
  linked := true
  streamId := streamId
  state := .idle
  endStreamReceived := false
  endStreamSent := false
  readHandled := false
  pendingEnd := false
  body := []
  decompressed := false

/-- The streams of a connection, and whether it takes frames. -/
structure StreamTable where
  isClient : Bool
  ioClosed : Bool
  view : StreamPtr → StreamView
  map : List StreamPtr
  nextPtr : StreamPtr
  maxLocal : Nat
  maxPeer : Nat

open StreamTable

def Http2Ctx.table (ctx : Http2Ctx) : StreamTable where
  isClient := ctx.isClient
  ioClosed := ctx.ioClosed
  view := fun p => (ctx.heap p).view
  map := ctx.streamMap
  nextPtr := ctx.nextPtr
  maxLocal := ctx.maxLocalStreamIdSeen
  maxPeer := ctx.maxPeerStreamIdSeen

namespace StreamTable

variable (t : StreamTable)

def find (streamId : Nat) : Option StreamPtr :=
  t.map.find? fun p => (t.view p).streamId == streamId

/-- An identifier that this side of the connection hands out. -/
def isLocal (streamId : Nat) : Bool :=
  if streamId = 0 then false
  else if t.isClient then streamId % 2 != 0
  else streamId % 2 == 0

def setView (p : StreamPtr) (v : StreamView) : StreamTable :=
  { t with view := fun q => if q = p then v else t.view q }

def edit (p : StreamPtr) (e : StreamEdit) : StreamTable :=
  t.setView p (e.apply (t.view p))

def create (streamId : Nat) : StreamTable where
  isClient := t.isClient
  ioClosed := t.ioClosed
  view := fun q => if q = t.nextPtr then .fresh streamId else t.view q
  map := t.nextPtr :: t.map
  nextPtr := t.nextPtr + 1
  maxLocal := if t.isLocal streamId then max t.maxLocal streamId else t.maxLocal
  maxPeer := if t.isLocal streamId then t.maxPeer else max t.maxPeer streamId

def unmap (p : StreamPtr) : StreamTable :=
  { t with map := t.map.erase p }

@[simp] theorem setView_view_self (p : StreamPtr) (v : StreamView) :
    (t.setView p v).view p = v := by
  simp [setView]

theorem setView_setView (p : StreamPtr) (v v' : StreamView) :
    (t.setView p v).setView p v' = t.setView p v' := by
  simp only [setView]
  congr 1
  funext q
  split <;> rfl

theorem setView_self (p : StreamPtr) : t.setView p (t.view p) = t := by
  have hview : (fun q => if q = p then t.view p else t.view q) = t.view := by
    funext q
    by_cases hq : q = p <;> simp [hq]
  simp only [setView, hview]

end StreamTable

inductive TableOp
  | create (streamId : Nat)
  | unmap (p : StreamPtr)
  | edit (p : StreamPtr) (e : StreamEdit)
  | disconnect

def StreamTable.apply (t : StreamTable) : TableOp → StreamTable
  | .create streamId => t.create streamId
  | .unmap p => t.unmap p
  | .edit p e => t.edit p e
  | .disconnect => { t with ioClosed := true }

/-! ### The connection's functions on the table -/

section

variable (ctx : Http2Ctx)

theorem setStream_setView (p : StreamPtr) (s : Http2Stream) :
    (ctx.setStream p s).table = ctx.table.setView p s.view := by
  have hviews : (fun q => ((ctx.setStream p s).heap q).view) =
      fun q => if q = p then s.view else (ctx.heap q).view := by
    funext q
    by_cases hq : q = p
    · simp [hq]
    · simp [hq, ctx.setStream_heap_ne s hq]
  simp only [Http2Ctx.table, setView, hviews]
  rfl

theorem setStream_table (p : StreamPtr) {s : Http2Stream} (e : StreamEdit)
    (hview : s.view = e.apply (ctx.heap p).view) :
    (ctx.setStream p s).table = ctx.table.edit p e := by
  rw [setStream_setView, hview]
  rfl

theorem setStream_table_same (p : StreamPtr) {s : Http2Stream}
    (hview : s.view = (ctx.heap p).view) :
    (ctx.setStream p s).table = ctx.table := by
  rw [setStream_setView, hview]
  exact ctx.table.setView_self p

theorem http2MarkStreamReset_table (p : StreamPtr) :
    (ctx.modifyStream p http2MarkStreamReset).table = ctx.table.edit p .reset :=
  setStream_table ctx p .reset rfl

theorem frameResult_table (r : Http2Ctx × Bool) : (frameResult r).table = r.1.table := by
  unfold frameResult
  split
  · rfl
  · split <;> rfl

theorem http2StreamMarkEndSent_view (s : Http2Stream) :
    (http2StreamMarkEndSent s).view = s.view.endSent := by
  unfold http2StreamMarkEndSent StreamView.endSent
  by_cases hsent : s.endStreamSent
  · simp [hsent, Http2Stream.view]
  · cases hstate : s.state <;> simp [hsent, hstate, Http2Stream.view]

theorem dataEndStream_view (s : Http2Stream) : (dataEndStream s).view = s.view.dataEnd := by
  cases hstate : s.state <;>
    simp [dataEndStream, StreamView.dataEnd, Http2Stream.view, hstate]

theorem http2CreateStream_table (streamId : Nat) :
    ((http2CreateStream ctx streamId).2 = none ∧
        (http2CreateStream ctx streamId).1.table = ctx.table) ∨
      ((http2CreateStream ctx streamId).2 = some ctx.nextPtr ∧
        (http2CreateStream ctx streamId).1.table = ctx.table.create streamId) := by
  unfold http2CreateStream
  split
  · exact Or.inl ⟨rfl, rfl⟩
  · refine Or.inr ⟨rfl, ?_⟩
    have hviews : (fun q => (if q = ctx.nextPtr then newStream ctx streamId
        else ctx.heap q).view) =
        fun q => if q = ctx.nextPtr then StreamView.fresh streamId else (ctx.heap q).view := by
      funext q
      by_cases hq : q = ctx.nextPtr
      · simp [hq, newStream, Http2Stream.view, StreamView.fresh]
      · simp [hq]
    simp only [Http2Ctx.table, create, hviews]
    rfl

end

/-! ### Runs of table operations -/

/-- A change of the connection that is, on the table, a run of operations
each of which is allowed in the state it meets. -/
def Performs (allowed : StreamTable → TableOp → Prop) (ctx ctx' : Http2Ctx) : Prop :=
  ∃ ops, Admissible apply allowed ctx.table ops ∧
    run apply ctx.table ops = ctx'.table

namespace Performs

variable {allowed allowed' : StreamTable → TableOp → Prop}
variable {ctx ctx₁ ctx₂ : Http2Ctx}

theorem of_eq (h : ctx₁.table = ctx.table) : Performs allowed ctx ctx₁ :=
  ⟨[], trivial, h.symm⟩

theorem op (op : TableOp) (hallowed : allowed ctx.table op) (h : ctx₁.table = ctx.table.apply op) :
    Performs allowed ctx ctx₁ :=
  ⟨[op], ⟨hallowed, trivial⟩, h.symm⟩

theorem trans (h₁ : Performs allowed ctx ctx₁) (h₂ : Performs allowed ctx₁ ctx₂) :
    Performs allowed ctx ctx₂ := by
  obtain ⟨ops₁, hok₁, hrun₁⟩ := h₁
  obtain ⟨ops₂, hok₂, hrun₂⟩ := h₂
  refine ⟨ops₁ ++ ops₂, ?_, ?_⟩
  · rw [admissible_append, hrun₁]
    exact ⟨hok₁, hok₂⟩
  · rw [run_append, hrun₁, hrun₂]

theorem mono (himp : ∀ t op, allowed t op → allowed' t op) (h : Performs allowed ctx ctx₁) :
    Performs allowed' ctx ctx₁ := by
  obtain ⟨ops, hok, hrun⟩ := h
  exact ⟨ops, hok.mono _ himp, hrun⟩

theorem isClient (h : Performs allowed ctx ctx₁) : ctx₁.isClient = ctx.isClient := by
  obtain ⟨ops, hok, hrun⟩ := h
  have hinv : ∀ t op, t.isClient = ctx.table.isClient → allowed t op →
      (t.apply op).isClient = ctx.table.isClient := by
    intro t op h _
    cases op <;> exact h
  have hclient := run_invariant _ _ hinv rfl hok
  rwa [hrun] at hclient

end Performs

/-- The operations of a flush of one stream's queue. -/
inductive Flushing (p : StreamPtr) : StreamTable → TableOp → Prop
  | endSent {t : StreamTable} :
      (t.view p).pendingEnd = true → Flushing p t (.edit p .endSent)
  | clearQueue {t : StreamTable} : Flushing p t (.edit p .clearQueue)

/-- Flushes, and streams that are taken out. -/
inductive Draining : StreamTable → TableOp → Prop
  | flush {p : StreamPtr} {t : StreamTable} {op : TableOp} : Flushing p t op → Draining t op
  | unmap {p : StreamPtr} {t : StreamTable} : Draining t (.unmap p)
  | unlink {p : StreamPtr} {t : StreamTable} : Draining t (.edit p .unlink)

/-- The events that drain queues. -/
def Event.drains : Event → Prop
  | .recvFrame f => f.type = frameWindowUpdate
  | .flushBodies => True
  | .writeBody _ _ _ => True
  | .close _ => True
  | _ => False

/-- A frame whose handler works on one stream. -/
def Frame.forStream (f : Frame) : Prop :=
  f.type = frameData ∨ f.type = frameHeaders ∨ f.type = frameContinuation

/-- The operations of an event that happens in `ctx`, in the state of the table
that they meet. -/
inductive Allowed (ctx : Http2Ctx) : Event → StreamTable → TableOp → Prop
  | drain {e : Event} {t : StreamTable} {op : TableOp} :
      e.drains → Draining t op → Allowed ctx e t op
  | createLocal {t : StreamTable} :
      Allowed ctx .streamNew t (.create ctx.nextStreamId)
  | createPeer {f : Frame} :
      f.type = frameHeaders → f.streamId ≠ 0 → ctx.table.find f.streamId = none →
        Allowed ctx (.recvFrame f) ctx.table (.create f.streamId)
  /-- The headers of a block are in, for a stream that was there or is new. -/
  | headers {f : Frame} {t : StreamTable} {p : StreamPtr} {endStream : Bool} :
      f.type = frameHeaders ∨ f.type = frameContinuation →
        t.find f.streamId = some p →
        (t.view p).endStreamReceived = false → (t.view p).state ≠ .closed →
        t = ctx.table ∨ (t.view p).state = .idle →
        (endStream = true →
          hasFlag (if f.type = frameContinuation then ctx.continuationFlags else f.flags)
            flagEndStream = true) →
        Allowed ctx (.recvFrame f) t (.edit p (.headers endStream))
  | data {f : Frame} {p : StreamPtr} :
      f.type = frameData → ctx.table.find f.streamId = some p →
        (ctx.heap p).endStreamReceived = false →
        (ctx.heap p).state ≠ .halfClosedRemote → (ctx.heap p).state ≠ .closed →
        Allowed ctx (.recvFrame f) ctx.table
          (.edit p (.data f.payload (hasFlag f.flags flagEndStream)))
  | reset {f : Frame} {t : StreamTable} {p : StreamPtr} :
      f.forStream → t.find f.streamId = some p → Allowed ctx (.recvFrame f) t (.edit p .reset)
  | rstStream {f : Frame} {p : StreamPtr} :
      f.type = frameRstStream → ctx.table.find f.streamId = some p →
        Allowed ctx (.recvFrame f) ctx.table (.edit p .close)
  | request
      {p : StreamPtr} {method path : CStr} {scheme : Option CStr}
      {headers : List HeaderPair} :
      Allowed ctx (.setRequest p method path scheme headers) ctx.table
        (.edit p (.request (method.bytes = ascii "GET" || method.bytes = ascii "HEAD")))
  | writeQueue {t : StreamTable} {p : StreamPtr} {data : Bytes} {endStream : Bool} :
      (t.view p).state = (ctx.heap p).state →
        Allowed ctx (.writeBody p data endStream) t (.edit p (.queueEnd endStream))
  | writeEnd {t : StreamTable} {p : StreamPtr} {data : Bytes} :
      (t.view p).state = (ctx.heap p).state →
        Allowed ctx (.writeBody p data true) t (.edit p .endSent)
  | inflate {p : StreamPtr} {len : Nat} {body : Bytes} :
      (ctx.heap p).bodyDecompressed = false →
        Allowed ctx (.readBody p len (some body)) ctx.table (.edit p (.inflate body))
  | readEnd {t : StreamTable} {p : StreamPtr} {len : Nat} {inflated : Option Bytes} :
      Allowed ctx (.readBody p len inflated) t (.edit p .readEnd)
  | close {t : StreamTable} {p : StreamPtr} :
      Allowed ctx (.close p) t (.edit p .close)
  | disconnect {t : StreamTable} : Allowed ctx .disconnect t .disconnect

theorem http2RemoveStream_performs (ctx : Http2Ctx) (p : StreamPtr) :
    Performs Draining ctx (http2RemoveStream ctx p) := by
  rw [http2RemoveStream]
  split
  · refine ⟨[.unmap p, .edit p .unlink], ⟨.unmap, .unlink, trivial⟩, ?_⟩
    have hviews : (fun q => (if q = p then { ctx.heap p with linked := false }
        else ctx.heap q).view) =
        fun q => if q = p then StreamEdit.unlink.apply (ctx.heap p).view
          else (ctx.heap q).view := by
      funext q
      by_cases hq : q = p
      · simp [hq, StreamEdit.apply, Http2Stream.view]
      · simp [hq]
    simp only [run_cons, run_nil, apply, edit, setView,
      unmap, Http2Ctx.table, hviews]
  · exact .op (.unmap p) .unmap rfl

theorem http2SendHeadersFrame_table
    (ctx : Http2Ctx) (streamId : Nat) (fields : List Header) (endStream : Bool) :
    (http2SendHeadersFrame ctx streamId fields endStream).1.table = ctx.table := by
  unfold http2SendHeadersFrame
  split
  · rfl
  · dsimp only
    split
    · rfl
    · split
      · rfl
      · split <;> rfl

/-- The operations that the headers of a block may perform on their stream. -/
structure HeadersAllowed (allowed : StreamTable → TableOp → Prop) (t : StreamTable) (p : StreamPtr)
    (headersFlags : Nat) : Prop where
  headers : ∀ endStream, (endStream = true → hasFlag headersFlags flagEndStream = true) →
    allowed t (.edit p (.headers endStream))
  reset : allowed (t.edit p (.headers false)) (.edit p .reset)

/-- The target of a header block may be worked on. -/
def TargetAllowed (allowed : StreamTable → TableOp → Prop) (t : StreamTable) (headersFlags : Nat) :
    HeaderTarget → Prop
  | .stream p => HeadersAllowed allowed t p headersFlags
  | .tmp => True

theorem headersAllowed_of_find
    {ctx : Http2Ctx} {f : Frame} {t : StreamTable} {p : StreamPtr} {flags : Nat}
    (htype : f.type = frameHeaders ∨ f.type = frameContinuation)
    (hfind : t.find f.streamId = some p)
    (hreceived : (t.view p).endStreamReceived = false) (hclosed : (t.view p).state ≠ .closed)
    (hstart : t = ctx.table ∨ (t.view p).state = .idle)
    (hflags : flags = if f.type = frameContinuation then ctx.continuationFlags else f.flags) :
    HeadersAllowed (Allowed ctx (.recvFrame f)) t p flags where
  headers := by
    intro endStream hend
    rw [hflags] at hend
    exact .headers htype hfind hreceived hclosed hstart hend
  reset := by
    refine .reset (Or.inr htype) ?_
    have hid : ∀ q, ((t.edit p (.headers false)).view q).streamId = (t.view q).streamId := by
      intro q
      by_cases hq : q = p
      · subst hq
        rw [edit, setView_view_self]
        rfl
      · simp [edit, setView, hq]
    simp only [find, hid]
    exact hfind

end SmartDns.Http2
