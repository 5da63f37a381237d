import SmartDns.Http2.Walk

/-!
# Identifiers of the peer's streams

A HEADERS frame for a stream that is not in the map creates one, whatever its
identifier.  The code has the predicate that would tell a used identifier,
`_http2_stream_id_was_seen`, but asks it for DATA frames only.
-/

namespace SmartDns.Http2

/-- The identifiers of the streams that were created on the way from `ctx` to
`ctx'`, oldest first. -/
def createdIds (ctx ctx' : Http2Ctx) : List Nat :=
  (List.range' ctx.nextPtr (ctx'.nextPtr - ctx.nextPtr)).map fun p => (ctx'.heap p).streamId

/-- The identifiers of the streams that received frames created. -/
def observePeerIds (ctx : Http2Ctx) : Event → List Nat → List Nat
  | .recvFrame f, ids => ids ++ createdIds ctx (step ctx (.recvFrame f))
  | _, ids => ids

/-- Identifiers of the peer of a client or a server, each greater than all
before it. -/
structure FreshIds (isClient : Bool) (ids : List Nat) : Prop where
  increasing : ids.Pairwise (· < ·)
  parity : ∀ id ∈ ids, id ≠ 0 ∧ id % 2 = if isClient then 0 else 1

/-- A HEADERS frame that finds no stream has an identifier of the peer that was
not seen. -/
def freshHeaders (ctx : Http2Ctx) : Event → Prop
  | .recvFrame f =>
    f.type = frameHeaders → http2FindStream ctx f.streamId = none →
      http2IsLocalStreamId ctx f.streamId = false ∧
        http2StreamIdWasSeen ctx f.streamId = false
  | _ => True

/-- What a received frame can do to the pointers and to the identifiers seen. -/
inductive PeerCreation (f : Frame) (t : StreamTable) : StreamTable → Prop
  | none {t' : StreamTable} :
      t'.isClient = t.isClient → t'.nextPtr = t.nextPtr → t'.maxPeer = t.maxPeer →
        PeerCreation f t t'
  | stream {t' : StreamTable} :
      f.type = frameHeaders → f.streamId ≠ 0 → t.find f.streamId = Option.none →
        t'.isClient = t.isClient → t'.nextPtr = t.nextPtr + 1 →
        (t'.view t.nextPtr).streamId = f.streamId →
        t'.maxPeer = (if t.isLocal f.streamId then t.maxPeer else max t.maxPeer f.streamId) →
        PeerCreation f t t'

theorem StreamEdit.apply_streamId (e : StreamEdit) (v : StreamView) :
    (e.apply v).streamId = v.streamId := by
  cases e with
  | headers endStream => cases endStream <;> rfl
  | data payload endStream => cases endStream <;> rfl
  | endSent =>
    simp only [StreamEdit.apply, StreamView.endSent]
    split <;> rfl
  | _ => rfl

theorem StreamTable.edit_streamId (t : StreamTable) (p q : StreamPtr) (e : StreamEdit) :
    ((t.edit p e).view q).streamId = (t.view q).streamId := by
  by_cases hq : q = p
  · rw [hq, StreamTable.edit, StreamTable.setView_view_self, e.apply_streamId]
  · simp [StreamTable.edit, StreamTable.setView, hq]

theorem PeerCreation.apply {ctx : Http2Ctx} {f : Frame} {t : StreamTable} {op : TableOp}
    (h : PeerCreation f ctx.table t) (hop : Allowed ctx (.recvFrame f) t op) :
    PeerCreation f ctx.table (t.apply op) := by
  -- a second creation would start from the table of the beginning
  cases op with
  | unmap p =>
    cases h with
    | none hclient hptr hmax => exact .none hclient hptr hmax
    | stream htype hid hfind hclient hptr hview hmax =>
      exact .stream htype hid hfind hclient hptr hview hmax
  | edit p e =>
    cases h with
    | none hclient hptr hmax => exact .none hclient hptr hmax
    | stream htype hid hfind hclient hptr hview hmax =>
      refine .stream htype hid hfind hclient hptr ?_ hmax
      exact (t.edit_streamId p _ e).trans hview
  | disconnect =>
    cases hop with
    | drain _ hdrain =>
      cases hdrain with
      | flush hflush => cases hflush
  | create streamId =>
  cases hop with
  | drain _ hdrain =>
    cases hdrain with
    | flush hflush => cases hflush
  | createPeer htype hid hfind =>
    exact .stream htype hid hfind rfl rfl (by simp [StreamTable.apply, StreamTable.create,
      StreamView.fresh]) rfl

theorem recvFrame_peerCreation (ctx : Http2Ctx) (f : Frame) :
    PeerCreation f ctx.table (step ctx (.recvFrame f)).table := by
  obtain ⟨ops, hok, hrun⟩ := step_performs ctx (.recvFrame f)
  rw [← hrun]
  exact run_invariant _ (PeerCreation f ctx.table) (fun _ _ h hop => h.apply hop)
    (.none rfl rfl rfl) hok

theorem step_maxPeer (ctx : Http2Ctx) (e : Event) :
    (step ctx e).isClient = ctx.isClient ∧
      ctx.maxPeerStreamIdSeen ≤ (step ctx e).maxPeerStreamIdSeen := by
  obtain ⟨ops, hok, hrun⟩ := step_performs ctx e
  have hinv : ∀ t op, t.isClient = ctx.table.isClient ∧ ctx.table.maxPeer ≤ t.maxPeer →
      Allowed ctx e t op →
      (t.apply op).isClient = ctx.table.isClient ∧ ctx.table.maxPeer ≤ (t.apply op).maxPeer := by
    intro t op h _
    cases op with
    | unmap p => exact h
    | edit p e => exact h
    | disconnect => exact h
    | create streamId =>
      refine ⟨h.1, h.2.trans ?_⟩
      simp only [StreamTable.apply, StreamTable.create]
      split
      · exact le_rfl
      · exact le_max_left _ _
  have h := run_invariant _ _ hinv ⟨rfl, le_rfl⟩ hok
  rw [hrun] at h
  exact h

/-- The identifiers recorded so far are fresh and were seen. -/
structure PeerIdsInv (isClient : Bool) (ctx : Http2Ctx) (ids : List Nat) : Prop where
  client : ctx.isClient = isClient
  fresh : FreshIds isClient ids
  seen : ∀ id ∈ ids, id ≤ ctx.maxPeerStreamIdSeen

theorem peer_parity {ctx : Http2Ctx} {streamId : Nat} (hid : streamId ≠ 0)
    (hpeer : http2IsLocalStreamId ctx streamId = false) :
    streamId % 2 = if ctx.isClient then 0 else 1 := by
  simp only [http2IsLocalStreamId, if_neg hid] at hpeer
  cases hclient : ctx.isClient <;> simpa [hclient] using hpeer

theorem PeerIdsInv.step {isClient : Bool} {ctx : Http2Ctx} {ids : List Nat} {e : Event}
    (h : PeerIdsInv isClient ctx ids) (hok : freshHeaders ctx e) :
    PeerIdsInv isClient (step ctx e) (observePeerIds ctx e ids) := by
  obtain ⟨hclient, hmax⟩ := step_maxPeer ctx e
  have hkept : PeerIdsInv isClient (Http2.step ctx e) ids :=
    ⟨hclient.trans h.client, h.fresh, fun id hid => (h.seen id hid).trans hmax⟩
  cases e with
  | recvFrame f =>
    simp only [observePeerIds, createdIds]
    cases recvFrame_peerCreation ctx f with
    | none _ hptr _ =>
      have hptr : (Http2.step ctx (.recvFrame f)).nextPtr = ctx.nextPtr := hptr
      simpa [hptr] using hkept
    | stream htype hid hfind _ hptr hview hmax' =>
      obtain ⟨hpeer, hseen⟩ := hok htype hfind
      have hptr : (Http2.step ctx (.recvFrame f)).nextPtr = ctx.nextPtr + 1 := hptr
      have hview : ((Http2.step ctx (.recvFrame f)).heap ctx.nextPtr).streamId = f.streamId := hview
      have hgt : ctx.maxPeerStreamIdSeen < f.streamId := by
        simpa [http2StreamIdWasSeen, hid, hpeer] using hseen
      have hnew : f.streamId ≤ (Http2.step ctx (.recvFrame f)).maxPeerStreamIdSeen := by
        change ctx.table.isLocal f.streamId = _ at hpeer
        rw [hpeer] at hmax'
        have hmax' : (Http2.step ctx (.recvFrame f)).maxPeerStreamIdSeen =
          max ctx.maxPeerStreamIdSeen f.streamId := hmax'
        omega
      have hcreated : (List.range' ctx.nextPtr
          ((Http2.step ctx (.recvFrame f)).nextPtr - ctx.nextPtr)).map
          (fun p => ((Http2.step ctx (.recvFrame f)).heap p).streamId) = [f.streamId] := by
        simp [hptr, hview]
      rw [hcreated]
      refine ⟨hkept.client, ⟨?_, ?_⟩, ?_⟩
      · refine List.pairwise_append.mpr ⟨h.fresh.increasing, by simp, ?_⟩
        intro a ha b hb
        obtain rfl := List.mem_singleton.mp hb
        exact (h.seen a ha).trans_lt hgt
      · intro id hmem
        rcases List.mem_append.mp hmem with hmem | hmem
        · exact h.fresh.parity id hmem
        · obtain rfl := List.mem_singleton.mp hmem
          exact ⟨hid, h.client ▸ peer_parity hid hpeer⟩
      · intro id hmem
        rcases List.mem_append.mp hmem with hmem | hmem
        · exact hkept.seen id hmem
        · obtain rfl := List.mem_singleton.mp hmem
          exact hnew
  | _ => exact hkept

/--
**Peer stream identifiers are fresh.**  In every run of a connection whose
HEADERS frames for unknown streams carry unseen identifiers of the peer, the
streams that received frames create have increasing identifiers of the peer; an
identifier never becomes a stream again.
-/
theorem peerIds_fresh
    (isClient : Bool) (server : CStr) (maxConcurrentStreams : Int) (bio : List BioWrite)
    (events : List Event) (hok : Admissible step freshHeaders
      (http2CtxNew isClient server maxConcurrentStreams bio) events) :
    FreshIds isClient
      (observed step observePeerIds (http2CtxNew isClient server maxConcurrentStreams bio) []
        events) := by
  have hinit : PeerIdsInv isClient (http2CtxNew isClient server maxConcurrentStreams bio) [] := by
    refine ⟨?_, ⟨.nil, by simp⟩, by simp⟩
    cases isClient <;> rfl
  exact (observed_invariant step observePeerIds (PeerIdsInv isClient)
    (fun _ _ _ h hok => h.step hok) hinit hok).fresh

/-- A server whose transport never takes a byte. -/
def blockedServer : Http2Ctx :=
  http2CtxNew false (CStr.ofString "dns") 0 []

/-- A HEADERS frame with the block of a `GET`. -/
def getHeaders (streamId : Nat) : Frame :=
  ⟨frameHeaders, flagEndHeaders, streamId, [0x82]⟩

/-- Two requests with fresh identifiers, the first of which is closed between. -/
def twoRequests : List Event :=
  [.recvFrame (getHeaders 1), .close 0, .recvFrame (getHeaders 3)]

theorem peerIds_fresh_twoRequests :
    FreshIds false (observed step observePeerIds blockedServer [] twoRequests) :=
  peerIds_fresh false (CStr.ofString "dns") 0 [] twoRequests
    ⟨fun _ _ => ⟨by decide +kernel, by decide +kernel⟩, trivial,
      fun _ _ => ⟨by decide +kernel, by decide +kernel⟩, trivial⟩

/-- The second request has the identifier of the first. -/
def reusedRun : List Event :=
  [.recvFrame (getHeaders 1), .close 0, .recvFrame (getHeaders 1)]

/-- A healthy connection makes a stream of an identifier whose stream was closed
and removed. -/
theorem peerId_reused :
    0 ≤ (run step blockedServer reusedRun).status ∧
      ¬FreshIds false (observed step observePeerIds blockedServer [] reusedRun) := by
  have hids : observed step observePeerIds blockedServer [] reusedRun = [1, 1] := by decide +kernel
  refine ⟨by decide +kernel, ?_⟩
  rw [hids]
  intro h
  simpa using h.increasing

end SmartDns.Http2
