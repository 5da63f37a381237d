import SmartDns.Http2.Quiet

/-!
# The HPACK encoder and the peer's decoder

`http2_stream_set_request` and `http2_stream_set_response` encode their
headers with the encoder of the connection before it is known whether the
block can be sent.  A header list that does not fit the limits of the connection
leaves entries in the encoder's table that the peer never sees.
-/

namespace SmartDns.Http2

open Hpack

variable {encoder : HpackContext} {fields : List Header} {ctx ctx₀ : Http2Ctx}

/-- The header blocks among the frames handed to the sender. -/
def headerBlocks (frames : List SentFrame) : List Bytes :=
  frames.filterMap fun
    | .headers _ block _ => some block
    | _ => none

/-- The size of a header list: every field counts as its table entry. -/
def headerListSize (fields : List Header) : Nat :=
  (fields.map fun field => entrySize field.1 field.2).sum

/--
The header list fits the limits of the connection: no field is larger than
the block buffer's reserve, the list is within the peer's limit (0 is none),
and the sender can keep the frame if the transport blocks.
-/
structure HeadersFit (ctx : Http2Ctx) (fields : List Header) : Prop where
  field : ∀ field ∈ fields, entrySize field.1 field.2 ≤ 4096
  list : ctx.peerMaxHeaderListSize = 0 ∨
    headerListSize fields ≤ ctx.peerMaxHeaderListSize
  room : ctx.io.pendingWriteBuffer.length + headerListSize fields + 8192 ≤
    2 ^ 30

/-- The headers of a call on a stream of the connection fit, and the peer does
not change the size of the encoder's table (`SETTINGS_HEADER_TABLE_SIZE`). -/
def headerCallFits (ctx : Http2Ctx) : Event → Prop
  | .setRequest p method path scheme headers =>
    (ctx.heap p).linked →
      HeadersFit ctx (requestHeaders ctx method path scheme headers)
  | .setResponse p status headers =>
    (ctx.heap p).linked → HeadersFit ctx (responseHeaders status headers)
  | .recvFrame f =>
    f.type = frameSettings → ∀ entry ∈ settingsEntries f.payload, entry.1 ≠ 1
  | _ => True

theorem encodeHeaderList_encodeBlock
    {encoder' : HpackContext} {block block' : Bytes} {size : Nat} (hsize : size < 2 ^ 31)
    (h : encodeHeaderList encoder fields block size = (encoder', some block')) :
    ∃ calls bs, encodeBlock encoder calls = some (encoder', bs) ∧ block' = block ++ bs := by
  induction fields generalizing encoder block size with
  | nil =>
    obtain ⟨rfl, rfl⟩ := h
    exact ⟨[], [], rfl, by simp⟩
  | cons field fields ih =>
  obtain ⟨name, value⟩ := field
  unfold encodeHeaderList at h
  split at h
  · simp at h
  next size' hgrow =>
  have hsize' : size' < 2 ^ 31 := by
    split at hgrow
    · unfold safeBufferSize at hgrow
      split at hgrow
      · cases hgrow
      · cases hgrow
        omega
    · cases hgrow
      exact hsize
  split at h
  · simp at h
  next encoder₁ bs henc =>
  obtain ⟨calls, bs', hcalls, rfl⟩ := ih hsize' h
  refine ⟨⟨name, value, size' - block.length, by omega⟩ :: calls, bs ++ bs', ?_, by simp⟩
  simp [encodeBlock, henc, hcalls]

/-- The peer decodes an encoded header list to the encoder's new context. -/
theorem encodeHeaderList_decode {encoder' : HpackContext} {block : Bytes} (hwf : encoder.Wf)
    (h : encodeHeaderList encoder fields [] 4096 = (encoder', some block)) :
    (hpackDecodeHeaders collectHeader encoder block []).ctx = encoder' ∧ encoder'.Wf := by
  obtain ⟨calls, bs, hcalls, hblock⟩ :=
    encodeHeaderList_encodeBlock (by norm_num) h
  subst hblock
  obtain ⟨hdec, hwf'⟩ :=
    hpackDecodeHeadersLoop_encodeBlock hwf hcalls block.length le_rfl false []
  exact ⟨by rw [hpackDecodeHeaders, hdec], hwf'⟩

/--
A header list of small fields is always encoded.  The block buffer is at least
4096 bytes ahead of the block before every field.
-/
theorem encodeHeaderList_isSome (block : Bytes) (k : Nat) (hwf : encoder.Wf)
    (hfields : ∀ field ∈ fields, entrySize field.1 field.2 ≤ 4096) (hk : 12 ≤ k ∧ k ≤ 30)
    (hblock : block.length ≤ 2 ^ k)
    (htotal : block.length + headerListSize fields + 4096 ≤ 2 ^ 30) :
    ∃ encoder' block', encodeHeaderList encoder fields block (2 ^ k) = (encoder', some block') ∧
      block'.length ≤ block.length + headerListSize fields := by
  induction fields generalizing encoder block k with
  | nil => exact ⟨encoder, block, rfl, by simp⟩
  | cons field fields ih =>
  obtain ⟨name, value⟩ := field
  have hfield : entrySize name value ≤ 4096 :=  hfields (name, value) (by simp)
  have hsum : headerListSize ((name, value) :: fields) =
        entrySize name value + headerListSize fields := by
    simp [headerListSize]
  have hbase : (2 : Nat) ^ 12 ≤ 2 ^ k := Nat.pow_le_pow_right (by omega) hk.1
  -- the size after the one doubling before this field
  obtain ⟨k', hk', hgrow, hroom⟩ : ∃ k', (12 ≤ k' ∧ k' ≤ 30) ∧
        (if 2 ^ k < block.length + 4096 then safeBufferSize (2 ^ k) 2
          else some (2 ^ k)) = some (2 ^ k') ∧
        block.length + 4096 ≤ 2 ^ k' := by
    split
    · have h30 : k ≠ 30 := by
        rintro rfl
        omega
      refine ⟨k + 1, by omega, ?_, ?_⟩
      · rw [safeBufferSize_two_pow k hk.2, if_neg h30]
      · rw [pow_succ]
        omega
    · exact ⟨k, hk, rfl, by omega⟩
  have hle : (2 : Nat) ^ k' ≤ 2 ^ 30 := Nat.pow_le_pow_right (by omega) hk'.2
  obtain ⟨encoder₁, bs, henc, hlen⟩ :=
    hpackEncodeHeader_isSome hwf name value (2 ^ k' - block.length) (by omega) (by omega)
  obtain ⟨encoder', block', hrec, hlen'⟩ :=
    ih (block ++ bs) k' (hpackEncodeHeader_wf hwf henc)
      (fun f hf => hfields f (List.mem_cons_of_mem _ hf)) hk'
      (by rw [List.length_append]; omega)
      (by rw [List.length_append]; omega)
  refine ⟨encoder', block', ?_, ?_⟩
  · simp only [encodeHeaderList, hgrow, henc, hrec]
  · rw [List.length_append] at hlen'
    omega

/-- The part of a connection that its header calls rely on. -/
structure HeaderReady (ctx : Http2Ctx) : Prop where
  encoder : ctx.encoder.Wf
  capacity : DoublingSize ctx.io.pendingWriteCapacity

theorem HeaderReady.kept {ctx' : Http2Ctx} (hready : HeaderReady ctx) (hkept : Kept ctx ctx') :
    HeaderReady ctx' :=
  ⟨hkept.encoder hready.encoder, hkept.io.capacity hready.capacity⟩

/-- Every connection is ready for header calls, whatever has happened on it. -/
theorem headerReady_run (isClient : Bool) (server : CStr) (maxConcurrentStreams : Int)
    (bio : List BioWrite) (events : List Event) :
    HeaderReady (run step (http2CtxNew isClient server maxConcurrentStreams bio) events) := by
  have hinit : HeaderReady (http2CtxInitCommon isClient server maxConcurrentStreams bio) := by
    refine ⟨⟨⟨hpackInitContext_wf.entries, rfl, rfl⟩, ?_, ?_⟩, .inl rfl⟩
    · exact Nat.zero_le _
    · norm_num [http2CtxInitCommon, initialHeaderTableSize]
  exact run_invariant step HeaderReady (fun ctx e hready _ => hready.kept (step_kept ctx e))
    (hinit.kept (http2CtxNew_quiet _ _ _ _).toKept)
    (admissible_true step _ events)

/--
**One frame.**  A header list that fits is handed to the sender as one block,
and the peer that decodes it moves to the encoder's new context, unless the
connection fails.
-/
theorem http2SendHeadersFrame_sync
    (streamId : Nat) (endStream : Bool) (hready : HeaderReady ctx) (hfit : HeadersFit ctx fields)
    (hok : 0 ≤ (http2SendHeadersFrame ctx streamId fields endStream).1.status) :
    ∃ block, (http2SendHeadersFrame ctx streamId fields endStream).1.sent =
        ctx.sent ++ [.headers streamId block endStream] ∧
      (hpackDecodeHeaders collectHeader ctx.encoder block []).ctx =
        (http2SendHeadersFrame ctx streamId fields endStream).1.encoder ∧
      HeaderReady (http2SendHeadersFrame ctx streamId fields endStream).1 := by
  have hroom := hfit.room
  obtain ⟨encoder', block, henc, hlen⟩ :=
    encodeHeaderList_isSome [] 12 hready.encoder hfit.field (by omega) (by simp) (by simp; omega)
  norm_num at henc hlen
  obtain ⟨hdec, hwf'⟩ := encodeHeaderList_decode hready.encoder henc
  have hlimit : ¬(0 < ctx.peerMaxHeaderListSize ∧ ctx.peerMaxHeaderListSize < block.length) := by
    have := hfit.list
    omega
  have hhanded : (http2SendHeadersFrame ctx streamId fields endStream).1.sent =
          ctx.sent ++ [.headers streamId block endStream] ∧
        (http2SendHeadersFrame ctx streamId fields endStream).1.encoder =
          encoder' := by
    unfold http2SendHeadersFrame at hok ⊢
    simp only [henc, if_neg hlimit] at hok ⊢
    generalize hheader : http2WriteFrameHeader block.length frameHeaders
          ((if endStream then flagEndStream else 0) ||| flagEndHeaders)
          streamId = header at hok ⊢
    have hheaderLen : header.length = 9 := by
      rw [← hheader]
      rfl
    -- the frame header is accepted, since the connection did not fail
    have hfirst := http2SendFrame_accepts ctx.io header hready.capacity (by omega)
    generalize http2SendFrame ctx.io header = r at hok hfirst ⊢
    obtain ⟨io, ok⟩ := r
    cases ok with
    | false => exact absurd (hfirst hok).1 (by simp)
    | true =>
      dsimp only
      split
      all_goals exact ⟨rfl, rfl⟩
  exact ⟨block, hhanded.1, hdec.trans hhanded.2.symm,
    hready.kept (http2SendHeadersFrame_quiet ctx _ _ _).toKept⟩

/-- The encoder and a decoder that started equal agree after the frames that
were handed to the sender since `ctx₀`. -/
def HeaderSynced (ctx₀ ctx : Http2Ctx) : Prop :=
  HeaderReady ctx ∧
    ∃ frames,
      ctx.sent = ctx₀.sent ++ frames ∧
      decoderAfter ctx₀.encoder (headerBlocks frames) = ctx.encoder

theorem HeaderSynced.modifyStream
    (hsync : HeaderSynced ctx₀ ctx) (p : StreamPtr) (f : Http2Stream → Http2Stream) :
    HeaderSynced ctx₀ (ctx.modifyStream p f) :=
  ⟨⟨hsync.1.encoder, hsync.1.capacity⟩, hsync.2⟩

theorem HeadersFit.modifyStream
    (hfit : HeadersFit ctx fields) (p : StreamPtr) (f : Http2Stream → Http2Stream) :
    HeadersFit (ctx.modifyStream p f) fields :=
  ⟨hfit.field, hfit.list, hfit.room⟩

theorem HeaderSynced.sendHeaders (hsync : HeaderSynced ctx₀ ctx) (streamId : Nat) (endStream : Bool)
    (hfit : HeadersFit ctx fields)
    (hok : 0 ≤ (http2SendHeadersFrame ctx streamId fields endStream).1.status) :
    HeaderSynced ctx₀ (http2SendHeadersFrame ctx streamId fields endStream).1 := by
  obtain ⟨hready, frames, hsent, hpeer⟩ := hsync
  obtain ⟨block, hsent', hdec, hready'⟩ :=
    http2SendHeadersFrame_sync streamId endStream hready hfit hok
  refine ⟨hready', frames ++ [.headers streamId block endStream], ?_, ?_⟩
  · rw [hsent', hsent, List.append_assoc]
  · rw [← hdec, ← hpeer]
    simp [decoderAfter, headerBlocks]

/-- A change of another kind hands over no header block. -/
theorem HeaderSynced.change {ctx' : Http2Ctx} {k : Kind} (hk : k ≠ .encoder)
    (h : Change ctx k ctx') (hsync : HeaderSynced ctx₀ ctx) : HeaderSynced ctx₀ ctx' := by
  obtain ⟨hready, frames, hsent, hpeer⟩ := hsync
  refine ⟨hready.kept h.kept, ?_⟩
  have hrecorded : ∀ bytes frame, headerBlocks [frame] = [] → ∃ frames,
      (sendRecorded ctx bytes frame).1.sent = ctx₀.sent ++ frames ∧
        decoderAfter ctx₀.encoder (headerBlocks frames) = ctx.encoder := by
    intro bytes frame hframe
    dsimp only [sendRecorded]
    split
    · refine ⟨frames ++ [frame], by rw [hsent, List.append_assoc], ?_⟩
      rwa [headerBlocks, List.filterMap_append, ← headerBlocks, ← headerBlocks, hframe,
        List.append_nil]
    · exact ⟨frames, hsent, hpeer⟩
  cases h with
  | headers | encoder => exact absurd rfl hk
  | @control _ frame hframe =>
    refine hrecorded _ frame ?_
    cases frame <;> first | rfl | cases hframe
  | windowUpdate | data => exact hrecorded _ _ rfl
  | create streamId =>
    unfold http2CreateStream
    split <;> exact ⟨frames, hsent, hpeer⟩
  | remove p =>
    dsimp only [http2RemoveStream]
    split <;> exact ⟨frames, hsent, hpeer⟩
  | _ => exact ⟨frames, hsent, hpeer⟩

/-- One event keeps the two sides together, unless the connection fails. -/
theorem headerSynced_step
    {e : Event} (hfit : headerCallFits ctx e) (hsync : 0 ≤ ctx.status → HeaderSynced ctx₀ ctx)
    (hok : 0 ≤ (step ctx e).status) :
    HeaderSynced ctx₀ (step ctx e) := by
  have hother : .encoder ∉ e.kinds ctx → HeaderSynced ctx₀ (step ctx e) := fun hK =>
    (step_changes ctx e).preserves (fun hk => .change (ne_of_mem_of_not_mem hk hK))
      (hsync ((step_kept ctx e).status_nonneg hok))
  cases e with
  | recvFrame f =>
    refine hother ?_
    simp only [Event.kinds, Frame.kinds]
    repeat' split
    all_goals simp
    next h => exact fun _ hentry => hfit h _ hentry rfl
  | setRequest p method path scheme headers =>
    simp only [step, http2StreamSetRequest] at hok ⊢
    by_cases hlinked : (ctx.heap p).linked = true
    · simp only [hlinked, Bool.not_true, Bool.false_eq_true, if_false] at hok ⊢
      have hok' := (http2SendHeadersFrame_quiet _ _ _ _).status_nonneg hok
      exact (((hsync hok').modifyStream _ _).sendHeaders _ _
        ((hfit hlinked).modifyStream _ _) hok).modifyStream _ _
    · simp only [hlinked, Bool.not_false, if_true] at hok ⊢
      exact hsync hok
  | setResponse p status headers =>
    simp only [step, http2StreamSetResponse] at hok ⊢
    split
    next hcond =>
      rw [if_pos hcond] at hok
      exact hsync hok
    next hcond =>
    rw [if_neg hcond] at hok
    have hlinked : (ctx.heap p).linked = true := by
      by_contra h
      simp [h] at hcond
    have hok' := (http2SendHeadersFrame_quiet _ _ _ _).status_nonneg hok
    exact ((hsync hok').modifyStream _ _).sendHeaders _ _ ((hfit hlinked).modifyStream _ _) hok
  | _ => exact hother (by simp [Event.kinds])

/--
**The peer's decoder follows the encoder.**  In every run whose header calls fit
the limits of the connection, as long as the status is not an error, the encoder's context is that of a decoder that started equal and
has decoded, in order, the blocks handed to the sender.
-/
theorem decoderAfter_eq_encoder (ctx₀ : Http2Ctx) (events : List Event) (hready : HeaderReady ctx₀)
    (hfits : Admissible step headerCallFits ctx₀ events) (hok : 0 ≤ (run step ctx₀ events).status) :
    decoderAfter ctx₀.encoder (headerBlocks ((run step ctx₀ events).sent.drop ctx₀.sent.length)) =
      (run step ctx₀ events).encoder := by
  have hinit : 0 ≤ ctx₀.status → HeaderSynced ctx₀ ctx₀ := fun _ => ⟨hready, [], by simp, rfl⟩
  obtain ⟨-, frames, hsent, hpeer⟩ :=
    run_invariant step (fun ctx => 0 ≤ ctx.status → HeaderSynced ctx₀ ctx)
      (fun _ _ hsync hfit => headerSynced_step hfit hsync) hinit hfits hok
  rw [hsent, List.drop_left, hpeer]

/-- The request `GET /q` on the first stream. -/
def smallRequest : Event :=
  .setRequest 0 (CStr.ofString "GET") (CStr.ofString "/q") none []

theorem decoderAfter_eq_encoder_smallRequest :
    decoderAfter blockedClient.encoder (headerBlocks
          ((run step blockedClient [.streamNew, smallRequest]).sent.drop
              blockedClient.sent.length)) =
      (run step blockedClient [.streamNew, smallRequest]).encoder := by
  refine decoderAfter_eq_encoder blockedClient [.streamNew, smallRequest]
    (headerReady_run true (CStr.ofString "dns") 0 [] []) ⟨trivial, fun _ => ⟨?_, ?_, ?_⟩, trivial⟩ ?_
  all_goals decide +kernel

/-- A client whose peer limits header lists to 8 bytes, with one stream. -/
def smallListCtx : Http2Ctx :=
  run step blockedClient
    [.recvFrame ⟨frameSettings, 0, 0, [0, 6, 0, 0, 0, 8]⟩, .streamNew]

/--
A request whose block is over the peer's limit is not sent and the connection
goes on, but its headers stay in the encoder's table.
-/
theorem encoder_ahead_of_peer :
    0 ≤ (run step smallListCtx [smallRequest]).status ∧
      (run step smallListCtx [smallRequest]).encoder.dynamicTable ≠
        (decoderAfter smallListCtx.encoder (headerBlocks
            ((run step smallListCtx [smallRequest]).sent.drop
              smallListCtx.sent.length))).dynamicTable := by
  decide +kernel

end SmartDns.Http2
