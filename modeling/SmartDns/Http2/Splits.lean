import SmartDns.Http2.Errno
import SmartDns.Http2.Walk

/-!
# The cuts of the transport do not matter

The bytes of the peer reach `_http2_process_frames` in pieces that the transport
chooses, with `EAGAIN` between them.  The abstract parser of this file sees all
bytes at once and knows nothing of `errno`.  The calls on every cut of the bytes
refine it, so any two cuts leave the same connection and send the same frames.  The
flush that a poll makes between two calls is not part of the comparison.
-/

namespace SmartDns.Http2

open Hpack List

variable {ctx : Http2Ctx} {bytes : Bytes} {n need patience : Nat}
variable {conn conn' conn₁ conn₂ conn₃ : Http2Conn} {w : Whole}

/-! ### Cuts -/

/-- The tape hands out pieces that are not empty, with `EAGAIN` between them. -/
inductive Cut : List BioRead → Prop
  | nil : Cut []
  | again {bio : List BioRead} : Cut bio → bio ≠ [] → Cut (.again :: bio)
  | data {bytes : Bytes} {bio : List BioRead} :
      bytes ≠ [] → Cut bio → Cut (.data bytes :: bio)

/-- A way to cut `bytes` into the answers of `bio_read`. -/
structure CutOf (bytes : Bytes) where
  tape : List BioRead
  cut : Cut tape
  whole : tapeBytes tape = bytes

@[simp] theorem tapeBytes_nil : tapeBytes [] = [] := rfl

@[simp] theorem tapeBytes_again (bio : List BioRead) : tapeBytes (.again :: bio) = tapeBytes bio :=
  rfl

@[simp] theorem tapeBytes_data (bytes : Bytes) (bio : List BioRead) :
    tapeBytes (.data bytes :: bio) = bytes ++ tapeBytes bio := rfl

theorem Cut.tapeBytes_eq_nil {bio : List BioRead} (h : Cut bio) :
    tapeBytes bio = [] ↔ bio = [] := by
  induction h with
  | nil => simp
  | again _ hne ih => simp [ih, hne]
  | data hne _ _ => simp [hne]

/-! ### The parser on all bytes at once -/

/-- A connection for which it does not matter where the reads stopped. -/
structure Whole where
  /-- The connection, without `errno`. -/
  ctx : Http2Ctx
  prefaceReceived : Bool
  wantRead : Bool
  /-- The bytes that were not handled yet. -/
  bytes : Bytes
  /-- How many of them the read buffer holds. -/
  held : Nat

/-- The connection without the cut of its bytes. -/
def Http2Conn.whole (conn : Http2Conn) : Whole where
  ctx := conn.ctx.setErrno .clear
  prefaceReceived := conn.prefaceReceived
  wantRead := conn.wantRead
  bytes := conn.readBuffer ++ tapeBytes conn.bio
  held := conn.readBuffer.length

inductive Turn
  /-- The frame is not complete. -/
  | starve
  /-- The frame, of which `need` bytes were read, ends the call and stays. -/
  | fail (ctx : Http2Ctx) (need : Nat)
  /-- The frame of `need` bytes was handled. -/
  | next (ctx : Http2Ctx) (need : Nat)

/-- One turn of the loop of `_http2_process_frames`, on all bytes. -/
def wholeTurn (ctx : Http2Ctx) (bytes : Bytes) : Turn :=
  if bytes.length < frameHeaderSize then .starve
  else
    match headerRefused ctx bytes with
    | some ctx => .fail (ctx.setErrno .clear) frameHeaderSize
    | none =>
      let need := frameHeaderSize + frameLength bytes
      if bytes.length < need then .starve
      else
        let ctx' := (dispatchFrame ctx (frameAt bytes)).setErrno .clear
        match dispatchReturn ctx (frameAt bytes) with
        | some _ => .fail ctx' need
        | none => .next ctx' need

namespace Whole

/-- A call starts without a wish. -/
def start (w : Whole) : Whole :=
  { w with wantRead := false }

/-- All bytes are read, and more are wanted. -/
def starve (w : Whole) : Whole :=
  { w with held := w.bytes.length, wantRead := true }

/-- The call ends with `need` bytes in the buffer. -/
def stop (w : Whole) (ctx : Http2Ctx) (need : Nat) : Whole :=
  { w with ctx := ctx, held := max w.held need }

/-- The first `need` bytes were handled. -/
def advance (w : Whole) (ctx : Http2Ctx) (need : Nat) : Whole :=
  { w with ctx := ctx, bytes := w.bytes.drop need, held := max w.held need - need }

end Whole

theorem wholeTurn_next {ctx' : Http2Ctx} (h : wholeTurn ctx bytes = .next ctx' need) :
    0 < need ∧ need ≤ bytes.length ∧
      ctx' = (dispatchFrame ctx (frameAt bytes)).setErrno .clear := by
  rw [wholeTurn] at h
  split at h
  · cases h
  split at h
  · cases h
  dsimp only at h
  split at h
  · cases h
  next hlen =>
  split at h
  · cases h
  · cases h
    exact ⟨Nat.lt_add_right _ (by decide), Nat.not_lt.mp hlen, rfl⟩

/-- The loop of `_http2_process_frames`, on all bytes. -/
def wholeLoop (w : Whole) : Whole :=
  match _hturn : wholeTurn w.ctx w.bytes with
  | .starve => w.starve
  | .fail ctx need => w.stop ctx need
  | .next ctx need => wholeLoop (w.advance ctx need)
termination_by w.bytes.length
decreasing_by
  have := wholeTurn_next _hturn
  simp only [Whole.advance, List.length_drop]
  omega

/-- The call of a server that waits for the preface. -/
def wholePreface (w : Whole) : Whole :=
  if w.bytes.length < connectionPrefaceLen then w.starve
  else if w.bytes.take connectionPrefaceLen ≠ connectionPreface then
    w.stop (w.ctx.setStatus (if looksLikeHttp1 w.bytes then errHttp1 else errProtocol))
      connectionPrefaceLen
  else wholeLoop { w.advance w.ctx connectionPrefaceLen with prefaceReceived := true }

/-- `_http2_process_frames`, on all bytes. -/
def wholeCall (w : Whole) : Whole :=
  if w.ctx.isClient || w.prefaceReceived then wholeLoop w.start
  else wholePreface w.start

/-! ### Reading -/

/-- What a read can do to a connection: it moves bytes from the tape into the
buffer. -/
structure Reads (conn conn' : Http2Conn) : Prop where
  cut : Cut conn'.bio
  ctx : ∃ errno, conn'.ctx = conn.ctx.setErrno errno
  preface : conn'.prefaceReceived = conn.prefaceReceived
  bytes : conn'.readBuffer ++ tapeBytes conn'.bio = conn.readBuffer ++ tapeBytes conn.bio
  held : conn.readBuffer.length ≤ conn'.readBuffer.length
  tape : conn'.bio.length ≤ conn.bio.length

theorem Reads.refl (hcut : Cut conn.bio) : Reads conn conn :=
  ⟨hcut, ⟨conn.ctx.io.errno, rfl⟩, rfl, rfl, Nat.le_refl _, Nat.le_refl _⟩

theorem Reads.trans (h : Reads conn₁ conn₂) (h' : Reads conn₂ conn₃) : Reads conn₁ conn₃ := by
  obtain ⟨errno, hctx⟩ := h.ctx
  obtain ⟨errno', hctx'⟩ := h'.ctx
  refine ⟨h'.cut, ⟨errno', ?_⟩, h'.preface.trans h.preface, h'.bytes.trans h.bytes,
    h.held.trans h'.held, h'.tape.trans h.tape⟩
  rw [hctx', hctx, setErrno_setErrno]

/-- The read has what it asked for. -/
structure Filled (needed : Nat) (conn conn' : Http2Conn) : Prop extends Reads conn conn' where
  wantRead : conn'.wantRead = conn.wantRead
  length : conn'.readBuffer.length = max conn.readBuffer.length needed

/-- The read stopped short of what it asked for. -/
structure Starved (needed : Nat) (conn conn' : Http2Conn) : Prop extends Reads conn conn' where
  wantRead : conn'.wantRead = true
  short : conn'.readBuffer.length < needed
  shrinks : conn'.bio = [] ∨ conn'.bio.length < conn.bio.length

theorem bioRead_cut {bio : List BioRead} (hcut : Cut bio) (hn : 0 < n) :
    ((bioRead bio n).1 = .again ∧ Cut (bioRead bio n).2 ∧
        tapeBytes (bioRead bio n).2 = tapeBytes bio ∧
        ((bioRead bio n).2 = [] ∨ (bioRead bio n).2.length < bio.length)) ∨
      ∃ bytes, bytes ≠ [] ∧ (bioRead bio n).1 = .data bytes ∧ Cut (bioRead bio n).2 ∧
        bytes ++ tapeBytes (bioRead bio n).2 = tapeBytes bio ∧ bytes.length ≤ n ∧
        (bioRead bio n).2.length ≤ bio.length ∧
        (bytes.length < n → (bioRead bio n).2.length < bio.length) := by
  cases hcut with
  | nil => exact .inl ⟨rfl, .nil, rfl, .inl rfl⟩
  | again hcut _ => exact .inl ⟨rfl, hcut, rfl, .inr (by simp [bioRead])⟩
  | @data bytes bio hne hcut =>
  right
  by_cases hlen : bytes.length ≤ n
  · simp only [bioRead, if_pos hlen]
    exact ⟨bytes, hne, rfl, hcut, rfl, hlen, by simp, by simp⟩
  simp only [bioRead, if_neg hlen]
  have htake : (bytes.take n).length = n := by simp; omega
  have hdrop : bytes.drop n ≠ [] := by simp; omega
  refine ⟨bytes.take n, ?_, rfl, .data hdrop hcut, ?_, htake.le, by simp, ?_⟩
  · intro hnil
    rw [hnil] at htake
    simp at htake
    omega
  · rw [tapeBytes_data, tapeBytes_data, ← append_assoc, take_append_drop]
  · omega

theorem fillBuffer_cut (hcut : Cut conn.bio) (needed : Nat) (short : Int) :
    (∃ conn', fillBuffer conn needed short = (conn', none) ∧ Filled needed conn conn') ∨
      ∃ conn' ret, fillBuffer conn needed short = (conn', some ret) ∧
        Starved needed conn conn' := by
  by_cases hlen : conn.readBuffer.length < needed
  · have hread := bioRead_cut hcut (Nat.sub_pos_of_lt hlen)
    simp only [fillBuffer, if_pos hlen]
    generalize bioRead conn.bio (needed - conn.readBuffer.length) = r at hread ⊢
    obtain ⟨answer, bio⟩ := r
    dsimp only at hread
    rcases hread with ⟨rfl, hcut', hbytes, hshrink⟩ |
      ⟨bytes, hne, rfl, hcut', hbytes, hle, htape, hshrink⟩
    · right
      refine ⟨_, errEagain, rfl, ⟨⟨hcut', ⟨.eagain, rfl⟩, rfl, ?_, Nat.le_refl _, ?_⟩, rfl, hlen,
        hshrink⟩⟩
      · dsimp only
        rw [hbytes]
      rcases hshrink with rfl | hlt
      · exact Nat.zero_le _
      · exact hlt.le
    · cases bytes with
      | nil => exact absurd rfl hne
      | cons b rest =>
        have hreads : Reads conn
            { conn with bio := bio, readBuffer := conn.readBuffer ++ b :: rest } := by
          refine ⟨hcut', ⟨conn.ctx.io.errno, rfl⟩, rfl, ?_, by simp, htape⟩
          dsimp only
          rw [append_assoc, hbytes]
        have hlength : (conn.readBuffer ++ b :: rest).length =
            conn.readBuffer.length + (b :: rest).length := length_append
        by_cases hshort : (conn.readBuffer ++ b :: rest).length < needed
        · right
          simp only [if_pos hshort]
          exact ⟨_, short, rfl, { hreads with }, rfl, hshort, .inr (hshrink (by omega))⟩
        left
        simp only [if_neg hshort]
        refine ⟨_, rfl, hreads, rfl, ?_⟩
        dsimp only
        omega
  · left
    simp only [fillBuffer, if_neg hlen]
    exact ⟨conn, rfl, .refl hcut, rfl, by omega⟩

/-! ### What the buffer shows of the bytes -/

theorem Reads.take (h : Reads conn conn') :
    conn'.readBuffer = conn.whole.bytes.take conn'.readBuffer.length := by
  rw [Http2Conn.whole, ← h.bytes, take_left]

theorem Reads.length_le (h : Reads conn conn') :
    conn'.readBuffer.length ≤ conn.whole.bytes.length := by
  rw [Http2Conn.whole, ← h.bytes, length_append]
  exact Nat.le_add_right _ _

/-- A read shows in the number of bytes that the buffer holds, and in
`want_read`. -/
theorem Reads.whole (h : Reads conn conn') :
    conn'.whole =
      { conn.whole with held := conn'.readBuffer.length, wantRead := conn'.wantRead } := by
  obtain ⟨errno, hctx⟩ := h.ctx
  simp only [Http2Conn.whole, h.bytes, h.preface, hctx, setErrno_setErrno]

theorem frameAt_take (hn : frameHeaderSize + frameLength bytes ≤ n) :
    frameAt (bytes.take n) = frameAt bytes := by
  have hheader : frameHeaderSize ≤ n := (Nat.le_add_right _ _).trans hn
  have hlength := @frameLength_take bytes n hheader
  simp only [frameHeaderSize] at hn hheader
  simp only [frameAt, hlength, frameHeaderSize, getD_take (show 3 < n by omega),
    getD_take (show 4 < n by omega), drop_take, readUint32,
    getD_take (show 0 < n - 5 by omega), getD_take (show 1 < n - 5 by omega),
    getD_take (show 2 < n - 5 by omega), getD_take (show 3 < n - 5 by omega),
    take_take]
  rw [Nat.min_eq_left (by omega)]

theorem looksLikeHttp1_take (hn : connectionPrefaceLen ≤ n) :
    looksLikeHttp1 (bytes.take n) = looksLikeHttp1 bytes := by
  have hmethods : ∀ method ∈ ["GET ", "POST ", "HEAD ", "PUT ", "DELETE ", "OPTIONS ", "PATCH ",
      "CONNECT ", "TRACE "], (ascii method).length ≤ connectionPrefaceLen := by decide
  rw [Bool.eq_iff_iff, looksLikeHttp1, looksLikeHttp1, any_eq_true, any_eq_true]
  refine exists_congr fun method => and_congr_right fun hmem => ?_
  rw [ isPrefixOf_iff_prefix, isPrefixOf_iff_prefix, prefix_take_iff]
  exact and_iff_left ((hmethods method hmem).trans hn)

/-! ### One turn -/

theorem headerRefused_errno (ctx : Http2Ctx) (errno : Errno) (bytes : Bytes) :
    (headerRefused ctx bytes = none ∧ headerRefused (ctx.setErrno errno) bytes = none) ∨
      ∃ ctx' errno', headerRefused ctx bytes = some ctx' ∧
        headerRefused (ctx.setErrno errno) bytes = some (ctx'.setErrno errno') := by
  obtain ⟨e, hfail⟩ := (failConnection_errno rstProtocolError ctx errno).1
  have hmax : (ctx.setErrno errno).localMaxFrameSize = ctx.localMaxFrameSize := rfl
  have hactive : (ctx.setErrno errno).continuationActive = ctx.continuationActive := rfl
  dsimp only at hfail
  simp only [headerRefused, hmax, hactive]
  by_cases hsize :
      ctx.localMaxFrameSize < frameLength bytes ∨ defaultMaxFrameSize < frameLength bytes
  · rw [if_pos hsize, if_pos hsize]
    exact .inr ⟨_, errno, rfl, rfl⟩
  rw [if_neg hsize, if_neg hsize]
  by_cases hcont : (ctx.continuationActive && (frameAt bytes).type != frameContinuation) = true
  · rw [if_pos hcont, if_pos hcont, hfail]
    exact .inr ⟨_, e, rfl, rfl⟩
  · rw [if_neg hcont, if_neg hcont]
    exact .inl ⟨rfl, rfl⟩

theorem wholeTurn_errno (ctx : Http2Ctx) (errno : Errno) (bytes : Bytes) :
    wholeTurn (ctx.setErrno errno) bytes = wholeTurn ctx bytes := by
  obtain ⟨⟨e, hframe⟩, hret⟩ := dispatchFrame_errno ctx errno (frameAt bytes)
  dsimp only at hframe hret
  simp only [wholeTurn, hframe, hret, setErrno_setErrno]
  rcases headerRefused_errno ctx errno bytes with ⟨h, h'⟩ | ⟨ctx', e', h, h'⟩
  · rw [h, h']
  · rw [h, h']
    rfl

/-- How a turn on the real buffer compares with the turn on all bytes. -/
inductive TurnRefines (conn conn' : Http2Conn) : Turn → Option Int → Prop
  /-- The turn ran out of bytes, inside the frame that the bytes start with. -/
  | starved {turn : Turn} {ret : Int} (reads : Reads conn conn')
      (wantRead : conn'.wantRead = true)
      (shrinks : conn'.bio = [] ∨ conn'.bio.length < conn.bio.length)
      (dry : conn'.bio = [] → turn = .starve)
      (inside : ∀ ctx need, turn = .fail ctx need ∨ turn = .next ctx need →
        conn'.readBuffer.length ≤ need) :
      TurnRefines conn conn' turn (some ret)
  | failed {ctx : Http2Ctx} {need : Nat} {ret : Int} (cut : Cut conn'.bio)
      (whole : conn'.whole = conn.whole.stop ctx need)
      (tape : conn'.bio.length ≤ conn.bio.length) :
      TurnRefines conn conn' (.fail ctx need) (some ret)
  | next {ctx : Http2Ctx} {need : Nat} (cut : Cut conn'.bio)
      (whole : conn'.whole = conn.whole.advance ctx need)
      (tape : conn'.bio.length ≤ conn.bio.length) :
      TurnRefines conn conn' (.next ctx need) none

theorem Starved.after {needed : Nat} (h : Reads conn₁ conn₂) (h' : Starved needed conn₂ conn₃) :
    Starved needed conn₁ conn₃ :=
  ⟨h.trans h'.toReads, h'.wantRead, h'.short, h'.shrinks.imp_right (·.trans_le h.tape)⟩

theorem Starved.refines {needed : Nat} {turn : Turn} {ret : Int} (h : Starved needed conn conn')
    (hstarve : conn.whole.bytes.length < needed → turn = .starve)
    (hneed : ∀ ctx need, turn = .fail ctx need ∨ turn = .next ctx need → needed ≤ need) :
    TurnRefines conn conn' turn (some ret) := by
  refine .starved h.toReads h.wantRead h.shrinks ?_ ?_
  · intro hnil
    apply hstarve
    have hbytes : conn'.readBuffer = conn.whole.bytes := by
      rw [Http2Conn.whole, ← h.bytes, hnil, tapeBytes_nil, append_nil]
    rw [← hbytes]
    exact h.short
  · intro ctx need hturn
    exact h.short.le.trans (hneed ctx need hturn)

/-- What the turn on all bytes knows of the length of the frame. -/
theorem wholeTurn_need {ctx' : Http2Ctx}
    (h : wholeTurn ctx bytes = .fail ctx' need ∨ wholeTurn ctx bytes = .next ctx' need) :
    frameHeaderSize ≤ need ∧
      (headerRefused ctx bytes = none → need = frameHeaderSize + frameLength bytes) := by
  by_cases hlen : bytes.length < frameHeaderSize
  · simp [wholeTurn, if_pos hlen] at h
  simp only [wholeTurn, if_neg hlen] at h
  cases hrefused : headerRefused ctx bytes with
  | some ctx₁ =>
    rw [hrefused] at h
    rcases h with h | h <;> cases h
    exact ⟨Nat.le_refl _, nofun⟩
  | none =>
  rw [hrefused] at h
  dsimp only at h
  split at h
  · rcases h with h | h <;> cases h
  · split at h <;> rcases h with h | h <;> cases h <;>
      exact ⟨Nat.le_add_right _ _, fun _ => rfl⟩

theorem Filled.trans
    {m : Nat} (h : Filled n conn₁ conn₂) (h' : Filled m conn₂ conn₃) (hle : n ≤ m) :
    Filled m conn₁ conn₃ := by
  refine ⟨h.toReads.trans h'.toReads, h'.wantRead.trans h.wantRead, ?_⟩
  rw [h'.length, h.length, Nat.max_assoc, Nat.max_eq_right hle]

theorem Filled.whole_stop (h : Filled need conn conn') (ctx : Http2Ctx) :
    ({ conn' with ctx := ctx } : Http2Conn).whole = conn.whole.stop (ctx.setErrno .clear) need := by
  calc ({ conn' with ctx := ctx } : Http2Conn).whole
    _ = { conn'.whole with ctx := ctx.setErrno .clear } := rfl
    _ = conn.whole.stop (ctx.setErrno .clear) need := by
      rw [h.toReads.whole, h.wantRead, h.length]
      rfl

theorem Filled.whole_advance (h : Filled need conn conn') (ctx : Http2Ctx) :
    ({ conn' with ctx := ctx, readBuffer := conn'.readBuffer.drop need } : Http2Conn).whole =
      conn.whole.advance (ctx.setErrno .clear) need := by
  have hneed : need ≤ conn'.readBuffer.length := h.length ▸ Nat.le_max_right _ _
  simp only [Http2Conn.whole, Whole.advance, h.preface, h.wantRead, ← h.bytes,
    drop_append_of_le_length hneed, length_drop, h.length]

theorem handleFrame_refines
    (hfill : Filled (frameHeaderSize + frameLength conn.whole.bytes) conn conn')
    (hnone : headerRefused conn'.ctx conn.whole.bytes = none) :
    TurnRefines conn (handleFrame conn').1 (wholeTurn conn'.ctx conn.whole.bytes)
      (handleFrame conn').2 := by
  have hneed : frameHeaderSize + frameLength conn.whole.bytes ≤ conn'.readBuffer.length :=
    hfill.length ▸ Nat.le_max_right _ _
  have hlen : ¬conn.whole.bytes.length < frameHeaderSize + frameLength conn.whole.bytes :=
    Nat.not_lt.mpr (hneed.trans hfill.length_le)
  have hheader : ¬conn.whole.bytes.length < frameHeaderSize := fun h =>
    hlen (h.trans_le (Nat.le_add_right _ _))
  have hframe : frameAt conn'.readBuffer = frameAt conn.whole.bytes := by
    rw [hfill.take, frameAt_take hneed]
  have hlength : frameLength conn'.readBuffer = frameLength conn.whole.bytes := by
    rw [hfill.take, frameLength_take ((Nat.le_add_right _ _).trans hneed)]
  simp only [handleFrame, hframe, hlength, wholeTurn, if_neg hheader, hnone, if_neg hlen]
  cases dispatchReturn conn'.ctx (frameAt conn.whole.bytes) with
  | some ret => exact .failed hfill.cut (hfill.whole_stop _) hfill.tape
  | none => exact .next hfill.cut (hfill.whole_advance _) hfill.tape

theorem readPayload_refines (hfill : Filled frameHeaderSize conn conn₁) :
    TurnRefines conn (readPayload conn₁).1 (wholeTurn conn₁.ctx conn.whole.bytes)
      (readPayload conn₁).2 := by
  have hheader : frameHeaderSize ≤ conn₁.readBuffer.length := hfill.length ▸ Nat.le_max_right _ _
  have hbytes : ¬conn.whole.bytes.length < frameHeaderSize :=
    Nat.not_lt.mpr (hheader.trans hfill.length_le)
  have hrefused : headerRefused conn₁.ctx conn₁.readBuffer =
      headerRefused conn₁.ctx conn.whole.bytes := by
    have htype : 3 < conn₁.readBuffer.length := Nat.lt_of_lt_of_le (by decide) hheader
    rw [hfill.take]
    simp only [headerRefused, frameLength_take hheader, frameAt, getD_take htype]
    rfl
  have hlength : frameLength conn₁.readBuffer = frameLength conn.whole.bytes := by
    rw [hfill.take, frameLength_take hheader]
  rw [readPayload, hrefused, hlength]
  cases hnone : headerRefused conn₁.ctx conn.whole.bytes with
  | some ctx =>
    simp only [wholeTurn, if_neg hbytes, hnone]
    exact .failed hfill.cut (hfill.whole_stop ctx) hfill.tape
  | none =>
  rcases fillBuffer_cut hfill.cut (frameHeaderSize + frameLength conn.whole.bytes) 0 with
    ⟨conn₂, heq, hfill'⟩ | ⟨conn₂, ret, heq, hstarve⟩
  · rw [heq]
    obtain ⟨errno, hctx⟩ := hfill'.ctx
    rw [← wholeTurn_errno _ errno, ← hctx]
    refine handleFrame_refines (hfill.trans hfill' (Nat.le_add_right _ _)) ?_
    rcases headerRefused_errno conn₁.ctx errno conn.whole.bytes with ⟨_, h⟩ | ⟨_, _, h, _⟩
    · rw [hctx, h]
    · rw [hnone] at h
      cases h
  · rw [heq]
    refine (hstarve.after hfill.toReads).refines ?_ ?_
    · intro hlen
      simp only [wholeTurn, if_neg hbytes, hnone, if_pos hlen]
    · intro ctx need hneed
      exact ((wholeTurn_need hneed).2 hnone).ge

theorem frameTurn_refines (hcut : Cut conn.bio) :
    TurnRefines conn (frameTurn conn).1 (wholeTurn conn.whole.ctx conn.whole.bytes)
      (frameTurn conn).2 := by
  rw [frameTurn]
  rcases fillBuffer_cut hcut frameHeaderSize 0 with
    ⟨conn₁, heq, hfill⟩ | ⟨conn₁, ret, heq, hstarve⟩
  · rw [heq]
    obtain ⟨errno, hctx⟩ := hfill.ctx
    -- `errno` apart, both turns see the same connection
    have hturn : wholeTurn conn.whole.ctx conn.whole.bytes =
        wholeTurn conn₁.ctx conn.whole.bytes := by
      rw [hctx, wholeTurn_errno, Http2Conn.whole, wholeTurn_errno]
    rw [hturn]
    exact readPayload_refines hfill
  · rw [heq]
    refine hstarve.refines ?_ ?_
    · intro hlen
      rw [wholeTurn, if_pos hlen]
    · intro ctx need hturn
      exact (wholeTurn_need hturn).1

/-! ### One call -/

/-- Which checks a call makes before its loop. -/
structure SameSetup (w w' : Whole) : Prop where
  client : w'.ctx.isClient = w.ctx.isClient
  closed : w'.ctx.ioClosed = w.ctx.ioClosed
  preface : w.prefaceReceived = true → w'.prefaceReceived = true

theorem wholeTurn_setup
    (h : wholeTurn w.ctx w.bytes = .next ctx need) : SameSetup w (w.advance ctx need) := by
  have hframe := dispatchFrame_setup w.ctx (frameAt w.bytes)
  obtain ⟨-, -, rfl⟩ := wholeTurn_next h
  exact ⟨hframe.1, hframe.2, id⟩

/-- The loop does not ask how much of an incomplete frame was read. -/
theorem wholeLoop_held {held : Nat} (hheld : w.held ≤ held)
    (hinside : ∀ ctx need, wholeTurn w.ctx w.bytes = .fail ctx need ∨
      wholeTurn w.ctx w.bytes = .next ctx need → held ≤ need) :
    wholeLoop { w with held := held } = wholeLoop w := by
  rw [wholeLoop, wholeLoop]
  cases hturn : wholeTurn w.ctx w.bytes with
  | starve => rfl
  | fail ctx need =>
    have hneed : held ≤ need := hinside ctx need (.inl hturn)
    simp only [Whole.stop]
    rw [Nat.max_eq_right hneed, Nat.max_eq_right (hheld.trans hneed)]
  | next ctx need =>
    have hneed : held ≤ need := hinside ctx need (.inr hturn)
    simp only [Whole.advance]
    rw [Nat.max_eq_right hneed, Nat.max_eq_right (hheld.trans hneed)]

/-- How a call on a cut compares with the call on all bytes, whose result is
`w`. -/
inductive CallRefines (conn conn' : Http2Conn) (call : Whole → Whole) : Prop
  /-- The call did the same. -/
  | done (cut : Cut conn'.bio) (whole : conn'.whole = call conn.whole)
      (tape : conn'.bio.length ≤ conn.bio.length)
      (dry : conn'.wantRead = true → conn'.bio = [])
  /-- The call stopped at an `EAGAIN`, and the next one can go on from there. -/
  | pending (cut : Cut conn'.bio) (wantRead : conn'.wantRead = true)
      (rest : conn'.bio ≠ []) (shrinks : conn'.bio.length < conn.bio.length)
      (setup : SameSetup conn.whole conn'.whole)
      (resumes : call conn'.whole.start = call conn.whole)

theorem SameSetup.trans
    {w₁ w₂ w₃ : Whole} (h : SameSetup w₁ w₂) (h' : SameSetup w₂ w₃) : SameSetup w₁ w₃ :=
  ⟨h'.client.trans h.client, h'.closed.trans h.closed, h'.preface ∘ h.preface⟩

theorem Reads.setup (h : Reads conn conn') : SameSetup conn.whole conn'.whole := by
  rw [h.whole]
  exact ⟨rfl, rfl, id⟩

theorem Http2Conn.whole_start (hwant : conn.wantRead = false) : conn.whole.start = conn.whole := by
  rw [Whole.start, ← hwant]
  rfl

theorem Http2Conn.length_whole (conn : Http2Conn) :
    conn.whole.bytes.length = conn.readBuffer.length + (tapeBytes conn.bio).length :=
  length_append

/-- A read that ran out of bytes, and a call that does not ask how much was read. -/
theorem Reads.callRefines
    {call : Whole → Whole} (h : Reads conn conn') (hwant : conn.wantRead = false)
    (wantRead : conn'.wantRead = true)
    (shrinks : conn'.bio = [] ∨ conn'.bio.length < conn.bio.length)
    (dry : conn'.bio = [] → call conn.whole = conn.whole.starve)
    (resumes : call { conn.whole with held := conn'.readBuffer.length } = call conn.whole) :
    CallRefines conn conn' call := by
  by_cases hnil : conn'.bio = []
  · refine .done h.cut ?_ h.tape (fun _ => hnil)
    have hlen : conn'.readBuffer.length = conn.whole.bytes.length := by
      rw [Http2Conn.whole, ← h.bytes, hnil, tapeBytes_nil, append_nil]
    rw [h.whole, dry hnil, wantRead, hlen]
    rfl
  refine .pending h.cut wantRead hnil (shrinks.resolve_left hnil) h.setup ?_
  rw [← resumes, h.whole, Whole.start, ← hwant]
  rfl

/-- What was done before a call makes it another call from the start. -/
theorem CallRefines.before {call call' : Whole → Whole} (h : CallRefines conn₂ conn' call)
    (htape : conn₂.bio.length ≤ conn.bio.length) (hsetup : SameSetup conn.whole conn₂.whole)
    (hcall : call conn₂.whole = call' conn.whole)
    (hsame : ∀ w, SameSetup conn₂.whole w → call' w.start = call w.start) :
    CallRefines conn conn' call' := by
  cases h with
  | done cut whole tape dry => exact .done cut (whole.trans hcall) (tape.trans htape) dry
  | pending cut wantRead rest shrinks setup resumes =>
    refine .pending cut wantRead rest (shrinks.trans_le htape) (hsetup.trans setup) ?_
    rw [hsame _ setup, resumes, hcall]

theorem frameLoop_refines {fuel : Nat} (hcut : Cut conn.bio) (hwant : conn.wantRead = false)
    (hfuel : conn.whole.bytes.length < fuel) :
    CallRefines conn (frameLoop fuel conn).1 wholeLoop := by
  induction fuel generalizing conn with
  | zero => cases hfuel
  | succ fuel ih =>
  have hrefines := frameTurn_refines hcut
  rw [frameLoop]
  generalize frameTurn conn = r at hrefines ⊢
  obtain ⟨conn', ret⟩ := r
  generalize hturn : wholeTurn conn.whole.ctx conn.whole.bytes = turn at hrefines
  cases hrefines with
  | starved reads wantRead shrinks dry inside =>
    refine reads.callRefines hwant wantRead shrinks (fun hnil => ?_)
      (wholeLoop_held reads.held fun ctx need h => inside ctx need (hturn ▸ h))
    rw [wholeLoop, hturn, dry hnil]
  | failed cut whole tape =>
    refine .done cut ?_ tape ?_
    · rw [whole, wholeLoop, hturn]
    intro h
    have hsame : conn'.wantRead = conn.wantRead := congrArg Whole.wantRead whole
    rw [hsame, hwant] at h
    cases h
  | @next ctx need cut whole tape =>
  have hloop : wholeLoop conn'.whole = wholeLoop conn.whole := by
    rw [whole, wholeLoop.eq_1 conn.whole, hturn]
  have hsetup : SameSetup conn.whole conn'.whole := whole ▸ wholeTurn_setup hturn
  have hlen : conn'.whole.bytes.length < fuel := by
    have hneed := wholeTurn_next hturn
    rw [whole, Whole.advance, length_drop]
    omega
  have hwant' : conn'.wantRead = false := (congrArg Whole.wantRead whole).trans hwant
  exact (ih cut hwant' hlen).before tape hsetup hloop fun _ _ => rfl

theorem wholeCall_loop (hready : (w.ctx.isClient || w.prefaceReceived) = true) :
    wholeCall w = wholeLoop w.start :=
  if_pos hready

theorem wholeCall_preface (hready : (w.ctx.isClient || w.prefaceReceived) = false) :
    wholeCall w = wholePreface w.start :=
  if_neg (Bool.eq_false_iff.mp hready)

theorem SameSetup.ready
    {w' : Whole} (h : SameSetup w w') (hready : (w.ctx.isClient || w.prefaceReceived) = true) :
    (w'.ctx.isClient || w'.prefaceReceived) = true := by
  rw [Bool.or_eq_true] at hready ⊢
  exact hready.imp (h.client.trans ·) h.preface

theorem frameLoop_callRefines (hcut : Cut conn.bio) (hwant : conn.wantRead = false)
    (hready : (conn.ctx.isClient || conn.prefaceReceived) = true) :
    CallRefines conn
      (frameLoop (conn.readBuffer.length + (tapeBytes conn.bio).length + 1) conn).1 wholeCall := by
  have hcall : wholeCall conn.whole = wholeLoop conn.whole := by
    rw [wholeCall_loop hready, conn.whole_start hwant]
  refine (frameLoop_refines hcut hwant (conn.length_whole ▸ Nat.lt_succ_self _)).before le_rfl
    ⟨rfl, rfl, id⟩ hcall.symm fun _ h => ?_
  exact wholeCall_loop (h.ready hready)

/-- A server that waits for the preface does not ask how much of it was read. -/
theorem wholeCall_held
    {held : Nat} (hready : (w.ctx.isClient || w.prefaceReceived) = false) (hheld : w.held ≤ held)
    (hinside : held ≤ connectionPrefaceLen) :
    wholeCall { w with held := held } = wholeCall w := by
  have hready' : (({ w with held := held } : Whole).ctx.isClient ||
      ({ w with held := held } : Whole).prefaceReceived) = false := hready
  rw [wholeCall_preface hready, wholeCall_preface hready']
  simp only [wholePreface, Whole.start, Whole.starve, Whole.stop, Whole.advance,
    Nat.max_eq_right hinside, Nat.max_eq_right (hheld.trans hinside)]
  rfl

theorem preface_starved
    (hwant : conn.wantRead = false) (hready : (conn.ctx.isClient || conn.prefaceReceived) = false)
    (h : Starved connectionPrefaceLen conn conn') : CallRefines conn conn' wholeCall := by
  refine h.toReads.callRefines hwant h.wantRead h.shrinks (fun hnil => ?_)
    (wholeCall_held hready h.held h.short.le)
  have hlen : conn'.readBuffer.length = conn.whole.bytes.length := by
    rw [Http2Conn.whole, ← h.bytes, hnil, tapeBytes_nil, append_nil]
  have hshort : conn.whole.start.bytes.length < connectionPrefaceLen := hlen ▸ h.short
  rw [wholeCall_preface hready, wholePreface, if_pos hshort]
  rfl

/-- The rest of a call, once the bytes of the preface are there. -/
theorem preface_filled
    (hwant : conn.wantRead = false) (hready : (conn.ctx.isClient || conn.prefaceReceived) = false)
    (h : Filled connectionPrefaceLen conn conn₁) :
    CallRefines conn (if conn₁.readBuffer.take connectionPrefaceLen ≠ connectionPreface then
        { conn₁ with
          ctx := conn₁.ctx.setStatus
            (if looksLikeHttp1 conn₁.readBuffer then errHttp1 else errProtocol) }
      else
        let conn₂ : Http2Conn :=
          { conn₁ with
            readBuffer := conn₁.readBuffer.drop connectionPrefaceLen
            prefaceReceived := true }
        (frameLoop (conn₂.readBuffer.length + (tapeBytes conn₂.bio).length + 1) conn₂).1)
      wholeCall := by
  obtain ⟨errno, hctx⟩ := h.ctx
  have hneed : connectionPrefaceLen ≤ conn₁.readBuffer.length := h.length ▸ Nat.le_max_right _ _
  have htake : conn₁.readBuffer.take connectionPrefaceLen =
      conn.whole.bytes.take connectionPrefaceLen := by
    rw [h.take, take_take, Nat.min_eq_left hneed]
  have hlooks : looksLikeHttp1 conn₁.readBuffer = looksLikeHttp1 conn.whole.bytes := by
    rw [h.take, looksLikeHttp1_take hneed]
  have hcall : wholeCall conn.whole = wholePreface conn.whole := by
    rw [wholeCall_preface hready, conn.whole_start hwant]
  have hwant₁ : conn₁.wantRead = false := h.wantRead.trans hwant
  rw [wholePreface, if_neg (Nat.not_lt.mpr (hneed.trans h.length_le))] at hcall
  rw [htake, hlooks]
  by_cases hpreface : conn.whole.bytes.take connectionPrefaceLen ≠ connectionPreface
  · rw [if_pos hpreface] at hcall ⊢
    refine .done h.cut ?_ h.tape fun hwant' => ?_
    · rw [h.whole_stop, hcall, hctx]
      rfl
    · rw [hwant₁] at hwant'
      cases hwant'
  rw [if_neg hpreface] at hcall ⊢
  have herase : conn₁.ctx.setErrno .clear = conn.whole.ctx := by
    rw [hctx]
    rfl
  have hwhole := h.whole_advance conn₁.ctx
  rw [herase] at hwhole
  generalize hconn : ({ conn₁ with
      readBuffer := conn₁.readBuffer.drop connectionPrefaceLen
      prefaceReceived := true } : Http2Conn) = conn₂
  have hloop : wholeLoop conn₂.whole = wholeCall conn.whole := by
    rw [hcall, ← hconn]
    exact congrArg (fun w : Whole => wholeLoop { w with prefaceReceived := true }) hwhole
  have hcut : Cut conn₂.bio := hconn ▸ h.cut
  have hpre : conn₂.whole.prefaceReceived = true := hconn ▸ rfl
  have hsetup : SameSetup conn.whole conn₂.whole := by
    rw [← hconn]
    exact ⟨congrArg (·.isClient) herase, congrArg (·.ioClosed) herase, fun _ => rfl⟩
  have htape : conn₂.bio.length ≤ conn.bio.length := hconn ▸ h.tape
  refine (frameLoop_refines hcut (hconn ▸ hwant₁)
    (conn₂.length_whole ▸ Nat.lt_succ_self _)).before htape hsetup hloop fun _ h => ?_
  exact wholeCall_loop (h.ready (by rw [hpre, Bool.or_true]))

theorem CallRefines.of_start (h : CallRefines { conn with wantRead := false } conn' wholeCall) :
    CallRefines conn conn' wholeCall := by
  cases h with
  | done cut whole tape dry => exact .done cut whole tape dry
  | pending cut wantRead rest shrinks setup resumes =>
    exact .pending cut wantRead rest shrinks ⟨setup.client, setup.closed, setup.preface⟩ resumes

theorem http2ProcessFrames_refines (hcut : Cut conn.bio) (hopen : conn.ctx.ioClosed = false) :
    CallRefines conn (http2ProcessFrames conn).1 wholeCall := by
  apply CallRefines.of_start
  rw [http2ProcessFrames, if_neg (Bool.eq_false_iff.mp hopen)]
  generalize hstart : ({ conn with wantRead := false } : Http2Conn) = conn₀
  have hwant : conn₀.wantRead = false := hstart ▸ rfl
  replace hcut : Cut conn₀.bio := hstart ▸ hcut
  rw [http2VerifyConnectionPreface]
  cases hready : conn₀.ctx.isClient || conn₀.prefaceReceived with
  | true => exact frameLoop_callRefines hcut hwant hready
  | false =>
  rcases fillBuffer_cut hcut connectionPrefaceLen errEagain with
    ⟨conn₁, heq, hfill⟩ | ⟨conn₁, ret, heq, hstarve⟩
  · rw [heq]
    have hrefines := preface_filled hwant hready hfill
    by_cases hpreface : conn₁.readBuffer.take connectionPrefaceLen ≠ connectionPreface
    · simp only [if_pos hpreface] at hrefines ⊢
      exact hrefines
    · simp only [if_neg hpreface] at hrefines ⊢
      exact hrefines
  · rw [heq]
    exact preface_starved hwant hready hstarve

/-! ### All bytes -/

/--
Calls of `_http2_process_frames` until the transport has nothing left.  A call
that does not end for want of bytes left a frame that it could not handle in the
buffer; the next one tries it again, `patience` times in all.  The second result
is the patience that is left.
-/
def processCalls : (calls patience : Nat) → Http2Conn → Http2Conn × Nat
  | 0, patience, conn => (conn, patience)
  | calls + 1, patience, conn =>
    if conn.ctx.ioClosed ∨ conn.bio = [] ∨ patience = 0 then (conn, patience)
    else
      let conn := (http2ProcessFrames conn).1
      processCalls calls (if conn.wantRead then patience else patience - 1) conn

/-- The processing of all bytes.  Every call shortens the tape or costs patience. -/
def processAll (patience : Nat) (conn : Http2Conn) : Http2Conn × Nat :=
  processCalls (conn.bio.length + patience) patience conn

/-- The processing is over. -/
def Ended (r : Http2Conn × Nat) : Prop :=
  r.1.ctx.ioClosed = true ∨ r.1.bio = [] ∨ r.2 = 0

/-- `processAll`, on all bytes. -/
def wholeAll : (patience : Nat) → Whole → Whole × Nat
  | 0, w => (w, 0)
  | patience + 1, w =>
    if w.ctx.ioClosed ∨ w.held = w.bytes.length then (w, patience + 1)
    else if (wholeCall w).wantRead then (wholeCall w, patience + 1)
    else wholeAll patience (wholeCall w)

theorem Cut.held_iff (hcut : Cut conn.bio) :
    conn.whole.held = conn.whole.bytes.length ↔ conn.bio = [] := by
  rw [← hcut.tapeBytes_eq_nil, ← length_eq_zero_iff]
  simp only [Http2Conn.whole, length_append]
  omega

theorem processCalls_ended (calls : Nat) (h : Ended (conn, patience)) :
    processCalls calls patience conn = (conn, patience) := by
  cases calls with
  | zero => rfl
  | succ calls => exact if_pos h

theorem wholeAll_ended (hcut : Cut conn.bio) (h : Ended (conn, patience)) :
    wholeAll patience conn.whole = (conn.whole, patience) := by
  cases patience with
  | zero => rfl
  | succ patience =>
  refine if_pos ?_
  rw [hcut.held_iff]
  rcases h with h | h | h
  · exact .inl h
  · exact .inr h
  · cases h

theorem wholeAll_goes (hcut : Cut conn.bio) (h : ¬Ended (conn, patience + 1)) :
    wholeAll (patience + 1) conn.whole = if (wholeCall conn.whole).wantRead then
        (wholeCall conn.whole, patience + 1)
      else
        wholeAll patience (wholeCall conn.whole) := by
  refine if_neg ?_
  rw [hcut.held_iff]
  exact fun hend => h (hend.elim .inl fun hnil => .inr (.inl hnil))

/-- The calls on a cut come to an end, and have done what they do on all bytes at
once. -/
theorem processCalls_refines
    {calls : Nat} (hcut : Cut conn.bio) (hcalls : conn.bio.length + patience ≤ calls) :
    Ended (processCalls calls patience conn) ∧
      ((processCalls calls patience conn).1.whole, (processCalls calls patience conn).2) =
        wholeAll patience conn.whole := by
  induction calls generalizing conn patience with
  | zero =>
    have hend : Ended (conn, patience) := .inr (.inr (by omega))
    rw [processCalls_ended 0 hend, wholeAll_ended hcut hend]
    exact ⟨hend, rfl⟩
  | succ calls ih =>
  by_cases hend : Ended (conn, patience)
  · rw [processCalls_ended _ hend, wholeAll_ended hcut hend]
    exact ⟨hend, rfl⟩
  obtain ⟨patience, rfl⟩ : ∃ k, patience = k + 1 :=
    Nat.exists_eq_succ_of_ne_zero fun hzero => hend (.inr (.inr hzero))
  have hopen : conn.ctx.ioClosed = false := by
    rw [← Bool.not_eq_true]
    exact fun hclosed => hend (.inl hclosed)
  rw [wholeAll_goes hcut hend, processCalls]
  rw [if_neg (show ¬(conn.ctx.ioClosed = true ∨ conn.bio = [] ∨ patience + 1 = 0) from hend)]
  have hcall := http2ProcessFrames_refines hcut hopen
  generalize (http2ProcessFrames conn).1 = conn' at hcall ⊢
  cases hcall with
  | done cut whole tape dry =>
    rw [← whole]
    by_cases hwant : conn'.wantRead = true
    · have hend' : Ended (conn', patience + 1) := .inr (.inl (dry hwant))
      have hwant' : conn'.whole.wantRead = true := hwant
      simp only [if_pos hwant, if_pos hwant', processCalls_ended calls hend']
      exact ⟨hend', trivial⟩
    · have hwant' : ¬conn'.whole.wantRead = true := hwant
      simp only [if_neg hwant, if_neg hwant', Nat.add_sub_cancel]
      exact ih cut (by omega)
  | pending cut wantRead rest shrinks setup resumes =>
  have hend' : ¬Ended (conn', patience + 1) := by
    rintro (hclosed | hnil | hzero)
    · exact hend (.inl (setup.closed.symm.trans hclosed))
    · exact rest hnil
    · cases hzero
  have hih := ih cut (show conn'.bio.length + (patience + 1) ≤ calls by omega)
  rw [wholeAll_goes cut hend', show wholeCall conn'.whole = wholeCall conn.whole from resumes]
    at hih
  simp only [if_pos wantRead]
  exact hih

/-! ### Any two cuts -/

/-- Two connections that differ in `errno`, which is not theirs, and in the cut of
the bytes that were not read. -/
structure SameState (conn conn' : Http2Conn) : Prop where
  ctx : ∃ errno, conn'.ctx = conn.ctx.setErrno errno
  readBuffer : conn'.readBuffer = conn.readBuffer
  prefaceReceived : conn'.prefaceReceived = conn.prefaceReceived
  wantRead : conn'.wantRead = conn.wantRead
  unread : tapeBytes conn'.bio = tapeBytes conn.bio

theorem SameState.of_whole (h : conn'.whole = conn.whole) : SameState conn conn' := by
  have hctx : conn'.ctx.setErrno .clear = conn.ctx.setErrno .clear := congrArg Whole.ctx h
  have hbytes : conn'.readBuffer ++ tapeBytes conn'.bio =
      conn.readBuffer ++ tapeBytes conn.bio := congrArg Whole.bytes h
  have hheld : conn'.readBuffer.length = conn.readBuffer.length := congrArg Whole.held h
  obtain ⟨hbuffer, hunread⟩ := append_inj hbytes hheld
  refine ⟨⟨conn'.ctx.io.errno, ?_⟩, hbuffer, congrArg Whole.prefaceReceived h,
    congrArg Whole.wantRead h, hunread⟩
  calc conn'.ctx
    _ = (conn'.ctx.setErrno .clear).setErrno conn'.ctx.io.errno := rfl
    _ = conn.ctx.setErrno conn'.ctx.io.errno := by rw [hctx, setErrno_setErrno]

theorem processAll_refines (conn : Http2Conn) (cut : CutOf bytes) (patience : Nat) :
    Ended (processAll patience { conn with bio := cut.tape }) ∧
      ((processAll patience { conn with bio := cut.tape }).1.whole,
        (processAll patience { conn with bio := cut.tape }).2) =
      wholeAll patience { conn.whole with bytes := conn.readBuffer ++ bytes } := by
  have h := @processCalls_refines patience { conn with bio := cut.tape } _ cut.cut
    (Nat.le_refl (cut.tape.length + patience))
  refine ⟨h.1, h.2.trans ?_⟩
  simp only [Http2Conn.whole, cut.whole]

/--
Whatever way the transport cuts the bytes, the processing of all of them comes to
an end, leaves the same connection with the same streams, and sends the same
frames.
-/
theorem processAll_cut_irrelevant
    (conn : Http2Conn) (bytes : Bytes) (cut cut' : CutOf bytes) (patience : Nat) :
    Ended (processAll patience { conn with bio := cut.tape }) ∧
      Ended (processAll patience { conn with bio := cut'.tape }) ∧
      SameState (processAll patience { conn with bio := cut.tape }).1
        (processAll patience { conn with bio := cut'.tape }).1 ∧
      (processAll patience { conn with bio := cut'.tape }).1.ctx.sent =
        (processAll patience { conn with bio := cut.tape }).1.ctx.sent ∧
      (processAll patience { conn with bio := cut'.tape }).2 =
        (processAll patience { conn with bio := cut.tape }).2 := by
  obtain ⟨hend, hwhole⟩ := processAll_refines conn cut patience
  obtain ⟨hend', hwhole'⟩ := processAll_refines conn cut' patience
  obtain ⟨hfst, hsnd⟩ := Prod.mk.inj (hwhole'.trans hwhole.symm)
  have hsame := SameState.of_whole hfst
  obtain ⟨errno, hctx⟩ := hsame.ctx
  refine ⟨hend, hend', hsame, ?_, hsnd⟩
  rw [hctx]
  rfl

def pingBytes : Bytes :=
  http2WriteFrameHeader 8 framePing 0 0 ++ replicate 8 0

/-- The frame arrives in one piece. -/
def pingWhole : CutOf pingBytes :=
  ⟨[.data pingBytes], .data (by decide) .nil, append_nil _⟩

/-- The header of the frame is cut. -/
def pingCut : CutOf pingBytes where
  tape := [.data (pingBytes.take 4), .again, .data (pingBytes.drop 4)]
  cut := .data (by decide) (.again (.data (by decide) .nil) nofun)
  whole := by decide

/-- The ping is acknowledged in both cases. -/
theorem processAll_cut_irrelevant_ping :
    let whole := processAll 1 { ctx := blockedClient, bio := pingWhole.tape }
    let cut := processAll 1 { ctx := blockedClient, bio := pingCut.tape }
    whole.1.ctx.sent.length = blockedClient.sent.length + 1 ∧ SameState whole.1 cut.1 ∧
      cut.1.ctx.sent = whole.1.ctx.sent := by
  have h := processAll_cut_irrelevant { ctx := blockedClient } pingBytes pingWhole pingCut 1
  exact ⟨by decide +kernel, h.2.2.1, h.2.2.2.1⟩

end SmartDns.Http2
