import SmartDns.Http2.Quiet

/-!
# The counters of active streams

A connection counts its streams by the side that opened them.  A stream is counted
when it is created and discounted when it leaves the list; closing and resetting
it in between change neither.  The end of the connection takes the rest out.
-/

namespace SmartDns.Http2

open Hpack List

/-- The list, the hash map and the back pointers agree on the streams of the
connection. -/
structure StreamsWf (ctx : Http2Ctx) : Prop where
  nodup : ctx.streams.Nodup
  mapNodup : ctx.streamMap.Nodup
  linked_iff : ∀ p, (ctx.heap p).linked = true ↔ p ∈ ctx.streams
  lt : ∀ p ∈ ctx.streams, p < ctx.nextPtr
  mapLinked : ∀ p ∈ ctx.streamMap, p ∈ ctx.streams

theorem StreamsWf.of_eq {ctx ctx' : Http2Ctx} (hwf : StreamsWf ctx)
    (hstreams : ctx'.streams = ctx.streams) (hmap : ctx'.streamMap = ctx.streamMap)
    (hnext : ctx'.nextPtr = ctx.nextPtr)
    (hlinked : ∀ p, (ctx'.heap p).linked = (ctx.heap p).linked) :
    StreamsWf ctx' := by
  refine ⟨hstreams ▸ hwf.nodup, hmap ▸ hwf.mapNodup, fun p => ?_, ?_, ?_⟩
  · rw [hlinked p, hstreams]
    exact hwf.linked_iff p
  · rw [hstreams, hnext]
    exact hwf.lt
  · rw [hmap, hstreams]
    exact hwf.mapLinked

theorem http2CreateStream_streamsWf {ctx : Http2Ctx} (hwf : StreamsWf ctx) (streamId : Nat) :
    StreamsWf (http2CreateStream ctx streamId).1 := by
  unfold http2CreateStream
  split
  · exact hwf.of_eq rfl rfl rfl fun _ => rfl
  have hfresh : ctx.nextPtr ∉ ctx.streams := fun hmem => absurd (hwf.lt _ hmem) (lt_irrefl _)
  refine ⟨nodup_cons.mpr ⟨hfresh, hwf.nodup⟩,
    nodup_cons.mpr ⟨fun h => hfresh (hwf.mapLinked _ h), hwf.mapNodup⟩,
    fun q => ?_, fun q hq => ?_, fun q hq => ?_⟩
  · by_cases hq : q = ctx.nextPtr
    · simp [hq, newStream]
    · simpa [hq] using hwf.linked_iff q
  · rcases mem_cons.mp hq with rfl | hq
    · exact Nat.lt_succ_self _
    · exact (hwf.lt q hq).trans (Nat.lt_succ_self _)
  · rcases mem_cons.mp hq with rfl | hq
    · exact mem_cons_self
    · exact mem_cons_of_mem _ (hwf.mapLinked q hq)

theorem http2RemoveStream_streamsWf {ctx : Http2Ctx} (hwf : StreamsWf ctx) (p : StreamPtr) :
    StreamsWf (http2RemoveStream ctx p) := by
  unfold http2RemoveStream
  dsimp only
  split
  · refine ⟨hwf.nodup.erase p, hwf.mapNodup.erase p, fun q => ?_, fun q hq => ?_, fun q hq => ?_⟩
    · rw [hwf.nodup.mem_erase_iff]
      by_cases hq : q = p
      · simp [hq]
      · simpa [hq] using hwf.linked_iff q
    · exact hwf.lt q (mem_of_mem_erase hq)
    · rw [hwf.mapNodup.mem_erase_iff] at hq
      rw [hwf.nodup.mem_erase_iff]
      exact ⟨hq.1, hwf.mapLinked q hq.2⟩
  · exact ⟨hwf.nodup, hwf.mapNodup.erase p, hwf.linked_iff, hwf.lt,
      fun q hq => hwf.mapLinked q (mem_of_mem_erase hq)⟩

theorem http2CtxCollectReadyStreams_perm
    {ctx : Http2Ctx} (hnodup : ctx.streams.Nodup) (room : Nat) (checkWritable : Bool) :
    (http2CtxCollectReadyStreams ctx room checkWritable).streams.Perm ctx.streams := by
  unfold http2CtxCollectReadyStreams
  generalize hready : (ctx.streams.filter fun p => streamReady checkWritable (ctx.heap p)).take
    room = ready
  have hsub : ready.Sublist ctx.streams := hready ▸ (take_sublist _ _).trans filter_sublist
  refine (perm_ext_iff_of_nodup ?_ hnodup).mpr fun p => ?_
  · refine List.Nodup.append (hnodup.filter _) (hnodup.sublist hsub) ?_
    intro p hp hp'
    simp only [mem_filter, decide_eq_true_eq] at hp
    exact hp.2 hp'
  · by_cases hp : p ∈ ready
    · simp [hp, hsub.subset hp]
    · simp [hp]

theorem http2CtxCollectReadyStreams_streamsWf
    {ctx : Http2Ctx} (hwf : StreamsWf ctx) (room : Nat) (checkWritable : Bool) :
    StreamsWf (http2CtxCollectReadyStreams ctx room checkWritable) := by
  have hperm := http2CtxCollectReadyStreams_perm hwf.nodup room checkWritable
  refine ⟨hperm.nodup_iff.mpr hwf.nodup, hwf.mapNodup, fun p => ?_, fun p hp => ?_, fun p hp => ?_⟩
  · exact (hwf.linked_iff p).trans hperm.mem_iff.symm
  · exact hwf.lt p (hperm.mem_iff.mp hp)
  · exact hperm.mem_iff.mpr (hwf.mapLinked p hp)

/-- A stream with an identifier that this side hands out. -/
def Http2Ctx.isLocal (ctx : Http2Ctx) (p : StreamPtr) : Bool :=
  http2IsLocalStreamId ctx (ctx.heap p).streamId

def Http2Ctx.active (ctx : Http2Ctx) (isLocal : Bool) : Int :=
  if isLocal then ctx.activeLocalStreams else ctx.activePeerStreams

def Http2Ctx.linked (ctx : Http2Ctx) (isLocal : Bool) : Nat :=
  ctx.streams.countP fun p => ctx.isLocal p == isLocal

/-- The counters are right, and the peer stays within its limit. -/
structure Counted (limit : Int) (ctx : Http2Ctx) : Prop where
  wf : StreamsWf ctx
  maxStreams : ctx.maxConcurrentStreams = limit
  counts : ∀ isLocal, ctx.active isLocal = ctx.linked isLocal
  within : 0 < limit → ctx.activePeerStreams ≤ limit

section Counted

variable {limit : Int} {ctx ctx' : Http2Ctx}

section

variable (h : Counted limit ctx)
include h

section

variable (hids : ∀ p, (ctx'.heap p).streamId = (ctx.heap p).streamId)
  (hclient : ctx'.isClient = ctx.isClient)
  (hmax : ctx'.maxConcurrentStreams = ctx.maxConcurrentStreams)
  (hactive : ctx'.active = ctx.active)
include hids hclient hmax hactive

theorem Counted.of_perm (hwf : StreamsWf ctx') (hperm : ctx'.streams.Perm ctx.streams) :
    Counted limit ctx' := by
  have hsides : ctx'.isLocal = ctx.isLocal := funext fun p => by
    simp only [Http2Ctx.isLocal, http2IsLocalStreamId, hids, hclient]
  refine ⟨hwf, hmax.trans h.maxStreams, fun isLocal => ?_, fun hlimit => ?_⟩
  · rw [hactive, h.counts, Http2Ctx.linked, Http2Ctx.linked, hsides, hperm.countP_eq]
  · exact (congrFun hactive false).le.trans (h.within hlimit)

theorem Counted.same (hstreams : ctx'.streams = ctx.streams)
    (hmap : ctx'.streamMap = ctx.streamMap) (hnext : ctx'.nextPtr = ctx.nextPtr)
    (hlinked : ∀ p, (ctx'.heap p).linked = (ctx.heap p).linked) :
    Counted limit ctx' :=
  h.of_perm hids hclient hmax hactive (h.wf.of_eq hstreams hmap hnext hlinked) (.of_eq hstreams)

end

theorem Counted.setStream {p : StreamPtr} {s : Http2Stream}
    (hlinked : s.linked = (ctx.heap p).linked) (hid : s.streamId = (ctx.heap p).streamId) :
    Counted limit (ctx.setStream p s) := by
  refine h.same (fun q => ?_) rfl rfl rfl rfl rfl rfl (fun q => ?_)
  all_goals
    rw [ctx.setStream_heap]
    split
    next hq => simp only [hq, hlinked, hid]
    · rfl

theorem Counted.link {p : StreamPtr} (hwf : StreamsWf ctx')
    (hstreams : ctx'.streams = p :: ctx.streams)
    (hsides : ∀ q ∈ ctx.streams, ctx'.isLocal q = ctx.isLocal q)
    (hactive : ∀ side, ctx'.active side = ctx.active side + if ctx'.isLocal p == side then 1 else 0)
    (hmax : ctx'.maxConcurrentStreams = ctx.maxConcurrentStreams)
    (hwithin : 0 < limit → ctx'.activePeerStreams ≤ limit) :
    Counted limit ctx' := by
  refine ⟨hwf, hmax.trans h.maxStreams, fun side => ?_, hwithin⟩
  have hold : ctx.streams.countP (fun q => ctx'.isLocal q == side) = ctx.linked side :=
    countP_congr fun q hq => by rw [hsides q hq]
  rw [Http2Ctx.linked, hstreams, countP_cons, hold, hactive, h.counts]
  push_cast
  rfl

theorem Counted.unlink {p : StreamPtr} (hwf : StreamsWf ctx') (hmem : p ∈ ctx.streams)
    (hstreams : ctx'.streams = ctx.streams.erase p) (hsides : ctx'.isLocal = ctx.isLocal)
    (hactive : ∀ side, ctx'.active side = ctx.active side - if ctx.isLocal p == side then 1 else 0)
    (hmax : ctx'.maxConcurrentStreams = ctx.maxConcurrentStreams) :
    Counted limit ctx' := by
  refine ⟨hwf, hmax.trans h.maxStreams, fun side => ?_, fun hlimit => ?_⟩
  · have hcount := h.counts side
    rw [Http2Ctx.linked, (perm_cons_erase hmem).countP_eq, countP_cons] at hcount
    rw [Http2Ctx.linked, hstreams, hsides, hactive, hcount]
    push_cast
    omega
  · have hpeer : ctx'.activePeerStreams = ctx.activePeerStreams - _ := hactive false
    have hwithin := h.within hlimit
    split at hpeer
    all_goals omega

theorem Counted.createStream (streamId : Nat) :
    Counted limit (http2CreateStream ctx streamId).1 := by
  have hwf := http2CreateStream_streamsWf h.wf streamId
  unfold http2CreateStream at hwf ⊢
  split
  · exact h.same (fun _ => rfl) rfl rfl rfl rfl rfl rfl fun _ => rfl
  next hroom =>
  rw [if_neg hroom] at hwf
  have hself : http2IsLocalStreamId ctx (if ctx.nextPtr = ctx.nextPtr then
      newStream ctx streamId else ctx.heap ctx.nextPtr).streamId =
      http2IsLocalStreamId ctx streamId := by
    rw [if_pos rfl]
    rfl
  refine h.link hwf rfl (fun q hq => ?_) (fun side => ?_) rfl (fun hlimit => ?_)
  · change http2IsLocalStreamId ctx (if q = ctx.nextPtr then newStream ctx streamId
      else ctx.heap q).streamId = _
    rw [if_neg (h.wf.lt q hq).ne]
    rfl
  · refine Eq.trans ?_ (congrArg (fun b : Bool => ctx.active side + if b == side then 1 else 0)
      hself.symm)
    cases http2IsLocalStreamId ctx streamId
    all_goals cases side
    all_goals simp [Http2Ctx.active]
  · have hwithin := h.within hlimit
    rw [← h.maxStreams] at hlimit hwithin ⊢
    simp only [tooManyStreams] at hroom
    cases hside : http2IsLocalStreamId ctx streamId with
    | true => simpa [hside] using hwithin
    | false =>
      simp [hside, hlimit] at hroom ⊢
      omega

theorem Counted.removeStream (p : StreamPtr) : Counted limit (http2RemoveStream ctx p) := by
  have hwf := http2RemoveStream_streamsWf h.wf p
  unfold http2RemoveStream at hwf ⊢
  dsimp only at hwf ⊢
  split
  next hmem =>
    rw [if_pos hmem] at hwf
    refine h.unlink hwf hmem rfl (funext fun q => ?_) (fun side => ?_) rfl
    · change http2IsLocalStreamId ctx (if q = p then { ctx.heap p with linked := false }
        else ctx.heap q).streamId = _
      split
      next hq => rw [hq]; rfl
      · rfl
    change (if side then if ctx.isLocal p then ctx.activeLocalStreams - 1
        else ctx.activeLocalStreams
      else if ctx.isLocal p then ctx.activePeerStreams else ctx.activePeerStreams - 1) = _
    cases ctx.isLocal p
    all_goals cases side
    all_goals simp [Http2Ctx.active]
  next hmem =>
    rw [if_neg hmem] at hwf
    exact h.of_perm (fun _ => rfl) rfl rfl rfl hwf (.refl _)

theorem Counted.close : Counted limit (http2CtxClose ctx) ∧ (http2CtxClose ctx).streams = [] := by
  unfold http2CtxClose
  generalize hstreams : ctx.streams = streams
  induction streams generalizing ctx with
  | nil => exact ⟨h, hstreams⟩
  | cons p rest ih =>
    refine ih (h.removeStream p) ?_
    simp [http2RemoveStream, hstreams]

end

/-- **One change.** -/
theorem Change.counted {k : Kind} (hchange : Change ctx k ctx') (h : Counted limit ctx) :
    Counted limit ctx' := by
  cases hchange with
  | stream p hview hid => exact h.setStream (congrArg SendView.linked hview) hid
  | bodyStream p hlinked hid => exact h.setStream hlinked hid
  | streamWindow p size => exact h.setStream rfl rfl
  | create streamId => exact h.createStream streamId
  | remove p => exact h.removeStream p
  | collect room checkWritable =>
    exact h.of_perm (fun _ => rfl) rfl rfl rfl
      (http2CtxCollectReadyStreams_streamsWf h.wf room checkWritable)
      (http2CtxCollectReadyStreams_perm h.wf.nodup room checkWritable)
  | headers streamId fields endStream =>
    unfold http2SendHeadersFrame
    repeat' split
    all_goals
      dsimp only
      repeat' split
      all_goals exact h.same (fun _ => rfl) rfl rfl rfl rfl rfl rfl fun _ => rfl
  | _ => exact h.same (fun _ => rfl) rfl rfl rfl rfl rfl rfl fun _ => rfl

end Counted

theorem counted_init
    (isClient : Bool) (server : CStr) (maxConcurrentStreams : Int) (bio : List BioWrite) :
    Counted maxConcurrentStreams (http2CtxInitCommon isClient server maxConcurrentStreams bio) := by
  refine ⟨⟨.nil, .nil, fun p => ?_, nofun, nofun⟩, rfl, fun side => ?_, fun h => h.le⟩
  · simp [http2CtxInitCommon]
  · cases side <;> rfl

/--
**The counters of active streams are exact.**  In every run of a connection the two
counters are the numbers of linked streams of this side and of the other side, and
the other side never has more than the configured number of streams, if one is set.
Closing the connection brings both back to zero.
-/
theorem active_streams_exact
    (isClient : Bool) (server : CStr) (maxConcurrentStreams : Int) (bio : List BioWrite)
    (events : List Event) :
    let ctx := run step (http2CtxNew isClient server maxConcurrentStreams bio) events
    (∀ p, p ∈ ctx.streams ↔ (ctx.heap p).linked = true) ∧ ctx.streams.Nodup ∧
      ctx.activeLocalStreams =
        ctx.streams.countP (fun p => http2IsLocalStreamId ctx (ctx.heap p).streamId) ∧
      ctx.activePeerStreams =
        ctx.streams.countP (fun p => !http2IsLocalStreamId ctx (ctx.heap p).streamId) ∧
      0 ≤ ctx.activeLocalStreams ∧ 0 ≤ ctx.activePeerStreams ∧
      (0 < maxConcurrentStreams → ctx.activePeerStreams ≤ maxConcurrentStreams) ∧
      (http2CtxClose ctx).activeLocalStreams = 0 ∧ (http2CtxClose ctx).activePeerStreams = 0 := by
  intro ctx
  have hctx : Counted maxConcurrentStreams ctx :=
    run_invariant step _
      (fun ctx e h _ => (step_changes ctx e).preserves (fun _ => Change.counted) h)
      ((http2CtxNew_changes isClient server maxConcurrentStreams bio).preserves
        (fun _ => Change.counted) (counted_init isClient server maxConcurrentStreams bio))
      (admissible_true _ _ events)
  have hlocal : ctx.activeLocalStreams = ctx.streams.countP (ctx.isLocal ·) := by
    simpa [Http2Ctx.active, Http2Ctx.linked] using hctx.counts true
  have hpeer : ctx.activePeerStreams = ctx.streams.countP (!ctx.isLocal ·) := by
    simpa [Http2Ctx.active, Http2Ctx.linked] using hctx.counts false
  refine ⟨fun p => (hctx.wf.linked_iff p).symm, hctx.wf.nodup, hlocal, hpeer,
    hlocal ▸ Int.natCast_nonneg _, hpeer ▸ Int.natCast_nonneg _, hctx.within, ?_, ?_⟩
  all_goals
    have hcounts := hctx.close.1.counts
    simp only [Http2Ctx.linked, hctx.close.2, countP_nil] at hcounts
  · exact hcounts true
  · exact hcounts false

end SmartDns.Http2
