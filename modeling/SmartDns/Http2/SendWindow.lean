import SmartDns.Http2.SendFlow

/-!
# Send flow control is never exceeded

`observeGrants` keeps the account of what the peer grants along a run.  A
healthy connection agrees with it; a frame that breaks the agreement also ends
all sending.
-/

namespace SmartDns.Http2

open Hpack FlowState

variable {ctx ctx' : Http2Ctx} {f : Frame} {e : Event} {l : Ledger}

/-! ### The windows fit an `int` -/

/-- Every send window is within `INT_MIN .. INT_MAX`. -/
def InRange (ctx : Http2Ctx) : Prop :=
  (flowState ctx {}).Bounded intMax

theorem InRange.flows (h : InRange ctx) (hflows : Flows ctx ctx') : InRange ctx' :=
  (hflows.spends {}).bounded h

theorem InRange.opens (h : InRange ctx) (hopens : Opens ctx ctx') : InRange ctx' := by
  unfold InRange
  rw [hopens.flow {}]
  exact FlowState.Bounded.openStream h _

theorem setWindow_flow (ctx : Http2Ctx) (p : StreamPtr) (w : Int) (l : Ledger) :
    flowState (ctx.setStream p { ctx.heap p with sendWindowSize := w }) l =
      { flowState ctx l with
        window := Function.update (flowState ctx l).window p w } := by
  simp only [flowState, mk.injEq, true_and]
  refine ⟨rfl, rfl, rfl, funext fun q => ?_, funext fun q => ?_, rfl, rfl⟩
  all_goals
    by_cases hq : q = p
    · simp [hq]
    · simp [hq, Http2Ctx.setStream]

section

variable (h : InRange ctx)
include h

theorem InRange.setWindow (p : StreamPtr) {w : Int} (hge : intMin ≤ w) (hle : w ≤ intMax) :
    InRange (ctx.setStream p { ctx.heap p with sendWindowSize := w }) := by
  unfold InRange
  rw [setWindow_flow]
  exact FlowState.Bounded.setWindow h rfl rfl hge hle rfl

theorem InRange.shiftWindows (delta : Int) (streams : List StreamPtr) :
    InRange (shiftWindows delta streams ctx).1 := by
  induction streams generalizing ctx with
  | nil => exact h
  | cons p rest ih =>
  have hge := h.window_ge p
  have hle := h.window_le p
  unfold Http2.shiftWindows
  dsimp only
  split
  · exact h.flows (failConnection_sendQuiet ctx _).flows
  next hcheck =>
  simp only [flowState, intMax, intMin] at hge hle hcheck
  refine ih (h.setWindow p ?_ ?_)
  · unfold intMin
    omega
  · unfold intMax
    omega

theorem InRange.applySetting (id value : Nat) : InRange (applySetting ctx id value).1 := by
  have hfail : ∀ code, InRange (failConnection ctx code).1 :=
    fun code => h.flows (failConnection_sendQuiet ctx code).flows
  unfold Http2.applySetting
  split
  · exact h
  split
  · split
    · exact hfail _
    · exact h
  split
  · exact h
  split
  · split
    · exact hfail _
    next hle =>
    have hinitial : InRange { ctx with sendInitialWindowSize := value } :=
      ⟨h.conn_nonneg, h.conn_le, Int.natCast_nonneg value, not_lt.mp hle, h.window_ge, h.window_le⟩
    exact hinitial.shiftWindows _ _
  split
  · split
    · exact hfail _
    · exact ⟨h.conn_nonneg, h.conn_le, h.initial_nonneg, h.initial_le, h.window_ge, h.window_le⟩
  split
  · exact h
  · exact h

theorem InRange.applySettings (entries : List (Nat × Nat)) :
    InRange (applySettings entries ctx).1 := by
  induction entries generalizing ctx with
  | nil => exact h
  | cons entry rest ih =>
  obtain ⟨id, value⟩ := entry
  have happly := h.applySetting id value
  unfold Http2.applySettings
  split
  next heq => rwa [heq] at happly
  next heq =>
  rw [heq] at happly
  exact ih happly

theorem InRange.settingsFrame (data : Bytes) (flags : Nat) :
    InRange (http2ProcessSettingsFrame ctx data flags).1 := by
  have hfail : InRange (failConnection ctx rstProtocolError).1 :=
    h.flows (failConnection_sendQuiet ctx _).flows
  have happly := h.applySettings (settingsEntries data)
  unfold http2ProcessSettingsFrame
  split
  · split
    · exact hfail
    · exact h
  split
  · exact hfail
  split
  next heq => rwa [heq] at happly
  next heq =>
  rw [heq] at happly
  exact happly.flows (settingsReceived_sendQuiet _).flows

theorem InRange.creditWindow (streamId increment : Nat) :
    InRange (creditWindow ctx streamId increment).1 := by
  unfold Http2.creditWindow
  split
  · split
    · exact h.flows (failConnection_sendQuiet ctx _).flows
    next hcheck =>
    have hconn := h.conn_nonneg
    simp only [flowState] at hconn
    refine ⟨?_, ?_, h.initial_nonneg, h.initial_le, h.window_ge, h.window_le⟩
    all_goals
      simp only [flowState]
      omega
  split
  · exact h
  next p hfind =>
  have hge := h.window_ge p
  simp only [flowState] at hge
  dsimp only
  split
  · exact h.flows (http2SendRstStream_sendQuiet ctx _ _).flows
  next hcheck =>
    refine h.setWindow p ?_ ?_
    · unfold intMin intMax at *
      omega
    · omega

end

/-! ### The account -/

/-- A setting that grants something. -/
def Ledger.setting (l : Ledger) (entry : Nat × Nat) : Ledger :=
  if entry.1 = 0x04 then { l with initialWindow := entry.2 }
  else if entry.1 = 0x05 then { l with maxFrame := entry.2 }
  else l

/-- A window update, for the connection or a stream that exists. -/
def Ledger.increment (l : Ledger) (ctx : Http2Ctx) (streamId n : Nat) : Ledger :=
  if streamId = 0 then { l with conn := l.conn + n }
  else
    match http2FindStream ctx streamId with
    | none => l
    | some p => { l with credit := Function.update l.credit p (l.credit p + n) }

def Ledger.receive (l : Ledger) (ctx : Http2Ctx) (f : Frame) : Ledger :=
  if f.type = frameSettings ∧ !hasFlag f.flags flagAck then
    (settingsEntries f.payload).foldl Ledger.setting l
  else if f.type = frameWindowUpdate ∧ f.payload.length = 4 then
    l.increment ctx f.streamId (windowIncrement f.payload)
  else l

def observeGrants (ctx : Http2Ctx) : Event → Ledger → Ledger
  | .recvFrame f, l => if ctx.ioClosed then l else l.receive ctx f
  | _, l => l

theorem Ledger.conn_le_receive (l : Ledger) (ctx : Http2Ctx) (f : Frame) :
    l.conn ≤ (l.receive ctx f).conn := by
  have hsetting : ∀ (entries : List (Nat × Nat)) (l : Ledger),
      (entries.foldl Ledger.setting l).conn = l.conn := by
    intro entries
    induction entries with
    | nil => exact fun _ => rfl
    | cons entry entries ih =>
      intro l
      rw [List.foldl_cons, ih]
      unfold Ledger.setting
      repeat' split
      all_goals rfl
  unfold Ledger.receive Ledger.increment
  repeat' split
  · rw [hsetting]
  · dsimp only
    omega
  all_goals exact le_refl _

theorem Ledger.conn_le_observe (l : Ledger) (ctx : Http2Ctx) (e : Event) :
    l.conn ≤ (observeGrants ctx e l).conn := by
  cases e with
  | recvFrame f =>
    simp only [observeGrants]
    split
    · exact le_refl _
    · exact l.conn_le_receive ctx f
  | _ => exact le_refl _

/-! ### What an event does to the sending side -/

/-- The effect of an event on the sending side. -/
inductive SendStep (ctx : Http2Ctx) : Event → Http2Ctx → Prop
  /-- Nothing is granted, and the connection may send. -/
  | sends {e : Event} {ctx' : Http2Ctx} :
      Flows ctx ctx' → (∀ l, observeGrants ctx e l = l) →
        SendStep ctx e ctx'
  /-- A stream is opened. -/
  | opens {e : Event} {ctx₁ ctx' : Http2Ctx} :
      Opens ctx ctx₁ → SendQuiet ctx₁ ctx' →
        (∀ l, observeGrants ctx e l = l) → SendStep ctx e ctx'
  /-- A frame is refused, and the connection fails. -/
  | refused {e : Event} {ctx' : Http2Ctx} :
      SendQuiet ctx ctx' → ctx'.status < 0 → SendStep ctx e ctx'
  | settings {f : Frame} :
      ctx.ioClosed = false → f.type = frameSettings →
        SendStep ctx (.recvFrame f)
          (frameResult (http2ProcessSettingsFrame ctx f.payload f.flags))
  | windowUpdate {f : Frame} :
      ctx.ioClosed = false → f.type = frameWindowUpdate →
        SendStep ctx (.recvFrame f)
          (frameResult (http2ProcessWindowUpdateFrame ctx f.streamId f.payload))

theorem SendQuiet.sendStep (h : SendQuiet ctx ctx') (he : ∀ l, observeGrants ctx e l = l) :
    SendStep ctx e ctx' :=
  .sends h.flows he

theorem dispatchFrame_sendStep (hopen : ctx.ioClosed = false) (f : Frame) :
    SendStep ctx (.recvFrame f) (dispatchFrame ctx f) := by
  have hgrants : f.type ≠ frameSettings → f.type ≠ frameWindowUpdate →
      ∀ l, observeGrants ctx (.recvFrame f) l = l := by
    intro hsettings hupdate l
    simp only [observeGrants, hopen, Bool.false_eq_true, if_false]
    simp [Ledger.receive, hsettings, hupdate]
  have hopens : f.type = frameHeaders ∨ f.type = frameContinuation →
      ∀ r : Http2Ctx × Bool, (∃ ctx₁, (ctx₁ = ctx ∨ ctx₁ = (http2CreateStream ctx f.streamId).1) ∧
        Changes [.plain, .headerBlock] ctx₁ r.1) →
      SendStep ctx (.recvFrame f) (frameResult r) := by
    rintro htype r ⟨ctx₁, hcreate, hchanges⟩
    have hsame := (hchanges.sendQuiet rfl).trans (frameResult_sendQuiet _)
    have he : ∀ l, observeGrants ctx (.recvFrame f) l = l := by
      refine hgrants ?_ ?_
      all_goals
        rcases htype with h | h
        all_goals
          simp [h, frameHeaders, frameContinuation, frameSettings, frameWindowUpdate]
    rcases hcreate with rfl | rfl
    · exact hsame.sendStep he
    rcases http2CreateStream_opens ctx f.streamId with hquiet | hopens
    · exact (hquiet.trans hsame).sendStep he
    · exact .opens hopens hsame he
  have hkinds := (dispatchFrame_traced ctx f).changes
  unfold dispatchFrame Frame.kinds at hkinds
  unfold dispatchFrame
  split
  next h =>
    rw [if_pos h, if_pos h] at hkinds
    refine (hkinds.sendQuiet rfl).sendStep (hgrants ?_ ?_)
    all_goals simp [h, frameData, frameSettings, frameWindowUpdate]
  next hdata =>
  split
  next h =>
    exact hopens (.inl h) _
      (http2ProcessHeadersFrame_opensOne ctx (by simp) (by simp) h).changes
  next hheaders =>
  split
  next h =>
    exact hopens (.inr h) _
      (http2ProcessContinuationFrame_opensOne ctx (by simp) (by simp) h).changes
  next hcont =>
  split
  next h =>
    split
    · exact .refused (failConnection_sendQuiet ctx _) (by
        simp [failConnection, errProtocol])
    · exact .settings hopen h
  next hsettings =>
  split
  next h => exact .windowUpdate hopen h
  next hupdate =>
  simp only [hdata, hheaders, hcont, hsettings, hupdate, or_self, if_false] at hkinds
  exact (hkinds.sendQuiet rfl).sendStep (hgrants hsettings hupdate)

theorem http2ProcessFrame_sendStep (ctx : Http2Ctx) (f : Frame) :
    SendStep ctx (.recvFrame f) (http2ProcessFrame ctx f) := by
  unfold http2ProcessFrame
  split
  next hclosed =>
    refine (SendQuiet.refl ctx).sendStep fun l => ?_
    simp [observeGrants, hclosed]
  next hopen =>
  split
  · exact .refused (setStatus_sendQuiet ctx _) (by simp [errProtocol])
  split
  · exact .refused (failConnection_sendQuiet ctx _) (by
      simp [failConnection, errProtocol])
  · exact dispatchFrame_sendStep (by simpa using hopen) f

/-- **One event on the sending side.** -/
theorem step_sendStep (ctx : Http2Ctx) (e : Event) : SendStep ctx e (step ctx e) := by
  cases e with
  | recvFrame f => exact http2ProcessFrame_sendStep ctx f
  | flushBodies => exact .sends (http2CtxFlushPendingSendBodies_flows ctx) fun _ => rfl
  | collectReady room checkWritable =>
    exact .sends ⟨fun l => .refl _, fun hwf => http2CtxCollectReadyStreams_streamsWf hwf _ _⟩
      fun _ => rfl
  | streamNew =>
    have hnext : SendQuiet ctx { ctx with nextStreamId := ctx.nextStreamId + 2 } :=
      ⟨fun _ => rfl, rfl, rfl, rfl, rfl, rfl, rfl, rfl⟩
    simp only [step, http2StreamNew]
    split
    · exact (setErrno_sendQuiet ctx _).sendStep fun _ => rfl
    split
    · exact (setErrno_sendQuiet ctx _).sendStep fun _ => rfl
    rcases http2CreateStream_opens { ctx with nextStreamId := ctx.nextStreamId + 2 }
      ctx.nextStreamId with hquiet | hopens
    · exact (hnext.trans hquiet).sendStep fun _ => rfl
    · exact .opens ⟨hopens.flow, hopens.wf ∘ hnext.flowQuiet.wf⟩ (.refl _) fun _ => rfl
  | setRequest p method path scheme headers =>
    exact .sends (http2StreamSetRequest_sends (K := [.encoder]) ctx (by simp) _ _ _ _).flows fun _ => rfl
  | writeBody p data endStream =>
    exact .sends (http2StreamWriteBody_sends (K := []) ctx _ _).flows fun _ => rfl
  | close p =>
    exact .sends (http2StreamClose_sends (K := [.remove]) ctx (by simp)).flows fun _ => rfl
  | _ => exact ((step_changes ctx _).sendQuiet rfl).sendStep fun _ => rfl

theorem Regrants.wf (h : Regrants ctx ctx') (hwf : StreamsWf ctx) : StreamsWf ctx' :=
  hwf.of_eq h.streams h.streamMap h.nextPtr fun p =>
    congrArg SendView.linked (h.body p)

theorem Regrants.dataPayloads (h : Regrants ctx ctx') :
    dataPayloads ctx'.sent = dataPayloads ctx.sent := by
  rw [Http2.dataPayloads, h.data, Http2.dataPayloads]

/-! ### A healthy connection agrees with the account -/

structure Agrees (ctx : Http2Ctx) (l : Ledger) : Prop where
  inv : (flowState ctx l).Inv intMax
  initial : ctx.sendInitialWindowSize = l.initialWindow
  maxFrame : ctx.peerMaxFrameSize = l.maxFrame

theorem Agrees.sendQuiet (h : Agrees ctx l) (hquiet : SendQuiet ctx ctx') : Agrees ctx' l := by
  refine ⟨?_, hquiet.initialWindow.trans h.initial, hquiet.maxFrame.trans h.maxFrame⟩
  rw [hquiet.flowQuiet.flow l]
  exact h.inv

theorem shiftWindows_ok {delta : Int} {streams : List StreamPtr} (hnodup : streams.Nodup)
    (hok : (shiftWindows delta streams ctx).2 = true) :
    (shiftWindows delta streams ctx).1 = { ctx with
        heap := fun q =>
          if q ∈ streams then
            { ctx.heap q with
              sendWindowSize := (ctx.heap q).sendWindowSize + delta }
          else
            ctx.heap q } := by
  induction streams generalizing ctx with
  | nil => simp [shiftWindows]
  | cons p rest ih =>
  obtain ⟨hp, hrest⟩ := List.nodup_cons.mp hnodup
  unfold shiftWindows at hok ⊢
  dsimp only at hok ⊢
  split
  next hfail =>
    rw [if_pos hfail] at hok
    exact absurd hok (by simp [failConnection])
  next hfit =>
  rw [if_neg hfit] at hok
  rw [ih hrest hok]
  simp only [Http2Ctx.setStream, Http2Ctx.mk.injEq, true_and, and_true]
  funext q
  by_cases hq : q = p
  · simp [hq, hp]
  · simp [hq]

theorem shiftWindows_flow (hwf : StreamsWf ctx) (l : Ledger) (value : Int) (hok :
      (shiftWindows (value - ctx.sendInitialWindowSize) ctx.streams
        { ctx with sendInitialWindowSize := value }).2 = true) :
    flowState
        (shiftWindows (value - ctx.sendInitialWindowSize) ctx.streams
          { ctx with sendInitialWindowSize := value }).1
        { l with initialWindow := value } =
      (flowState ctx l).setInitial value := by
  rw [shiftWindows_ok hwf.nodup hok]
  simp only [flowState, setInitial, mk.injEq, true_and]
  refine ⟨funext fun q => ?_, funext fun q => ?_, trivial⟩
  all_goals
    by_cases hq : q ∈ ctx.streams
    · have hlinked := (hwf.linked_iff q).mpr hq
      simp [hq, hlinked]
    · have hlinked : (ctx.heap q).linked = false := by simpa [hq] using hwf.linked_iff q
      simp [hq, hlinked]

theorem applySetting_agrees (hwf : StreamsWf ctx) (h : Agrees ctx l) {id value : Nat}
    (heq : applySetting ctx id value = (ctx', true)) :
    Agrees ctx' (l.setting (id, value)) := by
  have hfail : ∀ code, failConnection ctx code ≠ (ctx', true) := by
    intro code
    simp [failConnection]
  unfold applySetting at heq
  by_cases h1 : id = 0x01
  · subst h1
    cases heq
    exact ⟨h.inv, h.initial, h.maxFrame⟩
  rw [if_neg h1] at heq
  by_cases h2 : id = 0x02
  · subst h2
    rw [if_pos rfl] at heq
    split at heq
    · exact absurd heq (hfail _)
    · cases heq
      exact h
  rw [if_neg h2] at heq
  by_cases h3 : id = 0x03
  · subst h3
    cases heq
    exact ⟨h.inv, h.initial, h.maxFrame⟩
  rw [if_neg h3] at heq
  by_cases h4 : id = 0x04
  · subst h4
    rw [if_pos rfl] at heq
    split at heq
    · exact absurd heq (hfail _)
    next hle =>
    have hflow := shiftWindows_flow hwf l value (congrArg Prod.snd heq)
    rw [heq] at hflow
    have hinv := h.inv.setInitial (Int.natCast_nonneg value)
      (not_lt.mp hle)
    rw [← hflow] at hinv
    exact ⟨hinv, congrArg initial hflow, (congrArg maxFrame hflow).trans h.maxFrame⟩
  rw [if_neg h4] at heq
  by_cases h5 : id = 0x05
  · subst h5
    rw [if_pos rfl] at heq
    split at heq
    · exact absurd heq (hfail _)
    · cases heq
      exact ⟨h.inv.setMaxFrame value, h.initial, rfl⟩
  · have hsame : l.setting (id, value) = l := by simp [Ledger.setting, h4, h5]
    rw [hsame]
    rw [if_neg h5] at heq
    split at heq
    all_goals
      cases heq
      exact ⟨h.inv, h.initial, h.maxFrame⟩

theorem applySettings_agrees (hwf : StreamsWf ctx) (h : Agrees ctx l) {entries : List (Nat × Nat)}
    (heq : applySettings entries ctx = (ctx', true)) :
    Agrees ctx' (entries.foldl Ledger.setting l) := by
  induction entries generalizing ctx l with
  | nil =>
    cases heq
    exact h
  | cons entry rest ih =>
  obtain ⟨id, value⟩ := entry
  unfold applySettings at heq
  split at heq
  · cases heq
  next ctx₁ heq₁ =>
  have hchanges : Changes [.plain, .grant, .encoder] ctx ctx₁ :=
    ((applySetting_still (by simp) (by simp) ctx id value (by simp)).fst heq₁).changes
  have hwf₁ : StreamsWf ctx₁ := (hchanges.regrants rfl).wf hwf
  exact ih hwf₁ (applySetting_agrees hwf h heq₁) heq

theorem creditWindow_agrees (hwf : StreamsWf ctx) (h : Agrees ctx l) {streamId n : Nat}
    (heq : creditWindow ctx streamId n = (ctx', true)) :
    Agrees ctx' (l.increment ctx streamId n) := by
  unfold creditWindow at heq
  unfold Ledger.increment
  by_cases hid : streamId = 0
  · rw [if_pos hid] at heq ⊢
    split at heq
    · exact absurd heq (by simp [failConnection])
    · cases heq
      exact ⟨h.inv.grantConn n, h.initial, h.maxFrame⟩
  rw [if_neg hid] at heq ⊢
  cases hfind : http2FindStream ctx streamId with
  | none =>
    simp only [hfind, Prod.mk.injEq, and_true] at heq ⊢
    exact heq ▸ h
  | some p =>
  simp only [hfind] at heq ⊢
  split at heq
  · cases heq
  · cases heq
    have hlinked : (ctx.heap p).linked = true :=
      (hwf.linked_iff p).mpr (hwf.mapLinked p (List.mem_of_find?_eq_some hfind))
    refine ⟨?_, h.initial, h.maxFrame⟩
    rw [setWindow_flow]
    exact h.inv.grantStream hlinked n

/-- Grants first, then sending: how an event of a healthy connection looks in
the account. -/
def Accounted (ctx ctx' : Http2Ctx) (l : Ledger) : Prop :=
  ∃ s : FlowState StreamPtr,
    s.Inv intMax ∧ s.sent = dataPayloads ctx.sent ∧
      s.initial = l.initialWindow ∧ s.maxFrame = l.maxFrame ∧
      FlowState.Spends s (flowState ctx' l)

/-- The connection has failed, and nothing was sent. -/
def Silenced (ctx ctx' : Http2Ctx) : Prop :=
  ctx'.status < 0 ∧ dataPayloads ctx'.sent = dataPayloads ctx.sent

theorem Accounted.agrees (h : Accounted ctx ctx' l) : Agrees ctx' l := by
  obtain ⟨s, hinv, -, hinitial, hmaxFrame, hspends⟩ := h
  exact ⟨hspends.inv hinv, hspends.grants.1.trans hinitial, hspends.grants.2.2.2.trans hmaxFrame⟩

theorem Agrees.accounted
    {ctx₁ : Http2Ctx} (h : Agrees ctx₁ l) (hsent : dataPayloads ctx₁.sent = dataPayloads ctx.sent)
    (hflows : Flows ctx₁ ctx') :
    Accounted ctx ctx' l :=
  ⟨flowState ctx₁ l, h.inv, hsent, h.initial, h.maxFrame, hflows.spends l⟩

theorem settings_outcome (hwf : StreamsWf ctx) (h : Agrees ctx l) (hopen : ctx.ioClosed = false)
    (htype : f.type = frameSettings) :
    Accounted ctx (frameResult (http2ProcessSettingsFrame ctx f.payload f.flags))
        (observeGrants ctx (.recvFrame f) l) ∨
      Silenced ctx (frameResult (http2ProcessSettingsFrame ctx f.payload f.flags)) := by
  have hdata := (http2ProcessSettingsFrame_regrants ctx f.payload
    f.flags).trans (frameResult_sendQuiet _).regrants
  by_cases hok : 0 ≤ (frameResult (http2ProcessSettingsFrame ctx f.payload f.flags)).status
  · refine .inl ?_
    obtain ⟨hsucc, heq⟩ := frameResult_ok hok
    rw [heq] at hdata ⊢
    simp only [observeGrants, hopen, Bool.false_eq_true, if_false, Ledger.receive, htype, true_and]
    unfold http2ProcessSettingsFrame at hsucc hdata ⊢
    by_cases hack : hasFlag f.flags flagAck = true
    · rw [if_pos hack] at hsucc ⊢
      split at hsucc
      · exact absurd hsucc (by simp [failConnection])
      next hempty =>
      have hsame : Accounted ctx ctx l := h.accounted rfl (.refl ctx)
      rw [if_neg hempty]
      simpa [hack, frameSettings, frameWindowUpdate] using hsame
    rw [if_neg hack] at hsucc hdata ⊢
    split at hsucc
    · exact absurd hsucc (by simp [failConnection])
    next hlen =>
    rw [if_neg hlen] at hdata ⊢
    split at hsucc
    · cases hsucc
    next ctx₁ heq₁ =>
    simp only [heq₁] at hdata ⊢
    have hagrees := applySettings_agrees hwf h heq₁
    have hchanges : Changes [.plain, .grant, .encoder] ctx ctx₁ :=
      ((applySettings_still (by simp) (by simp) _ (by simp) ctx).fst heq₁).changes
    have hsent := (hchanges.regrants rfl).dataPayloads
    simpa [hack] using hagrees.accounted hsent (settingsReceived_sendQuiet ctx₁).flows
  · exact .inr ⟨not_le.mp hok, hdata.dataPayloads⟩

theorem windowUpdate_outcome (hwf : StreamsWf ctx) (h : Agrees ctx l) (hopen : ctx.ioClosed = false)
    (htype : f.type = frameWindowUpdate) :
    Accounted ctx (frameResult (http2ProcessWindowUpdateFrame ctx f.streamId f.payload))
        (observeGrants ctx (.recvFrame f) l) ∨
      Silenced ctx (frameResult (http2ProcessWindowUpdateFrame ctx f.streamId f.payload)) := by
  have hresult := frameResult_sendQuiet (http2ProcessWindowUpdateFrame ctx f.streamId f.payload)
  have hrefused : ∀ ctx₁, Regrants ctx ctx₁ →
      http2ProcessWindowUpdateFrame ctx f.streamId f.payload = (ctx₁, false) →
      Silenced ctx (frameResult (http2ProcessWindowUpdateFrame ctx f.streamId f.payload)) := by
    intro ctx₁ hquiet heq
    rw [heq] at hresult ⊢
    refine ⟨?_, (hquiet.trans hresult.regrants).dataPayloads⟩
    by_contra hok
    cases (frameResult_ok (not_lt.mp hok)).1
  by_cases hlen : f.payload.length = 4
  · by_cases hzero : windowIncrement f.payload = 0
    · refine .inr ?_
      by_cases hid : f.streamId = 0
      · refine hrefused _ (failConnection_sendQuiet ctx rstProtocolError).regrants ?_
        simp [http2ProcessWindowUpdateFrame, hlen, hzero, hid, failConnection]
      · refine hrefused _ (failStream_sendQuiet ctx f.streamId rstProtocolError).regrants ?_
        simp [http2ProcessWindowUpdateFrame, hlen, hzero, hid, failStream]
    have hcredit := creditWindow_regrants ctx f.streamId (windowIncrement f.payload)
    cases hok : (creditWindow ctx f.streamId (windowIncrement f.payload)).2 with
    | false =>
      have heq : creditWindow ctx f.streamId (windowIncrement f.payload) =
          (_, false) := Prod.ext rfl hok
      refine .inr (hrefused _ hcredit ?_)
      unfold http2ProcessWindowUpdateFrame
      rw [if_neg (by simp [hlen]), if_neg hzero, heq]
    | true =>
      have heq : creditWindow ctx f.streamId (windowIncrement f.payload) =
          (_, true) := Prod.ext rfl hok
      have hagrees := creditWindow_agrees hwf h heq
      have hledger : observeGrants ctx (.recvFrame f) l =
          l.increment ctx f.streamId (windowIncrement f.payload) := by
        simp [observeGrants, hopen, Ledger.receive, htype, hlen, frameSettings, frameWindowUpdate]
      refine .inl ?_
      rw [hledger]
      refine hagrees.accounted hcredit.dataPayloads ?_
      unfold http2ProcessWindowUpdateFrame
      rw [if_neg (by simp [hlen]), if_neg hzero, heq]
      exact http2CtxFlushPendingSendBodies_flows _
  · refine .inr (hrefused _ (failConnection_sendQuiet ctx rstProtocolError).regrants ?_)
    simp [http2ProcessWindowUpdateFrame, hlen, failConnection]

theorem SendStep.outcome (hstep : SendStep ctx e ctx') (hwf : StreamsWf ctx) (h : Agrees ctx l) :
    Accounted ctx ctx' (observeGrants ctx e l) ∨ Silenced ctx ctx' := by
  cases hstep with
  | sends hflows he =>
    rw [he]
    exact .inl (h.accounted rfl hflows)
  | @opens _ ctx₁ _ hopens hquiet he =>
    have hfresh : (flowState ctx l).used ctx.nextPtr = false := by simp [flowState]
    have hinv := h.inv.openStream hfresh
    rw [← hopens.flow l] at hinv
    have hagrees : Agrees ctx₁ l :=
      ⟨hinv, (congrArg initial (hopens.flow l)).trans h.initial,
        (congrArg maxFrame (hopens.flow l)).trans h.maxFrame⟩
    rw [he]
    exact .inl (hagrees.accounted (congrArg sent (hopens.flow l)) hquiet.flows)
  | refused hquiet hneg => exact .inr ⟨hneg, hquiet.regrants.dataPayloads⟩
  | settings hopen htype => exact settings_outcome hwf h hopen htype
  | windowUpdate hopen htype => exact windowUpdate_outcome hwf h hopen htype

theorem http2ProcessWindowUpdateFrame_range
    (hwf : StreamsWf ctx) (h : InRange ctx) (streamId : Nat) (data : Bytes) :
    StreamsWf (http2ProcessWindowUpdateFrame ctx streamId data).1 ∧
      InRange (http2ProcessWindowUpdateFrame ctx streamId data).1 := by
  have hquiet : ∀ ctx', SendQuiet ctx ctx' → StreamsWf ctx' ∧ InRange ctx' :=
    fun ctx' hq => ⟨hq.flowQuiet.wf hwf, h.flows hq.flows⟩
  have hcredit := (creditWindow_regrants ctx streamId (windowIncrement data)).wf hwf
  have hrange := h.creditWindow streamId (windowIncrement data)
  unfold http2ProcessWindowUpdateFrame
  split
  · exact hquiet _ (failConnection_sendQuiet ctx _)
  split
  · split
    · exact hquiet _ (failConnection_sendQuiet ctx _)
    · exact hquiet _ (failStream_sendQuiet ctx _ _)
  split
  next heq =>
    rw [heq] at hcredit hrange
    exact ⟨hcredit, hrange⟩
  next heq =>
  rw [heq] at hcredit hrange
  have hflush := http2CtxFlushPendingSendBodies_flows
  exact ⟨(hflush _).wf hcredit, hrange.flows (hflush _)⟩

theorem SendStep.range (hstep : SendStep ctx e ctx') (hwf : StreamsWf ctx) (h : InRange ctx) :
    StreamsWf ctx' ∧ InRange ctx' := by
  have hresult := fun r => frameResult_sendQuiet r
  cases hstep with
  | sends hflows _ => exact ⟨hflows.wf hwf, h.flows hflows⟩
  | opens hopens hquiet _ =>
    exact ⟨hquiet.flowQuiet.wf (hopens.wf hwf), (h.opens hopens).flows hquiet.flows⟩
  | refused hquiet _ => exact ⟨hquiet.flowQuiet.wf hwf, h.flows hquiet.flows⟩
  | @settings f _ _ =>
    exact ⟨(hresult _).flowQuiet.wf ((http2ProcessSettingsFrame_regrants ctx _ _).wf hwf),
      (h.settingsFrame f.payload f.flags).flows (hresult _).flows⟩
  | @windowUpdate f _ _ =>
    obtain ⟨hwf', hrange⟩ :=
      http2ProcessWindowUpdateFrame_range hwf h f.streamId f.payload
    exact ⟨(hresult _).flowQuiet.wf hwf', hrange.flows (hresult _).flows⟩

/-! ### Whole runs -/

structure SendInv (ctx : Http2Ctx) (l : Ledger) : Prop where
  wf : StreamsWf ctx
  range : InRange ctx
  payload_le : payload (dataPayloads ctx.sent) ≤ l.conn
  agrees : 0 ≤ ctx.status → Agrees ctx l

theorem SendInv.outcome (h : SendInv ctx l) (e : Event) :
    Accounted ctx (step ctx e) (observeGrants ctx e l) ∨ Silenced ctx (step ctx e) := by
  by_cases hok : 0 ≤ ctx.status
  · exact (step_sendStep ctx e).outcome h.wf (h.agrees hok)
  have hkept := step_kept ctx e
  refine .inr ⟨hkept.io.status_neg (not_le.mp hok), ?_⟩
  rw [hkept.silent (not_le.mp hok)]

theorem SendInv.step (h : SendInv ctx l) (e : Event) :
    SendInv (step ctx e) (observeGrants ctx e l) := by
  obtain ⟨hwf, hrange⟩ := (step_sendStep ctx e).range h.wf h.range
  rcases h.outcome e with haccounted | hsilenced
  · have hagrees := haccounted.agrees
    exact ⟨hwf, hrange, hagrees.inv.payload_le, fun _ => hagrees⟩
  refine ⟨hwf, hrange, ?_, fun hok => absurd hok (not_le.mpr hsilenced.1)⟩
  rw [hsilenced.2]
  exact h.payload_le.trans (l.conn_le_observe ctx e)

theorem http2CtxNew_sendInv (isClient : Bool) (server : CStr) (maxConcurrentStreams : Int)
    (bio : List BioWrite) :
    SendInv (http2CtxNew isClient server maxConcurrentStreams bio) {} := by
  have hquiet : SendQuiet (http2CtxInitCommon isClient server maxConcurrentStreams bio)
        (http2CtxNew isClient server maxConcurrentStreams bio) := by
    unfold http2CtxNew
    split
    · exact (sendRecorded_sendQuiet _ _ rfl).trans (sendRecorded_sendQuiet _ _ rfl)
    · exact sendRecorded_sendQuiet _ _ rfl
  have hrange : InRange (http2CtxInitCommon isClient server maxConcurrentStreams bio) := by
    refine ⟨?_, ?_, ?_, ?_, fun _ => ?_, fun _ => ?_⟩
    all_goals simp [flowState, http2CtxInitCommon, defaultWindowSize, intMax]
  have hwf : StreamsWf (http2CtxInitCommon isClient server maxConcurrentStreams bio) := by
    refine ⟨.nil, .nil, fun p => ?_, ?_, ?_⟩
    all_goals simp [http2CtxInitCommon]
  have hagrees : Agrees (http2CtxInitCommon isClient server maxConcurrentStreams bio) {} := by
    refine ⟨?_, rfl, rfl⟩
    refine ⟨?_, ?_, ?_, ?_, ?_, ?_, ?_, ?_, ?_⟩
    all_goals simp [flowState, http2CtxInitCommon, defaultWindowSize, intMax,
        dataPayloads, dataFrames, payload, spent]
  refine ⟨hquiet.flowQuiet.wf hwf, hrange.flows hquiet.flows, ?_, fun _ => hagrees.sendQuiet hquiet⟩
  exact (hagrees.sendQuiet hquiet).inv.payload_le

def sentOn (ctx : Http2Ctx) (p : StreamPtr) : Nat :=
  payloadOf p (dataPayloads ctx.sent)

def sentTotal (ctx : Http2Ctx) : Nat :=
  payload (dataPayloads ctx.sent)

/-- What send flow control promises about one event that leads from `ctx` to
`ctx'`, where `l` is the account after the event. -/
structure WithinGrants (ctx ctx' : Http2Ctx) (l : Ledger) : Prop where
  /-- A stream on which something was sent is within what it was granted. -/
  stream : ∀ p, sentOn ctx' p = sentOn ctx p ∨ sentOn ctx' p ≤ l.granted p
  conn : sentTotal ctx' ≤ l.conn
  frame :
    ∃ frames, dataPayloads ctx'.sent = dataPayloads ctx.sent ++ frames ∧
      ∀ f ∈ frames, f.2 ≤ l.maxFrame
  conn_range :
    0 ≤ ctx'.sendConnWindowSize ∧ ctx'.sendConnWindowSize ≤ intMax
  initial_range :
    0 ≤ ctx'.sendInitialWindowSize ∧ ctx'.sendInitialWindowSize ≤ intMax
  window_range : ∀ p,
    intMin ≤ (ctx'.heap p).sendWindowSize ∧
      (ctx'.heap p).sendWindowSize ≤ intMax
  healthy_range : 0 ≤ ctx'.status → ∀ p,
    intMin + 1 ≤ (ctx'.heap p).sendWindowSize

theorem SendInv.withinGrants (h : SendInv ctx l) (e : Event) :
    WithinGrants ctx (Http2.step ctx e) (observeGrants ctx e l) := by
  have hstep := h.step e
  refine
    { stream := ?_
      conn := hstep.payload_le
      frame := ?_
      conn_range := ⟨hstep.range.conn_nonneg, hstep.range.conn_le⟩
      initial_range := ⟨hstep.range.initial_nonneg, hstep.range.initial_le⟩
      window_range := fun p =>
        ⟨hstep.range.window_ge p, hstep.range.window_le p⟩
      healthy_range := fun hok p => (hstep.agrees hok).inv.floor p }
  · intro p
    rcases h.outcome e with ⟨s, hinv, hsent, hinitial, _, hspends⟩ | hsilenced
    · have hle := hspends.spent_le_granted hinv p
      have hgrants := hspends.grants
      simp only [spent, granted, hsent, hgrants.1, hinitial] at hle
      exact hle
    · exact .inl (by rw [sentOn, hsilenced.2, sentOn])
  · rcases h.outcome e with ⟨s, _, hsent, _, hmaxFrame, hspends⟩ | hsilenced
    · obtain ⟨frames, hframes, hle⟩ := hspends.frames
      rw [hsent] at hframes
      exact ⟨frames, hframes, hmaxFrame ▸ hle⟩
    · exact ⟨[], by simp [hsilenced.2], by simp⟩

/--
**Send flow control.**  In every run of a connection and for every next event,
whatever is sent stays within the windows and the frame size that the peer has
granted by then.  No send window leaves the range of an `int`, and none reaches
`INT_MIN` while the status is not an error.
-/
theorem run_withinGrants (isClient : Bool) (server : CStr) (maxConcurrentStreams : Int)
    (bio : List BioWrite) (events : List Event) (e : Event) :
    WithinGrants (run step (http2CtxNew isClient server maxConcurrentStreams bio) events) (step
        (run step (http2CtxNew isClient server maxConcurrentStreams bio) events) e)
      (observeGrants (run step (http2CtxNew isClient server maxConcurrentStreams bio) events) e
        (observed step observeGrants (http2CtxNew isClient server maxConcurrentStreams bio) {}
          events)) := by
  have hinv := observed_invariant step observeGrants SendInv (fun ctx l e h _ => h.step e)
    (http2CtxNew_sendInv isClient server maxConcurrentStreams bio)
    (admissible_true step _ events)
  exact hinv.withinGrants e

/-- Initial window 0, then the largest value, then 0 again. -/
def zeroMaxZeroSettings : Frame :=
  ⟨frameSettings, 0, 0, [0, 4, 0, 0, 0, 0, 0, 4, 0x7f, 0xff, 0xff, 0xff, 0, 4, 0, 0, 0, 0]⟩

/--
A client with two streams, one of which has sent a byte while the other was
granted one.  The SETTINGS frame fails at the second stream; since it is not
taken out of the read buffer, the next call processes it again.
-/
def floorRun : List Event :=
  [.streamNew, .streamNew, .writeBody 0 [0] false,
    .recvFrame ⟨frameWindowUpdate, 0, 3, [0, 0, 0, 1]⟩,
    .recvFrame zeroMaxZeroSettings, .recvFrame zeroMaxZeroSettings]

/-- A window of a failed connection reaches `INT_MIN`. -/
theorem window_reaches_intMin :
    ((run step blockedClient floorRun).heap 0).sendWindowSize = -2 ^ 31 := by
  decide +kernel

end SmartDns.Http2
