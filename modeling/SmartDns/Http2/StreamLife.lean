import SmartDns.Http2.Quiet
import SmartDns.Http2.StreamIds

/-!
# What no event takes back

A stream only goes on in its life, and a connection that has failed stays silent.
-/

namespace SmartDns.Http2

variable {ctx : Http2Ctx} {p : StreamPtr}

/-- How far a stream has come. -/
@[simp] def StreamState.rank : StreamState → Nat
  | .idle => 0
  | .opened => 1
  | .halfClosedLocal | .halfClosedRemote => 2
  | .closed => 3

/-- The same stream, as far as before or further. -/
structure Onward (v v' : StreamView) : Prop where
  streamId : v'.streamId = v.streamId
  state : v.state = v'.state ∨ v.state.rank < v'.state.rank
  received : v.endStreamReceived → v'.endStreamReceived
  sent : v.endStreamSent → v'.endStreamSent

theorem Onward.trans {u v w : StreamView} (h : Onward u v) (h' : Onward v w) : Onward u w := by
  refine ⟨h'.streamId.trans h.streamId, ?_, h'.received ∘ h.received, h'.sent ∘ h.sent⟩
  rcases h.state with hs | hs
  · exact hs ▸ h'.state
  · exact .inr (h'.state.elim (· ▸ hs) hs.trans)

theorem StreamView.opened_onward (v : StreamView) : Onward v v.opened := by
  refine ⟨rfl, ?_, id, id⟩
  cases h : v.state <;> simp [opened, h]

theorem StreamEdit.apply_onward (e : StreamEdit) (v : StreamView) : Onward v (e.apply v) := by
  have hclosed : v.state = .closed ∨ v.state.rank < 3 := by
    cases v.state <;> simp
  cases e with
  | close => exact ⟨rfl, hclosed, id, id⟩
  | reset => exact ⟨rfl, hclosed, fun _ => rfl, id⟩
  | request => exact ⟨rfl, v.opened_onward.state, id, fun h => by simp [apply, h]⟩
  | headers endStream =>
    cases endStream with
    | false => exact v.opened_onward
    | true =>
      refine v.opened_onward.trans ⟨rfl, ?_, fun _ => rfl, id⟩
      cases h : v.opened.state <;> simp [apply, StreamView.headersEnd, h]
  | data payload endStream =>
    cases endStream with
    | false => exact ⟨rfl, .inl rfl, id, id⟩
    | true =>
      refine ⟨rfl, ?_, fun _ => rfl, id⟩
      cases h : v.state <;> simp [apply, StreamView.dataEnd, h]
  | endSent =>
    -- the end of a stream is sent once
    by_cases hs : v.endStreamSent
    · simpa [apply, StreamView.endSent, hs] using ⟨rfl, .inl rfl, id, id⟩
    · refine ⟨apply_streamId _ v, ?_, ?_, fun h => absurd h hs⟩
      all_goals cases h : v.state <;> simp [apply, StreamView.endSent, hs, h]
  | _ => exact ⟨rfl, .inl rfl, id, id⟩

theorem step_onward (hp : p < ctx.nextPtr) (e : Event) :
    p < (step ctx e).nextPtr ∧ Onward (ctx.heap p).view ((step ctx e).heap p).view := by
  obtain ⟨ops, hok, hrun⟩ := step_performs ctx e
  change p < (step ctx e).table.nextPtr ∧ Onward _ ((step ctx e).table.view p)
  rw [← hrun]
  refine run_invariant _ (fun t => p < t.nextPtr ∧ Onward (ctx.table.view p) (t.view p)) ?_
    ⟨hp, rfl, .inl rfl, id, id⟩ hok
  rintro t op ⟨hlt, h⟩ -
  cases op with
  | create streamId =>
    have hview : (t.create streamId).view p = t.view p := if_neg hlt.ne
    exact ⟨hlt.trans (Nat.lt_succ_self _), hview ▸ h⟩
  | edit q edit =>
    refine ⟨hlt, ?_⟩
    by_cases hq : p = q
    · rw [hq, StreamTable.apply, StreamTable.edit, StreamTable.setView_view_self, ← hq]
      exact h.trans (edit.apply_onward _)
    · have hview : (t.edit q edit).view p = t.view p := if_neg hq
      exact hview ▸ h
  | _ => exact ⟨hlt, h⟩

/-- **Streams only move onward.**  Whatever happens on a connection, a stream keeps its
identifier and goes from idle over open and half-closed to closed, never back and never from
one half to the other, and an end of stream that was sent or received stays so. -/
theorem streams_move_onward (hp : p < ctx.nextPtr) (events : List Event) :
    Onward (ctx.heap p).view ((run step ctx events).heap p).view := by
  refine (run_invariant step (fun ctx' => p < ctx'.nextPtr ∧ Onward _ (ctx'.heap p).view) ?_
    ⟨hp, rfl, .inl rfl, id, id⟩ (admissible_true step ctx events)).2
  intro ctx' e h _
  have hstep := step_onward h.1 e
  exact ⟨hstep.1, h.2.trans hstep.2⟩

theorem streams_move_onward_closed :
    ((run step (run step blockedClient [.streamNew, .close 0]) [.writeBody 0 [1] true]).heap
      0).view.streamId = 1 :=
  (streams_move_onward (by decide) [.writeBody 0 [1] true]).streamId.trans (by decide)

/-- **A failed connection stays silent.**  Once its status is an error no event makes it
good again, and none sends a frame. -/
theorem failed_connection_silent (hfailed : ctx.status < 0) (events : List Event) :
    (run step ctx events).status < 0 ∧ (run step ctx events).sent = ctx.sent := by
  refine run_invariant step (fun ctx' => ctx'.status < 0 ∧ ctx'.sent = ctx.sent) ?_ ⟨hfailed, rfl⟩
    (admissible_true step ctx events)
  rintro ctx' e ⟨hneg, hsent⟩ -
  have hkept := step_kept ctx' e
  exact ⟨hkept.io.status_neg hneg, (hkept.silent hneg).trans hsent⟩

theorem failed_connection_silent_new :
    (run step (blockedClient.setStatus errProtocol) [.streamNew]).status < 0 :=
  (failed_connection_silent (by decide) [.streamNew]).1

end SmartDns.Http2
