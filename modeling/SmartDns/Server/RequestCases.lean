import SmartDns.Lib.Stacks
import SmartDns.Server.Requests

/-!
# What one step of a thread can do

`exec` as a relation, with one rule for each way through a call.  The rules name
what the code has found out on the way; every invariant of the requests is then a
case analysis over them.
-/

namespace SmartDns.Server

section

variable (s : Shared)

/-- The state behind joining the list of another request. -/
def Shared.join (r : Nat) (l : PendingList) : Shared :=
  { (s.get r).modify r (fun q =>
      { q with stage := .waits, joined := some l.leader, waiting := true }) with
    pending := s.pending.map (fun l' =>
      if l'.leader = l.leader then { l' with requests := l'.requests ++ [r] } else l') }

def Shared.lead (r key : Nat) : Shared :=
  { s with pending := s.pending ++ [⟨key, r, []⟩] }

/-- The state behind taking the list of a request. -/
def Shared.take (r : Nat) : Shared :=
  { s with pending := s.pending.filter (fun l' => l'.leader ≠ r) }

/-- The state with a child of a `CNAME` rule. -/
def Shared.chain (r : Nat) (key : Option Nat) : Shared :=
  ((s.create { s.subRequest r key with parentRequest := some r, childCallback := .cname }).get
    r).modify r (fun q => { q with stage := .chained })

/-- The state with a child for DNS64. -/
def Shared.synthesize (r : Nat) (key : Option Nat) : Shared :=
  (s.create { s.subRequest r key with parentRequest := some r, childCallback := .dns64 }).get r

/-- The state with a query for the other address family. -/
def Shared.pair (r : Nat) (key : Option Nat) : Shared :=
  ((s.get r).get r).create { s.subRequest r key with dualstackQuery := true }

/-- The state in which a plugin has been called and has taken references. -/
def Shared.plugged (r held : Nat) : Shared :=
  s.modify r (fun q =>
    { q with refcnt := q.refcnt + 1 + held, pluginCompleteCalled := q.pluginCompleteCalled + 1 })

/-- A callback sets `passthrough`. -/
def Shared.mark (r : Nat) (value : Bool) : Shared :=
  s.modify r (fun q => { q with passthrough := value })

/-- The parent pointer of a request is cleared. -/
def Shared.orphan (r : Nat) : Shared :=
  s.modify r (fun q => { q with parentRequest := none })

/-- The pending list gives its reference up. -/
def Shared.unwait (r : Nat) : Shared :=
  s.modify r (fun q => { q with waiting := false })

def Shared.freeRequest (r : Nat) : Shared :=
  s.modify r (fun q => { q with freed := true })

/-- The calls that may return without having done anything. -/
def Frame.Returns : Frame → Prop
  | .doQuery _ => True
  | .processCname _ => True
  | .processDns64 _ => True
  | .complete r => (s.requests r).prefetch = true
  | .post _ _ => True
  | .childPost _ _ => True
  | .leaveParent _ _ dropped => dropped = false
  | .postReply _ context => context.doReply = false
  | .passReply _ doReply => doReply = false
  | .replyAll r _ => s.listOf r = none
  | .serve _ waiters _ => waiters = []
  | _ => False

end

/-- The calls that leave the state alone and go on with another one. -/
inductive GoesOn (s : Shared) : Frame → Frame → Prop
  | created (r : Nat) (doComplete doComplete' : Bool) :
      GoesOn s (.created r doComplete) (.release r doComplete')
  | forward (r : Nat) : GoesOn s (.doQuery r) (.setToPendingList r)
  | unlisted (r : Nat) : GoesOn s (.setToPendingList r) (.processCname r)
  | noCname (r : Nat) : GoesOn s (.processCname r) (.processDns64 r)
  | noDns64 (r : Nat) : GoesOn s (.processDns64 r) (.clientQuery r)
  | afterCname (child : Nat) (doComplete : Bool) :
      GoesOn s (.afterCname child) (.release child doComplete)
  | noAnswer (child r : Nat) : GoesOn s (.afterDns64 child r) (.release child true)
  | finish (r : Nat) : GoesOn s (.callback r) (.release r true)
  | unplug (r : Nat) : GoesOn s (.plugin r) (.release r true)
  | noParent (r : Nat) (hparent : (s.requests r).parentRequest = none) :
      GoesOn s (.closing r .parent) (.closing r .plugin)
  | answered (r : Nat) (hlate : (s.requests r).notified ≠ 0) :
      GoesOn s (.closing r .delete) (.closing r .free)

/-- The calls that count in `notified`. -/
inductive Frame.Counts (r : Nat) : Frame → Prop
  | complete : Frame.Counts r (.complete r)
  | passthrough (doReply : Bool) : Frame.Counts r (.passthrough r doReply)
  | postReply (context : PostContext) : Frame.Counts r (.postReply r context)

/-- The ways through a call: the frame on top, and what it does. -/
inductive Exec (s : Shared) (ret : Bool) : Frame → Effect → Prop
  | idle (f : Frame) : Exec s ret f ⟨s, [f], ret, []⟩
  | returns (f : Frame) (ret' : Bool) (hf : f.Returns s) : Exec s ret f ⟨s, [], ret', []⟩
  | goesOn (f g : Frame) (ret' : Bool) (hf : GoesOn s f g) : Exec s ret f ⟨s, [g], ret', []⟩
  | late (f : Frame) (r : Nat) (hf : f.Counts r) (hlate : (s.requests r).notified ≠ 0) :
      Exec s ret f ⟨s.notify r, [], ret, []⟩
  | queryRule (r : Nat) :
      Exec s ret (.doQuery r) ⟨s, [.post r replyContext], true, []⟩
  | queryCached (r : Nat) :
      Exec s ret (.doQuery r) ⟨s, [.passthrough r true], true, []⟩
  | pendingJoin (r key : Nat) (l : PendingList) (hlist : s.listFor key = some l) :
      Exec s ret (.setToPendingList r) ⟨s.join r l, [], true, []⟩
  | pendingLead (r key : Nat) (hlist : s.listFor key = none) :
      Exec s ret (.setToPendingList r) ⟨s.lead r key, [.processCname r], true, []⟩
  | cnameLoop (r : Nat) (key : Option Nat) :
      Exec s ret (.processCname r)
        ⟨s.create (s.subRequest r key), [.release s.next true, .processDns64 r], true, []⟩
  | cnameChild (r : Nat) (key : Option Nat) :
      Exec s ret (.processCname r)
        ⟨s.chain r key, [.doQuery s.next, .afterCname s.next], true, []⟩
  | dns64Ipv4only (r : Nat) :
      Exec s ret (.processDns64 r) ⟨s, [.post r replyContext, .replyAll r true], true, []⟩
  | dns64Child (r : Nat) (key : Option Nat) :
      Exec s ret (.processDns64 r)
        ⟨s.synthesize r key, [.doQuery s.next, .afterDns64 s.next r], true, []⟩
  | afterDns64 (child r : Nat) :
      Exec s ret (.afterDns64 child r) ⟨s, [.release child false, .clientQuery r], true, []⟩
  | querySent (r : Nat) :
      Exec s ret (.clientQuery r) ⟨s.get r, [], true, [⟨[.callback r], true⟩]⟩
  | queryPair (r : Nat) (key : Option Nat) :
      Exec s ret (.clientQuery r)
        ⟨s.pair r key, [], true,
          [⟨[.callback r], true⟩, ⟨[.callback r], true⟩,
            ⟨[.doQuery s.next, .created s.next true], true⟩]⟩
  | queryUnsent (r : Nat) :
      Exec s ret (.clientQuery r) ⟨s.get r, [.release r true], true, []⟩
  | callComplete (r : Nat) :
      Exec s ret (.callback r) ⟨s, [.complete r, .callback r], ret, []⟩
  | callPassthrough (r : Nat) :
      Exec s ret (.callback r) ⟨s, [.passthrough r true, .callback r], ret, []⟩
  | callSet (r : Nat) (value : Bool) :
      Exec s ret (.callback r) ⟨s.mark r value, [.callback r], ret, []⟩
  | callPing (r : Nat) :
      Exec s ret (.callback r) ⟨s.get r, [.callback r], ret, [⟨[.callback r], true⟩]⟩
  | completeFirst (r : Nat) (hprefetch : (s.requests r).prefetch = false)
      (hfirst : (s.requests r).notified = 0) :
      Exec s ret (.complete r)
        ⟨s.notify r, [.post r completeContext, .replyAll r true], ret, []⟩
  | passFirst (r : Nat) (doReply : Bool) (hfirst : (s.requests r).notified = 0) :
      Exec s ret (.passthrough r doReply)
        ⟨s.notify r,
          [.childPost r ⟨doReply, false, false⟩, .passReply r doReply, .replyAll r doReply],
          ret, []⟩
  | post (r : Nat) (context : PostContext) :
      Exec s ret (.post r context) ⟨s, [.childPost r context, .postReply r context], ret, []⟩
  | childPostCname (r parent : Nat) (context : PostContext)
      (hparent : (s.requests r).parentRequest = some parent)
      (hcname : (s.requests r).childCallback = .cname) (hreply : context.doReply = true) :
      Exec s ret (.childPost r context)
        ⟨s, [.post parent context, .replyAll parent true,
          .leaveParent r parent (!context.noReleaseParent)], ret, []⟩
  | childPostOther (r parent : Nat) (context : PostContext)
      (hparent : (s.requests r).parentRequest = some parent) :
      Exec s ret (.childPost r context)
        ⟨s, [.leaveParent r parent (!context.noReleaseParent)], ret, []⟩
  | leaveParent (r parent : Nat) :
      Exec s ret (.leaveParent r parent true) ⟨s.orphan r, [.release parent true], ret, []⟩
  | postReplyCounted (r : Nat) (context : PostContext) (hreply : context.doReply = true)
      (hskip : context.skipNotifyCount = true) :
      Exec s ret (.postReply r context) ⟨s.reply r, [], ret, []⟩
  | postReplyFirst (r : Nat) (context : PostContext) (hskip : context.skipNotifyCount = false)
      (hfirst : (s.requests r).notified = 0) :
      Exec s ret (.postReply r context) ⟨(s.notify r).reply r, [], ret, []⟩
  | passReply (r : Nat) :
      Exec s ret (.passReply r true) ⟨s.reply r, [], ret, []⟩
  | replyAll (r : Nat) (doReply : Bool) (l : PendingList) (hlist : s.listOf r = some l) :
      Exec s ret (.replyAll r doReply) ⟨s.take r, [.serve r l.requests doReply], ret, []⟩
  | serve (leader w : Nat) (waiters : List Nat) (doReply : Bool) :
      Exec s ret (.serve leader (w :: waiters) doReply)
        ⟨s, [.passthrough w doReply, .dropWaiter leader w, .serve leader waiters doReply], ret, []⟩
  | dropWaiter (leader r : Nat) (hrest : (s.requests r).refcnt ≠ 1) :
      Exec s ret (.dropWaiter leader r) ⟨(s.unwait r).put r, [], ret, []⟩
  | dropWaiterLast (leader r : Nat) (hlast : (s.requests r).refcnt = 1) :
      Exec s ret (.dropWaiter leader r) ⟨(s.unwait r).put r, [.closing r .parent], ret, []⟩
  | release (r : Nat) (doComplete : Bool) (hrest : (s.requests r).refcnt ≠ 1) :
      Exec s ret (.release r doComplete) ⟨s.put r, [], ret, []⟩
  | releaseComplete (r : Nat) (hlast : (s.requests r).refcnt = 1) :
      Exec s ret (.release r true) ⟨s.put r, [.closing r .complete], ret, []⟩
  | releaseLast (r : Nat) (doComplete : Bool) (hlast : (s.requests r).refcnt = 1)
      (hcalled : doComplete = false ∨ (s.requests r).pluginCompleteCalled ≠ 0) :
      Exec s ret (.release r doComplete) ⟨s.put r, [.closing r .parent], ret, []⟩
  | closingSkip (r : Nat) (hlate : (s.requests r).notified ≠ 0) :
      Exec s ret (.closing r .complete) ⟨s.notify r, [.closing r .parent], ret, []⟩
  | closingPost (r : Nat) (first : Bool) (hfirst : first = true ↔ (s.requests r).notified = 0) :
      Exec s ret (.closing r .complete)
        ⟨s.notify r, [.post r ⟨first, true, false⟩, .replyAll r first, .closing r .parent],
          ret, []⟩
  | closingParent (r parent : Nat) (hparent : (s.requests r).parentRequest = some parent) :
      Exec s ret (.closing r .parent)
        ⟨s.orphan r, [.release parent true, .closing r .plugin], ret, []⟩
  | closingPlugin (r held : Nat) :
      Exec s ret (.closing r .plugin)
        ⟨s.plugged r held, [.pluginDone r], ret, List.replicate held ⟨[.plugin r], true⟩⟩
  | closingComplete (r : Nat) (hfirst : (s.requests r).notified = 0) :
      Exec s ret (.closing r .delete) ⟨s, [.complete r, .closing r .free], ret, []⟩
  | closingFree (r : Nat) :
      Exec s ret (.closing r .free) ⟨s.freeRequest r, [], ret, []⟩
  | pluginKeeps (r : Nat) (hrest : 1 < (s.requests r).refcnt) :
      Exec s ret (.pluginDone r) ⟨s.put r, [], ret, []⟩
  | pluginDone (r : Nat) (hlast : (s.requests r).refcnt ≤ 1) :
      Exec s ret (.pluginDone r) ⟨s.put r, [.closing r .delete], ret, []⟩

/-! ## The rules cover the code -/

section Covers

variable (s : Shared)
variable (choice : Choice)
variable (ret : Bool)

section

variable (r : Nat)

theorem exec_doQuery : Exec s ret (.doQuery r) (execDoQuery s choice r) := by
  simp only [execDoQuery]
  split
  · exact .returns _ false trivial
  · exact .queryRule r
  · split
    · exact .goesOn _ _ true (.forward r)
    · exact .queryCached r
  · exact .goesOn _ _ true (.forward r)

theorem exec_setToPendingList : Exec s ret (.setToPendingList r) (execSetToPendingList s r) := by
  simp only [execSetToPendingList]
  split
  · exact .goesOn _ _ true (.unlisted r)
  split
  next l hlist => exact .pendingJoin r _ l hlist
  next hlist => exact .pendingLead r _ hlist

theorem exec_processCname : Exec s ret (.processCname r) (execProcessCname s choice r) := by
  simp only [execProcessCname]
  split
  · exact .goesOn _ _ true (.noCname r)
  · exact .returns _ true trivial
  · exact .cnameLoop r _
  · exact .cnameChild r _

theorem exec_processDns64 : Exec s ret (.processDns64 r) (execProcessDns64 s choice r) := by
  simp only [execProcessDns64]
  split
  · exact .goesOn _ _ true (.noDns64 r)
  · exact .dns64Ipv4only r
  · exact .returns _ false trivial
  · exact .dns64Child r _

theorem exec_clientQuery : Exec s ret (.clientQuery r) (execClientQuery s choice r) := by
  simp only [execClientQuery]
  split
  · split
    · exact .querySent r
    · exact .queryPair r _
  · exact .queryUnsent r

theorem exec_complete : Exec s ret (.complete r) (execComplete s ret r) := by
  simp only [execComplete]
  split
  next hprefetch => exact .returns _ ret hprefetch
  rename_i hprefetch
  split
  next hfirst => exact .completeFirst r (by simpa using hprefetch) hfirst
  next hlate => exact .late _ r .complete hlate

theorem exec_passthrough (doReply : Bool) :
    Exec s ret (.passthrough r doReply) (execPassthrough s ret r doReply) := by
  simp only [execPassthrough]
  split
  next hfirst => exact .passFirst r doReply hfirst
  next hlate => exact .late _ r (.passthrough doReply) hlate

theorem exec_childPost (context : PostContext) :
    Exec s ret (.childPost r context) (execChildPost s ret r context) := by
  simp only [execChildPost]
  split
  · exact .returns _ ret trivial
  rename_i parent hparent
  split
  next hcname =>
    rw [Bool.and_eq_true, decide_eq_true_eq] at hcname
    exact .childPostCname r parent context hparent hcname.2 hcname.1
  · exact .childPostOther r parent context hparent

end

theorem exec_postReply (r : Nat) (context : PostContext) :
    Exec s ret (.postReply r context) (execPostReply s ret r context) := by
  simp only [execPostReply]
  split
  next hreply =>
    split
    next hskip => exact .postReplyCounted r context hreply hskip
    rename_i hskip
    split
    next hfirst => exact .postReplyFirst r context (by simpa using hskip) hfirst
    next hlate => exact .late _ r (.postReply context) hlate
  next hreply => exact .returns _ ret (Bool.eq_false_iff.mpr hreply)

theorem exec_dropWaiter (leader r : Nat) :
    Exec s ret (.dropWaiter leader r) (dropRef (s.unwait r) ret r false) := by
  by_cases hlast : (s.requests r).refcnt = 1
  · have heffect : dropRef (s.unwait r) ret r false =
        ⟨(s.unwait r).put r, [.closing r .parent], ret, []⟩ := by
      simp [dropRef, Shared.put, Shared.unwait, Shared.modify, hlast]
    rw [heffect]
    exact .dropWaiterLast leader r hlast
  have heffect : dropRef (s.unwait r) ret r false = ⟨(s.unwait r).put r, [], ret, []⟩ := by
    have hrest : (s.requests r).refcnt - 1 ≠ 0 := by omega
    simp [dropRef, Shared.put, Shared.unwait, Shared.modify, hrest]
  rw [heffect]
  exact .dropWaiter leader r hlast

theorem exec_release (r : Nat) (doComplete : Bool) :
    Exec s ret (.release r doComplete) (dropRef s ret r doComplete) := by
  by_cases hlast : (s.requests r).refcnt = 1
  · by_cases hcomplete : doComplete = true ∧ (s.requests r).pluginCompleteCalled = 0
    · have heffect : dropRef s ret r doComplete = ⟨s.put r, [.closing r .complete], ret, []⟩ := by
        simp [dropRef, Shared.put, Shared.modify, hlast, hcomplete]
      rw [heffect, hcomplete.1]
      exact .releaseComplete r hlast
    have heffect : dropRef s ret r doComplete = ⟨s.put r, [.closing r .parent], ret, []⟩ := by
      simp [dropRef, Shared.put, Shared.modify, hlast, hcomplete]
    have hcalled : doComplete = false ∨ (s.requests r).pluginCompleteCalled ≠ 0 := by
      rwa [not_and_or, Bool.not_eq_true] at hcomplete
    rw [heffect]
    exact .releaseLast r doComplete hlast hcalled
  · have heffect : dropRef s ret r doComplete = ⟨s.put r, [], ret, []⟩ := by
      have hrest : (s.requests r).refcnt - 1 ≠ 0 := by omega
      simp [dropRef, Shared.put, Shared.modify, hrest]
    rw [heffect]
    exact .release r doComplete hlast

theorem exec_closing (r : Nat) (part : Closing) :
    Exec s ret (.closing r part) (execClosing s choice ret r part) := by
  cases part with
  | complete =>
    simp only [execClosing]
    split
    next hlate =>
      rw [Bool.and_eq_true, Bool.not_eq_true', decide_eq_false_iff_not] at hlate
      exact .closingSkip r hlate.2
    · exact .closingPost r _ decide_eq_true_iff
  | parent =>
    simp only [execClosing]
    split
    next hparent => exact .goesOn _ _ ret (.noParent r hparent)
    next parent hparent => exact .closingParent r parent hparent
  | plugin => exact .closingPlugin r _
  | delete =>
    simp only [execClosing]
    split
    next hfirst => exact .closingComplete r hfirst
    next hlate => exact .goesOn _ _ ret (.answered r hlate)
  | free => exact .closingFree r

theorem exec_rule (f : Frame) : Exec s ret f (exec s choice ret f) := by
  cases f with
  | created r doComplete => exact .goesOn _ _ ret (.created r doComplete _)
  | doQuery r => exact exec_doQuery s choice ret r
  | setToPendingList r => exact exec_setToPendingList s ret r
  | processCname r => exact exec_processCname s choice ret r
  | afterCname child => exact .goesOn _ _ true (.afterCname child _)
  | processDns64 r => exact exec_processDns64 s choice ret r
  | afterDns64 child r =>
    cases ret with
    | true => exact .afterDns64 child r
    | false => exact .goesOn _ _ false (.noAnswer child r)
  | clientQuery r => exact exec_clientQuery s choice ret r
  | callback r => exact .idle _
  | plugin r => exact .idle _
  | complete r => exact exec_complete s ret r
  | passthrough r doReply => exact exec_passthrough s ret r doReply
  | post r context =>
    simp only [exec]
    split
    · exact .post r context
    · exact .returns _ ret trivial
  | childPost r context => exact exec_childPost s ret r context
  | leaveParent r parent release =>
    cases release with
    | true => exact .leaveParent r parent
    | false => exact .returns _ ret rfl
  | postReply r context => exact exec_postReply s ret r context
  | passReply r doReply =>
    cases doReply with
    | true => exact .passReply r
    | false => exact .returns _ ret rfl
  | replyAll r doReply =>
    simp only [exec, execReplyAll]
    split
    next hlist => exact .returns _ ret hlist
    next l hlist => exact .replyAll r doReply l hlist
  | serve leader waiters doReply =>
    cases waiters with
    | nil => exact .returns _ ret rfl
    | cons w waiters => exact .serve leader w waiters doReply
  | dropWaiter leader r => exact exec_dropWaiter s ret leader r
  | release r doComplete => exact exec_release s ret r doComplete
  | closing r part => exact exec_closing s choice ret r part
  | pluginDone r =>
    have hrefcnt : ((s.put r).requests r).refcnt = (s.requests r).refcnt - 1 := by
      simp [Shared.put, Shared.modify]
    simp only [exec]
    split
    · exact .pluginKeeps r (by omega)
    · exact .pluginDone r (by omega)

end Covers

/-! ## Steps of the system -/

namespace RequestSystem

/-- The stacks of the threads. -/
def frames (s : RequestSystem) : List (List Frame) :=
  s.threads.map Thread.stack

/-- The frame that an event runs. -/
def top (s : RequestSystem) : RequestEvent → Option Frame
  | .start _ _ _ => none
  | .run t _ | .call t _ | .unplug t => s.threads[t]?.bind (fun thread => thread.stack.head?)

def apply (s : RequestSystem) (t : Nat) (rest : List Frame) (effect : Effect) : RequestSystem :=
  { shared := effect.shared
    threads := s.threads.set t ⟨effect.calls ++ rest, effect.ret⟩ ++ effect.spawned }

/-- What the system can do: nothing, start a request, or follow a rule in a thread. -/
inductive Stepped (s : RequestSystem) (e : RequestEvent) : RequestSystem → Prop
  | stutter : Stepped s e s
  | start (requester : Requester) (key : Option Nat) (accepted : Bool) :
      Stepped s e
        { shared := s.shared.create
            { conn := requester = .client, prefetch := requester = .prefetch, key := key }
          threads := s.threads ++ [creator requester s.shared.next accepted] }
  | run (t : Nat) (f : Frame) (rest : List Frame) (ret : Bool) (effect : Effect)
      (hthread : s.threads[t]? = some ⟨f :: rest, ret⟩) (htop : s.top e = some f)
      (hrule : Exec s.shared ret f effect) :
      Stepped s e (s.apply t rest effect)

theorem stepped (s : RequestSystem) (e : RequestEvent) : Stepped s e (step s e) := by
  cases e with
  | start requester key accepted => exact .start requester key accepted
  | run t choice =>
    simp only [step]
    split
    next f rest ret hthread =>
      exact .run t f rest ret _ hthread (by simp [top, hthread]) (exec_rule _ choice ret f)
    · exact .stutter
  | call t action =>
    simp only [step]
    split
    next r rest ret hthread =>
      have htop : s.top (.call t action) = some (.callback r) := by simp [top, hthread]
      cases action with
      | complete => exact .run t _ rest ret _ hthread htop (.callComplete r)
      | passthrough => exact .run t _ rest ret _ hthread htop (.callPassthrough r)
      | setPassthrough value => exact .run t _ rest ret _ hthread htop (.callSet r value)
      | ping => exact .run t _ rest ret _ hthread htop (.callPing r)
      | finish => exact .run t _ rest ret _ hthread htop (.goesOn _ _ ret (.finish r))
    · exact .stutter
  | unplug t =>
  simp only [step]
  split
  next r rest ret hthread =>
    have happly : s.apply t rest ⟨s.shared, [.release r true], ret, []⟩ =
        { s with threads := s.threads.set t ⟨.release r true :: rest, ret⟩ } := by
      simp [apply]
    rw [← happly]
    exact .run t _ rest ret _ hthread (by simp [top, hthread]) (.goesOn _ _ ret (.unplug r))
  · exact .stutter

theorem frames_getElem {s : RequestSystem} {t : Nat} {stack : List Frame} {ret : Bool}
    (h : s.threads[t]? = some ⟨stack, ret⟩) :
    s.frames[t]? = some stack := by
  simp [frames, h]

theorem frames_apply (s : RequestSystem) (t : Nat) (rest : List Frame) (effect : Effect) :
    (s.apply t rest effect).frames =
      s.frames.set t (effect.calls ++ rest) ++ effect.spawned.map Thread.stack := by
  simp [frames, apply, List.map_set]

theorem total_apply {s : RequestSystem} {t : Nat} {f : Frame} {rest : List Frame} {ret : Bool}
    (h : s.threads[t]? = some ⟨f :: rest, ret⟩) (φ : Frame → Nat) (effect : Effect) :
    Stacks.total φ (s.apply t rest effect).frames + φ f =
      Stacks.total φ s.frames + Stacks.weight φ effect.calls +
        Stacks.total φ (effect.spawned.map Thread.stack) := by
  have hset := Stacks.total_set φ (frames_getElem h) (effect.calls ++ rest)
  simp only [frames_apply, Stacks.weight_cons, Stacks.weight_append, Stacks.total_append] at hset ⊢
  omega

end RequestSystem

end SmartDns.Server
