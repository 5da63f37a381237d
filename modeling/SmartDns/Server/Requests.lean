import SmartDns.Lib.Runs

/-!
# The life of a request

A request is shared by the thread that creates it, the callbacks of the upstream
query and of the speed checks, the list of the request it waits for, its child
requests and the plugins; each holds a reference.  Whoever answers it counts in
`notified`, and the one who counts first replies.  The one who drops the last
reference answers what is still to be answered and frees the request.

A thread is a stack of calls.  A call runs up to the next call it makes, so one step
is one atomic operation, or one section under a lock, and the threads take their steps
in any order.  What rules, caches, servers and plugins decide is a parameter of the
step.  Each callback, and each request that comes in, has a thread of its own.  The
release of all requests at exit and the references of periodic checks are left out.
-/

namespace SmartDns.Server

/-! ## Requests -/

/-- `child_callback`: the child resolves the target of a `CNAME` rule, or the address
for DNS64. -/
inductive ChildCallback
  | cname
  | dns64
deriving DecidableEq, Repr

/-- How far `_dns_server_do_query` has got with a request, as far as it decides who may
answer it: it waits on a pending list, its answer is left to a child, or neither. -/
inductive Stage
  | own
  | waits
  | chained
deriving DecidableEq, Repr

/-- `struct dns_request`.  The `key` stands for the type, the flags, the group and the
name of an `A` or `AAAA` request; requests of other types have none.  The last
four fields record what has happened to the request. -/
structure RequestState where
  conn : Bool := false
  prefetch : Bool := false
  dualstackQuery : Bool := false
  key : Option Nat := none
  childCallback : ChildCallback := .cname
  parentRequest : Option Nat := none
  refcnt : ℤ := 0
  notified : Nat := 0
  passthrough : Bool := false
  pluginCompleteCalled : Nat := 0
  freed : Bool := false
  /-- The calls of `_dns_reply_inpacket`. -/
  replies : Nat := 0
  stage : Stage := .own
  /-- The request whose pending list it has joined. -/
  joined : Option Nat := none
  /-- The pending list holds a reference to it. -/
  waiting : Bool := false
deriving DecidableEq

/-- `struct dns_request_pending_list`, as long as it stands in `server.request_pending`.
The `request_pending_list` of the leader points to it.  The leader itself is left
out of the list. -/
structure PendingList where
  key : Nat
  leader : Nat
  requests : List Nat
deriving DecidableEq

/-! ## Calls -/

/-- The fields of `struct dns_server_post_context` that steer a reply. -/
structure PostContext where
  doReply : Bool
  skipNotifyCount : Bool
  noReleaseParent : Bool
deriving DecidableEq, Repr

/-- The parts of `_dns_server_request_release_complete` behind the last reference. -/
inductive Closing
  /-- `_dns_server_complete_with_multi_ipaddress`. -/
  | complete
  /-- The reference to the parent request is dropped. -/
  | parent
  /-- `smartdns_plugin_func_server_complete_request`. -/
  | plugin
  /-- `_dns_server_delete_request`. -/
  | delete
  | free
deriving DecidableEq, Repr

/-- What a thread still has to do. -/
inductive Frame
  /-- The creator of a request waits for `_dns_server_do_query` and drops its reference,
  on success with or without `do_complete`. -/
  | created (r : Nat) (doComplete : Bool)
  | doQuery (r : Nat)
  | setToPendingList (r : Nat)
  | processCname (r : Nat)
  | afterCname (child : Nat)
  | processDns64 (r : Nat)
  | afterDns64 (child r : Nat)
  | clientQuery (r : Nat)
  /-- The callback of an upstream query, of a speed check or of the second address
  family, with its reference. -/
  | callback (r : Nat)
  /-- The reference of a plugin. -/
  | plugin (r : Nat)
  | complete (r : Nat)
  | passthrough (r : Nat) (doReply : Bool)
  | post (r : Nat) (context : PostContext)
  | childPost (r : Nat) (context : PostContext)
  | leaveParent (r parent : Nat) (release : Bool)
  | postReply (r : Nat) (context : PostContext)
  | passReply (r : Nat) (doReply : Bool)
  | replyAll (r : Nat) (doReply : Bool)
  | serve (leader : Nat) (waiters : List Nat) (doReply : Bool)
  | dropWaiter (leader r : Nat)
  | release (r : Nat) (doComplete : Bool)
  | closing (r : Nat) (part : Closing)
  | pluginDone (r : Nat)
deriving DecidableEq

/-- A thread and what its last `_dns_server_do_query` returned. -/
structure Thread where
  stack : List Frame
  ret : Bool := true
deriving DecidableEq

/-! ## What the environment decides -/

/-- A rule answers, the cache answers, the query is refused, or it goes on. -/
inductive QueryRoute
  | rule
  | cached
  | fail
  | forward
deriving DecidableEq, Repr

/-- There is no `CNAME` rule, the child cannot be created, the rule leads to the name
itself, or a child with this key resolves the target. -/
inductive CnameOutcome
  | none
  | error
  | loop (key : Option Nat)
  | child (key : Option Nat)
deriving DecidableEq, Repr

/-- DNS64 has no part in it, answers for `ipv4only.arpa`, fails, or asks for the address
with a child. -/
inductive Dns64Outcome
  | none
  | ipv4only
  | error
  | child (key : Option Nat)
deriving DecidableEq, Repr

structure Choice where
  route : QueryRoute := .forward
  cname : CnameOutcome := .none
  dns64 : Dns64Outcome := .none
  /-- `dns_client_query` sends the query. -/
  sent : Bool := true
  /-- The other address family is asked for, with this key. -/
  dualstack : Option (Option Nat) := none
  /-- `_dns_setup_dns_packet` and `_dns_setup_dns_raw_packet` succeed. -/
  setup : Bool := true
  /-- The references that plugins take. -/
  held : Nat := 0

/-! ## Steps -/

/-- The requests and the pending lists. -/
structure Shared where
  requests : Nat → RequestState := fun _ => {}
  next : Nat := 0
  pending : List PendingList := []

namespace Shared

variable (s : Shared)

def modify (r : Nat) (f : RequestState → RequestState) : Shared :=
  { s with requests := Function.update s.requests r (f (s.requests r)) }

/-- `_dns_server_new_request`, with the first reference. -/
def create (request : RequestState) : Shared :=
  { s with
    requests := Function.update s.requests s.next { request with refcnt := 1 }
    next := s.next + 1 }

/-- `_dns_server_request_get`. -/
def get (r : Nat) : Shared :=
  s.modify r (fun q => { q with refcnt := q.refcnt + 1 })

def put (r : Nat) : Shared :=
  s.modify r (fun q => { q with refcnt := q.refcnt - 1 })

/-- `atomic_inc_return(&request->notified)`. -/
def notify (r : Nat) : Shared :=
  s.modify r (fun q => { q with notified := q.notified + 1 })

/-- `_dns_reply_inpacket`, which a request without a client does not get to. -/
def reply (r : Nat) : Shared :=
  s.modify r (fun q => if q.conn then { q with replies := q.replies + 1 } else q)

/-- `request->request_pending_list`. -/
def listOf (r : Nat) : Option PendingList :=
  s.pending.find? (fun l => l.leader = r)

/-- The list that `_dns_server_set_to_pending_list` finds. -/
def listFor (key : Nat) : Option PendingList :=
  s.pending.find? (fun l => l.key = key)

/-- A request that a request makes: it keeps the `prefetch` flag. -/
def subRequest (r : Nat) (key : Option Nat) : RequestState :=
  { prefetch := (s.requests r).prefetch, key := key }

end Shared

/-- What a frame does: the shared state behind it, the calls it makes, the result it
returns, and the threads that are now able to run. -/
structure Effect where
  shared : Shared
  calls : List Frame := []
  ret : Bool
  spawned : List Thread := []

/-- A context of `_dns_request_post` in front of which nothing has been counted. -/
def replyContext : PostContext := ⟨true, false, false⟩

/-- The context of `_dns_server_request_complete_with_all_IPs`. -/
def completeContext : PostContext := ⟨true, true, true⟩

section

variable (s : Shared)

/-- `_dns_server_request_release_complete` up to the last reference. -/
def dropRef (ret : Bool) (r : Nat) (doComplete : Bool) : Effect :=
  let s := s.put r
  let q := s.requests r
  if q.refcnt ≠ 0 then ⟨s, [], ret, []⟩
  else if doComplete && q.pluginCompleteCalled = 0 then ⟨s, [.closing r .complete], ret, []⟩
  else ⟨s, [.closing r .parent], ret, []⟩

variable (choice : Choice)

/-- `_dns_server_do_query` up to the pending list. -/
def execDoQuery (r : Nat) : Effect :=
  match choice.route with
  | .fail => ⟨s, [], false, []⟩
  | .rule => ⟨s, [.post r replyContext], true, []⟩
  | .cached =>
    -- a prefetch and a query for the second address family do not ask the cache
    if (s.requests r).prefetch || (s.requests r).dualstackQuery then
      ⟨s, [.setToPendingList r], true, []⟩
    else ⟨s, [.passthrough r true], true, []⟩
  | .forward => ⟨s, [.setToPendingList r], true, []⟩

/-- `_dns_server_set_to_pending_list`. -/
def execSetToPendingList (r : Nat) : Effect :=
  match (s.requests r).key with
  | none => ⟨s, [.processCname r], true, []⟩
  | some key =>
    match s.listFor key with
    | some l =>
      let joined := (s.get r).modify r (fun q =>
        { q with stage := .waits, joined := some l.leader, waiting := true })
      ⟨{ joined with
          pending := s.pending.map (fun l' =>
            if l'.leader = l.leader then { l' with requests := l'.requests ++ [r] } else l') },
        [], true, []⟩
    | none => ⟨{ s with pending := s.pending ++ [⟨key, r, []⟩] }, [.processCname r], true, []⟩

/-- `_dns_server_process_cname`.  Whatever it returns but zero, `_dns_server_do_query`
returns success. -/
def execProcessCname (r : Nat) : Effect :=
  match choice.cname with
  | .none => ⟨s, [.processDns64 r], true, []⟩
  | .error => ⟨s, [], true, []⟩
  | .loop key =>
    -- the child gives its parent up, with the reference it has taken
    ⟨s.create (s.subRequest r key), [.release s.next true, .processDns64 r], true, []⟩
  | .child key =>
    let s' := ((s.create { s.subRequest r key with
      parentRequest := some r, childCallback := .cname }).get r).modify r
        (fun q => { q with stage := .chained })
    ⟨s', [.doQuery s.next, .afterCname s.next], true, []⟩

/-- `_dns_server_process_dns64`. -/
def execProcessDns64 (r : Nat) : Effect :=
  match choice.dns64 with
  | .none => ⟨s, [.clientQuery r], true, []⟩
  | .ipv4only => ⟨s, [.post r replyContext, .replyAll r true], true, []⟩
  | .error => ⟨s, [], false, []⟩
  | .child key =>
    let s' := (s.create { s.subRequest r key with
      parentRequest := some r, childCallback := .dns64 }).get r
    ⟨s', [.doQuery s.next, .afterDns64 s.next r], true, []⟩

/-- The end of `_dns_server_do_query`.  When the query cannot be sent, the result is
still the zero of `_dns_server_process_dns64`. -/
def execClientQuery (r : Nat) : Effect :=
  if choice.sent then
    match choice.dualstack with
    | none => ⟨s.get r, [], true, [⟨[.callback r], true⟩]⟩
    | some key =>
      let s' := (s.get r).get r
      ⟨s'.create { s.subRequest r key with dualstackQuery := true }, [], true,
        [⟨[.callback r], true⟩, ⟨[.callback r], true⟩,
          ⟨[.doQuery s.next, .created s.next true], true⟩]⟩
  else ⟨s.get r, [.release r true], true, []⟩

/-- `_dns_server_request_complete_with_all_IPs`. -/
def execComplete (ret : Bool) (r : Nat) : Effect :=
  if (s.requests r).prefetch then ⟨s, [], ret, []⟩
  else if (s.requests r).notified = 0 then
    ⟨s.notify r, [.post r completeContext, .replyAll r true], ret, []⟩
  else ⟨s.notify r, [], ret, []⟩

/-- `_dns_server_reply_passthrough`. -/
def execPassthrough (ret : Bool) (r : Nat) (doReply : Bool) : Effect :=
  if (s.requests r).notified = 0 then
    ⟨s.notify r, [.childPost r ⟨doReply, false, false⟩, .passReply r doReply, .replyAll r doReply],
      ret, []⟩
  else ⟨s.notify r, [], ret, []⟩

/-- `_dns_result_child_post`.  The callback of a `CNAME` child returns success, the one
of DNS64 never does. -/
def execChildPost (ret : Bool) (r : Nat) (context : PostContext) : Effect :=
  match (s.requests r).parentRequest with
  | none => ⟨s, [], ret, []⟩
  | some parent =>
    if context.doReply && (s.requests r).childCallback = .cname then
      ⟨s, [.post parent context, .replyAll parent true,
        .leaveParent r parent (!context.noReleaseParent)], ret, []⟩
    else ⟨s, [.leaveParent r parent (!context.noReleaseParent)], ret, []⟩

/-- The end of `_dns_result_child_post`. -/
def execLeaveParent (ret : Bool) (r parent : Nat) (release : Bool) : Effect :=
  if release then
    ⟨s.modify r (fun q => { q with parentRequest := none }), [.release parent true], ret, []⟩
  else ⟨s, [], ret, []⟩

/-- The end of `_dns_request_post`. -/
def execPostReply (ret : Bool) (r : Nat) (context : PostContext) : Effect :=
  if context.doReply then
    if context.skipNotifyCount then ⟨s.reply r, [], ret, []⟩
    else if (s.requests r).notified = 0 then ⟨(s.notify r).reply r, [], ret, []⟩
    else ⟨s.notify r, [], ret, []⟩
  else ⟨s, [], ret, []⟩

/-- `_dns_server_reply_all_pending_list` takes the list. -/
def execReplyAll (ret : Bool) (r : Nat) (doReply : Bool) : Effect :=
  match s.listOf r with
  | none => ⟨s, [], ret, []⟩
  | some l =>
    ⟨{ s with pending := s.pending.filter (fun l' => l'.leader ≠ r) },
      [.serve r l.requests doReply], ret, []⟩

/-- `_dns_server_complete_with_multi_ipaddress` and the rest of
`_dns_server_request_release_complete`. -/
def execClosing (ret : Bool) (r : Nat) : Closing → Effect
  | .complete =>
    let first : Bool := (s.requests r).notified = 0
    if (s.requests r).passthrough && !first then ⟨s.notify r, [.closing r .parent], ret, []⟩
    else
      ⟨s.notify r, [.post r ⟨first, true, false⟩, .replyAll r first, .closing r .parent], ret, []⟩
  | .parent =>
    match (s.requests r).parentRequest with
    | none => ⟨s, [.closing r .plugin], ret, []⟩
    | some parent =>
      -- nobody else can see the request any more, so the pointer may go first
      ⟨s.modify r (fun q => { q with parentRequest := none }),
        [.release parent true, .closing r .plugin], ret, []⟩
  | .plugin =>
    let held := if (s.requests r).pluginCompleteCalled = 0 then choice.held else 0
    ⟨s.modify r (fun q =>
        { q with
          refcnt := q.refcnt + 1 + held
          pluginCompleteCalled := q.pluginCompleteCalled + 1 }),
      [.pluginDone r], ret, List.replicate held ⟨[.plugin r], true⟩⟩
  | .delete =>
    if (s.requests r).notified = 0 then ⟨s, [.complete r, .closing r .free], ret, []⟩
    else ⟨s, [.closing r .free], ret, []⟩
  | .free => ⟨s.modify r (fun q => { q with freed := true }), [], ret, []⟩

def exec (ret : Bool) : Frame → Effect
  | .created r doComplete => ⟨s, [.release r (doComplete || !ret)], ret, []⟩
  | .doQuery r => execDoQuery s choice r
  | .setToPendingList r => execSetToPendingList s r
  | .processCname r => execProcessCname s choice r
  | .afterCname child => ⟨s, [.release child (!ret)], true, []⟩
  | .processDns64 r => execProcessDns64 s choice r
  | .afterDns64 child r =>
    if ret then ⟨s, [.release child false, .clientQuery r], true, []⟩
    else ⟨s, [.release child true], false, []⟩
  | .clientQuery r => execClientQuery s choice r
  -- a callback and a plugin wait for their next call
  | .callback r => ⟨s, [.callback r], ret, []⟩
  | .plugin r => ⟨s, [.plugin r], ret, []⟩
  | .complete r => execComplete s ret r
  | .passthrough r doReply => execPassthrough s ret r doReply
  | .post r context =>
    ⟨s, if choice.setup then [.childPost r context, .postReply r context] else [], ret, []⟩
  | .childPost r context => execChildPost s ret r context
  | .leaveParent r parent release => execLeaveParent s ret r parent release
  | .postReply r context => execPostReply s ret r context
  | .passReply r doReply => ⟨if doReply then s.reply r else s, [], ret, []⟩
  | .replyAll r doReply => execReplyAll s ret r doReply
  | .serve _ [] _ => ⟨s, [], ret, []⟩
  | .serve leader (w :: waiters) doReply =>
    ⟨s, [.passthrough w doReply, .dropWaiter leader w, .serve leader waiters doReply], ret, []⟩
  | .dropWaiter _ r => dropRef (s.modify r (fun q => { q with waiting := false })) ret r false
  | .release r doComplete => dropRef s ret r doComplete
  | .closing r part => execClosing s choice ret r part
  | .pluginDone r =>
    let s := s.put r
    ⟨s, if 0 < (s.requests r).refcnt then [] else [.closing r .delete], ret, []⟩

end

/-! ## Runs -/

/-- `server`, and the threads. -/
structure RequestSystem where
  shared : Shared := {}
  threads : List Thread := []

/-- Who asks: a client, the interface `dns_server_query`, or a prefetch. -/
inductive Requester
  | client
  | query
  | prefetch
deriving DecidableEq, Repr

/-- What a callback does with its reference. -/
inductive CallbackAction
  /-- An answer is complete, or a speed check is done. -/
  | complete
  /-- The packet of an upstream server is passed on. -/
  | passthrough
  | setPassthrough (value : Bool)
  /-- A speed check is started, with a reference of its own. -/
  | ping
  /-- The query ends, and the reference is dropped. -/
  | finish
deriving DecidableEq, Repr

inductive RequestEvent
  /-- A request is created; one that is refused right away is only released. -/
  | start (requester : Requester) (key : Option Nat) (accepted : Bool)
  | run (thread : Nat) (choice : Choice)
  | call (thread : Nat) (action : CallbackAction)
  /-- A plugin gives its reference back. -/
  | unplug (thread : Nat)

namespace RequestSystem

/-- The thread that creates a request. -/
def creator (requester : Requester) (r : Nat) (accepted : Bool) : Thread :=
  if accepted then ⟨[.doQuery r, .created r (requester = .prefetch)], true⟩
  else ⟨[.release r true], true⟩

def callbackFrames (r : Nat) : CallbackAction → List Frame
  | .complete => [.complete r, .callback r]
  | .passthrough => [.passthrough r true, .callback r]
  | .setPassthrough _ => [.callback r]
  | .ping => [.callback r]
  | .finish => [.release r true]

def callbackShared (s : Shared) (r : Nat) : CallbackAction → Shared
  | .setPassthrough value => s.modify r (fun q => { q with passthrough := value })
  | .ping => s.get r
  | _ => s

def step (s : RequestSystem) : RequestEvent → RequestSystem
  | .start requester key accepted =>
    { shared := s.shared.create
        { conn := requester = .client, prefetch := requester = .prefetch, key := key }
      threads := s.threads ++ [creator requester s.shared.next accepted] }
  | .run t choice =>
    match s.threads[t]? with
    | some ⟨f :: rest, ret⟩ =>
      let effect := exec s.shared choice ret f
      { shared := effect.shared
        threads := s.threads.set t ⟨effect.calls ++ rest, effect.ret⟩ ++ effect.spawned }
    | _ => s
  | .call t action =>
    match s.threads[t]? with
    | some ⟨.callback r :: rest, ret⟩ =>
      { shared := callbackShared s.shared r action
        threads := s.threads.set t ⟨callbackFrames r action ++ rest, ret⟩ ++
          (if action = .ping then [⟨[.callback r], true⟩] else []) }
    | _ => s
  | .unplug t =>
    match s.threads[t]? with
    | some ⟨.plugin r :: rest, ret⟩ =>
      { s with threads := s.threads.set t ⟨.release r true :: rest, ret⟩ }
    | _ => s

end RequestSystem

end SmartDns.Server
