import SmartDns.Lib.RefCount
import SmartDns.Lib.Runs

/-!
# The life of an upstream query

One query of `dns_client/`, from `dns_client_query` to its last release.  Two
threads work on it: the one that starts it, and the thread of the client, which
receives the replies and runs the periodic retry.  A step is what one thread does
between two accesses to data that it shares with the other: an atomic counter, or a
section under `domain_map_lock`.

The events say which servers a send loop reaches and which sends fail.  The lock
of the server list is left out, so the system has more interleavings than the program.
-/

namespace SmartDns.Client

def dnsQueryRetry : ℤ := 4

/-- `struct dns_query_struct`, as far as it decides over the query's life. -/
structure Query where
  refcnt : ℤ := 0
  dnsRequestSent : ℤ := 0
  retryCount : ℤ := dnsQueryRetry
  hasResult : Bool := false
  hasCallback : Bool := true
  repliedMap : List Nat := []
  /-- it stands in `domain_map` -/
  hashed : Bool := false
  /-- it stands in `dns_request_list` -/
  listed : Bool := false
  freed : Bool := false

/-- The loop of `_dns_client_send_packet`; `pending` inside `_dns_client_send_one_packet`. -/
structure SendLoop where
  sendCount : Nat
  pending : Bool
deriving DecidableEq

/-- Where the thread that starts the query stands, in `dns_client_query`. -/
inductive Starter
  | idle
  /-- before `_dns_client_add_hashmap` -/
  | hashing
  /-- before the second `_dns_client_query_get` -/
  | getting
  /-- before the first increment of `_dns_client_send_packet` -/
  | opening
  | sending (l : SendLoop)
  /-- in `_dns_client_query_remove`, called at the end of `_dns_client_send_packet` -/
  | removing
  /-- there, before the decrement of its release -/
  | removeRelease
  /-- before the query is added to `dns_request_list` -/
  | enlisting
  /-- before the decrement of the last release -/
  | releasing
  /-- in `_dns_client_query_release`, after the count has reached zero -/
  | finishing (next : Starter)
  /-- the start has failed: the release, `callback = NULL`, the removal -/
  | failReleasing
  | failClearing
  | failRemoving
  | failRemoveRelease
  | done
deriving DecidableEq

/-- Where the thread of the client stands. -/
inductive Worker
  | idle
  /-- `_dns_client_recv` has found the query for a reply of the server `v` -/
  | counting (v : Nat) (refused : Bool)
  /-- it has counted the reply and runs the callback -/
  | calling (v : Nat) (requestNum : ℤ)
  /-- before the decrement of `_dns_client_retry_dns_query` -/
  | retrying
  /-- before the first increment of `_dns_client_send_packet` -/
  | opening
  | sending (l : SendLoop)
  /-- in `_dns_client_query_remove`; `look` if called by `_dns_client_retry_dns_query` -/
  | removing (look : Bool)
  | removeRelease (look : Bool)
  /-- `_dns_client_retry_dns_query` reads `has_result` after the removal -/
  | looking
  /-- before the decrement of the last release -/
  | releasing
  /-- in `_dns_client_query_release`, after the count has reached zero -/
  | finishing (next : Worker)
deriving DecidableEq

/-- What a callback answers: `DNS_CLIENT_ACTION_*`, or any other value. -/
inductive Answer
  | ok
  | drop
  | retry
  | invalid
deriving DecidableEq

inductive Who
  | starter
  | worker

inductive QueryEvent
  /-- `dns_client_query` is called -/
  | start
  /-- a thread makes its next step -/
  | step (w : Who)
  /-- a send loop increments the counter and sends to a server -/
  | send (w : Who)
  /-- the send returns; a failed one decrements the counter -/
  | sent (w : Who) (ok : Bool)
  /-- a send loop is over: the closing decrement -/
  | close (w : Who)
  /-- a reply of the server `v` is received -/
  | reply (v : Nat) (refused : Bool)
  /-- the callback that is running returns -/
  | answer (a : Answer)
  /-- the periodic retry finds the query timed out -/
  | timeout

/--
The query, its two threads, and what has been seen so far.  `early` marks the
send in which the starter stands as one whose reply has already been counted.
-/
structure QuerySystem where
  q : Query := {}
  starter : Starter := .idle
  worker : Worker := .idle
  early : Bool := false
  failed : Bool := false
  removals : Nat := 0
  ended : Nat := 0
  timeouts : Nat := 0
  lateResult : Bool := false
  misused : Bool := false

namespace Starter

/-- The send loop has not been closed yet. -/
def loops : Starter → ℤ
  | sending _ => 1
  | _ => 0

def pending : Starter → Bool
  | sending l => l.pending
  | _ => false

def entered : Starter → Bool
  | idle => false
  | hashing => false
  | _ => true

/-- The references that the thread has to release. -/
def owns : Starter → ℕ
  | opening => 1
  | sending _ => 1
  | removing => 1
  | removeRelease => 2
  | enlisting => 1
  | releasing => 1
  | finishing enlisting => 1
  | _ => 0

def frees : Starter → ℕ
  | finishing _ => 1
  | _ => 0

end Starter

namespace Worker

/-- The send loop has not been closed yet. -/
def loops : Worker → ℤ
  | sending _ => 1
  | _ => 0

def pending : Worker → Bool
  | sending l => l.pending
  | _ => false

/-- The references that the thread has to release. -/
def owns : Worker → ℕ
  | idle => 0
  | removeRelease _ => 2
  | finishing idle => 0
  | _ => 1

def frees : Worker → ℕ
  | finishing _ => 1
  | _ => 0

end Worker

namespace QuerySystem

variable (s : QuerySystem)

/-- An access to the query. -/
def touch : QuerySystem :=
  { s with misused := s.misused || s.q.freed }

/-- The number of send loops that are open. -/
def loops : ℤ :=
  s.starter.loops + s.worker.loops

/-- The sends in progress whose reply has not been counted. -/
def unanswered : ℤ :=
  (s.starter.pending && !s.early).toNat + s.worker.pending.toNat

/-- The sends that are over and whose reply has not been counted. -/
def outstanding : ℤ :=
  s.q.dnsRequestSent - s.loops - s.unanswered

/-- `_dns_client_query_get`. -/
def get : QuerySystem :=
  { s.touch with q := { s.q with refcnt := s.q.refcnt + 1 } }

/-- The decrement of `_dns_client_query_release`. -/
def release : QuerySystem :=
  { s.touch with q := { s.q with refcnt := s.q.refcnt - 1 } }

/-- The locked section of `_dns_client_query_remove`. -/
def remove : QuerySystem :=
  { s.touch with
    q := { s.q with hashed := false, listed := false }
    removals := s.removals + 1 }

/-- The end of `_dns_client_query_release`: the callback, and the memory. -/
def finish : QuerySystem :=
  { s.touch with
    q := { s.q with hashed := false, listed := false, freed := true }
    ended := if s.q.hasCallback then s.ended + 1 else s.ended }

/-- A change of the counter of sends. -/
def count (d : ℤ) : QuerySystem :=
  { s.touch with q := { s.q with dnsRequestSent := s.q.dnsRequestSent + d } }

/-- The next step of the thread that starts the query. -/
def starterStep : QuerySystem :=
  match s.starter with
  | .hashing =>
    { s with
      q := { s.q with refcnt := s.q.refcnt + 1, hashed := true }
      starter := .getting }
  | .getting => { s.get with starter := .opening }
  | .opening => { s.count 1 with starter := .sending ⟨0, false⟩ }
  | .removing => { s.remove with starter := .removeRelease }
  | .removeRelease =>
    { s.release with
      starter := if s.q.refcnt - 1 = 0 then .finishing .enlisting else .enlisting }
  | .enlisting =>
    { s.touch with
      q := { s.q with listed := s.q.listed || s.q.hashed }
      starter := .releasing }
  | .releasing =>
    { s.release with
      starter := if s.q.refcnt - 1 = 0 then .finishing .done else .done }
  | .finishing next => { s.finish with starter := next }
  | .failReleasing =>
    { s.release with
      starter := if s.q.refcnt - 1 = 0 then .finishing .failClearing else .failClearing }
  | .failClearing =>
    { s.touch with q := { s.q with hasCallback := false }, starter := .failRemoving }
  | .failRemoving => { s.remove with starter := .failRemoveRelease }
  | .failRemoveRelease =>
    { s.release with
      starter := if s.q.refcnt - 1 = 0 then .finishing .done else .done }
  | _ => s

/--
`_dns_client_recv`, from the search for the query to the counter.  A reply that
is refused, or comes from a server that has replied, is not counted.
-/
def countReply (v : Nat) (refused : Bool) : QuerySystem :=
  if refused ∨ v ∈ s.q.repliedMap then { s.touch with worker := .releasing }
  else
    { s.count (-1) with
      q := { s.q with
        dnsRequestSent := s.q.dnsRequestSent - 1
        repliedMap := v :: s.q.repliedMap }
      early := s.early || (s.starter.pending && s.outstanding ≤ 0)
      worker :=
        if s.q.dnsRequestSent - 1 < 0 then .releasing
        else .calling v (s.q.dnsRequestSent - 1) }

def workerStep : QuerySystem :=
  match s.worker with
  | .counting v refused => s.countReply v refused
  | .retrying =>
    { s.touch with
      q := { s.q with retryCount := s.q.retryCount - 1 }
      worker :=
        if s.q.retryCount - 1 = 0 ∨ s.q.hasResult then .removing true else .opening }
  | .opening => { s.count 1 with worker := .sending ⟨0, false⟩ }
  | .removing look => { s.remove with worker := .removeRelease look }
  | .removeRelease look =>
    let next := if look then Worker.looking else Worker.releasing
    { s.release with
      worker := if s.q.refcnt - 1 = 0 then .finishing next else next }
  | .looking => { s.touch with worker := .releasing }
  | .releasing =>
    { s.release with
      worker := if s.q.refcnt - 1 = 0 then .finishing .idle else .idle }
  | .finishing next => { s.finish with worker := next }
  | _ => s

/-- A send loop counts a send and starts it. -/
def send : Who → QuerySystem
  | .starter =>
    match s.starter with
    | .sending ⟨n, false⟩ => { s.count 1 with starter := .sending ⟨n, true⟩ }
    | _ => s
  | .worker =>
    match s.worker with
    | .sending ⟨n, false⟩ => { s.count 1 with worker := .sending ⟨n, true⟩ }
    | _ => s

/-- The send returns. -/
def sent (ok : Bool) : Who → QuerySystem
  | .starter =>
    match s.starter with
    | .sending ⟨n, true⟩ =>
      { s.count (if ok then 0 else -1) with
        starter := .sending ⟨if ok then n + 1 else n, false⟩
        early := false }
    | _ => s
  | .worker =>
    match s.worker with
    | .sending ⟨n, true⟩ =>
      { s.count (if ok then 0 else -1) with
        worker := .sending ⟨if ok then n + 1 else n, false⟩ }
    | _ => s

/-- The end of `_dns_client_send_packet`. -/
def close : Who → QuerySystem
  | .starter =>
    match s.starter with
    | .sending ⟨n, false⟩ =>
      if n = 0 then { s.count (-1) with starter := .failReleasing, failed := true }
      else
        { s.count (-1) with
          starter := if s.q.dnsRequestSent - 1 = 0 then .removing else .enlisting }
    | _ => s
  | .worker =>
    match s.worker with
    | .sending ⟨n, false⟩ =>
      { s.count (-1) with
        worker :=
          if s.q.dnsRequestSent - 1 = 0 ∧ 0 < n then .removing false else .releasing }
    | _ => s

/-- `_dns_client_recv`, from the return of the callback. -/
def answered (a : Answer) (v : Nat) (requestNum : ℤ) : QuerySystem :=
  let back := { s.q with
    dnsRequestSent := s.q.dnsRequestSent + 1, repliedMap := s.q.repliedMap.erase v }
  let next := if requestNum = 0 then Worker.removing false else Worker.releasing
  let s := { s.touch with lateResult := s.lateResult || decide (0 < s.ended) }
  match a with
  | .drop => { s with q := back, worker := .releasing }
  | .retry => { s with q := back, worker := .retrying }
  | .ok => { s with q := { s.q with hasResult := true }, worker := next }
  | .invalid => { s with worker := next }

def step : QueryEvent → QuerySystem
  | .start => if s.starter = .idle then { s with starter := .hashing } else s
  | .step .starter => s.starterStep
  | .step .worker => s.workerStep
  | .send w => s.send w
  | .sent w ok => s.sent ok w
  | .close w => s.close w
  | .reply v refused =>
    if s.worker = .idle ∧ s.q.hashed then { s.get with worker := .counting v refused }
    else s
  | .answer a =>
    match s.worker with
    | .calling v requestNum =>
      if s.q.hasCallback then s.answered a v requestNum
      else { s.touch with worker := .releasing }
    | _ => s
  | .timeout =>
    if s.worker = .idle ∧ s.q.listed then
      { s.get with worker := .retrying, timeouts := s.timeouts + 1 }
    else s

end QuerySystem

end SmartDns.Client
