import SmartDns.Cache.Head
import SmartDns.Dns.Nested
import SmartDns.Lib.Runs

/-!
# The packets that the server sends to its clients

A request is answered with a packet that the server builds for it, with a packet
of an upstream server, or with a packet of the cache.  The packet of a request
that leads a pending list is then sent to every request on the list as well.
In front of each reply `dns_packet_update` writes the id and the name of that
request into the one buffer.

A packet stands here with its names read: to write a name over an equal one of
another letter case replaces the bytes that are read back, wherever the packet
shares them.  What upstream servers and rules answer is told by the events.
-/

namespace SmartDns.Server

open Dns (OptEcs DnsType maxCnameLen)
open Cache (CacheKey)

/-! ## Names -/

/-- A name as it is read from a packet, into `char domain[DNS_MAX_CNAME_LEN]`. -/
structure QName where
  text : CStr
  fits : text.bytes.length < maxCnameLen
deriving DecidableEq

namespace QName

/-- `safe_strncpy_lower`. -/
def lower (name : QName) : QName where
  text :=
    { bytes := name.text.bytes.map toLower
      noNul := by
        intro b hb
        obtain ⟨c, hc, rfl⟩ := List.mem_map.mp hb
        exact toLower_ne_zero (name.text.noNul c hc) }
  fits := by simpa using name.fits

/-- `case_changed`, which `safe_strncpy_lower` sets. -/
def caseChanged (name : QName) : Bool :=
  name.text.bytes.any (fun b => 65 ≤ b && b ≤ 90)

/-- `strncasecmp(a, b, DNS_MAX_CNAME_LEN) == 0`. -/
def same (a b : QName) : Bool :=
  a.text.bytes.map toLower == b.text.bytes.map toLower

@[ext] theorem ext {a b : QName} (h : a.text.bytes = b.text.bytes) : a = b := by
  cases a
  cases b
  have htext := CStr.ext h
  subst htext
  rfl

@[simp] theorem lower_bytes (name : QName) :
    name.lower.text.bytes = name.text.bytes.map toLower := rfl

@[simp] theorem lower_lower (name : QName) : name.lower.lower = name.lower := by
  apply QName.ext
  simp [Function.comp_def]

theorem same_iff {a b : QName} : a.same b = true ↔ a.lower = b.lower := by
  constructor
  · intro h
    apply QName.ext
    simpa [same] using h
  · intro h
    have hbytes := congrArg (fun n => n.text.bytes) h
    simpa [same] using hbytes

theorem lower_eq_self {name : QName} (h : name.caseChanged = false) : name.lower = name := by
  apply QName.ext
  conv_rhs => rw [← List.map_id name.text.bytes]
  apply List.map_congr_left
  intro b hb
  have hsmall := List.any_eq_false.mp h b hb
  have hnot : ¬ (65 ≤ b ∧ b ≤ 90) := by simpa using hsmall
  simp [toLower, hnot]

end QName

/-! ## Packets -/

/-- A record of a packet, with its name read. -/
structure Rr where
  owner : QName
  rtype : Nat
  ttl : Nat
deriving DecidableEq

/-- `inpacket` and its length.  The records of the answer, authority and
additional sections stand in one list; `ecs` is the client-subnet option. -/
structure Message where
  id : UInt16
  rcode : Nat
  questions : List QName
  records : List Rr
  ecs : Option OptEcs
  size : Nat
deriving DecidableEq

/-- `struct dns_update_param`; nothing reads its `cname_ttl`. -/
structure UpdateParam where
  id : UInt16
  ipTtl : Int
  queryDomain : Option QName

/-- `_dns_update_rr_domain`.  Names of one spelling up to the letter case have one
length, so `_dns_update_domain` does not fail. -/
def dnsUpdateRrDomain (param : UpdateParam) (domain : QName) : QName :=
  match param.queryDomain with
  | none => domain
  | some queryDomain => if domain.same queryDomain then queryDomain else domain

def dnsUpdateAn (param : UpdateParam) (rr : Rr) : Rr :=
  { rr with
    owner := dnsUpdateRrDomain param rr.owner
    ttl := if rr.rtype = DnsType.opt.code ∨ param.ipTtl < 0 then rr.ttl else param.ipTtl.toNat }

def dnsPacketUpdate (message : Message) (param : UpdateParam) : Message :=
  { message with
    id := param.id
    questions := message.questions.map (dnsUpdateRrDomain param)
    records := message.records.map (dnsUpdateAn param) }

/-! ## Requests -/

/-- What identifies a question of a client: the client, the id and the name as the
client spelled it. -/
structure Asked where
  client : Nat
  id : UInt16
  name : QName
deriving DecidableEq

/-- A query packet of a client, read, and the flags of its connection. -/
structure Query where
  asked : Asked
  qtype : Nat
  serverFlags : Nat
  ecs : Option OptEcs
deriving DecidableEq

/-- `struct dns_request`.  `conn` is the connection of the client together with the
question that came over it; a request of the server's own has none.  `subnetOf`
is the client from whom the option in `ecs` comes. -/
structure Request where
  conn : Option Asked
  id : UInt16
  domain : QName
  originalDomain : Option QName
  qtype : Nat
  serverFlags : Nat
  dnsGroupName : CStr
  noCache : Bool
  ecs : Option OptEcs
  subnetOf : Option Nat
deriving DecidableEq

/-- `_dns_server_parser_request`, with the group and the `no_cache` flag that
`_dns_server_do_query` finds for the request. -/
def dnsServerParserRequest (query : Query) (dnsGroupName : CStr) (noCache : Bool) : Request where
  conn := some query.asked
  id := query.asked.id
  domain := query.asked.name.lower
  originalDomain := if query.asked.name.caseChanged then some query.asked.name else none
  qtype := query.qtype
  serverFlags := query.serverFlags
  dnsGroupName := dnsGroupName
  noCache := noCache
  ecs := query.ecs
  subnetOf := query.ecs.map (fun _ => query.asked.client)

/-- `struct dns_cache_key` of a request. -/
def Request.cacheKey (request : Request) : CacheKey where
  domain := request.domain.text
  qtype := request.qtype
  dnsGroupName := request.dnsGroupName
  queryFlag := request.serverFlags

/-- What a request has found out when it is answered. -/
structure Answer where
  rcode : Nat
  remoteServerFail : Bool
  records : List Rr
  /-- The records do not fit, and `_dns_setup_truncated_dns_packet` leaves them out. -/
  truncated : Bool
  size : Nat
  replyTtl : Int
  /-- The `ip_ttl`, which the requests on the pending list are answered with. -/
  ipTtl : Int
  doCache : Bool

/-- `_dns_setup_dns_packet` and `_dns_setup_dns_raw_packet`. -/
def dnsSetupDnsPacket (request : Request) (answer : Answer) : Message :=
  if request.domain.text.bytes = [] then ⟨request.id, answer.rcode, [], [], none, answer.size⟩
  else if answer.truncated then ⟨request.id, answer.rcode, [request.domain], [], none, answer.size⟩
  else ⟨request.id, answer.rcode, [request.domain], answer.records, request.ecs, answer.size⟩

/-! ## The server -/

/-- A request that waits for an upstream server.  `pending` says that its list stands
in `server.request_pending`; `waiters` are the other requests on the list. -/
structure Job where
  request : Request
  waiters : List Request
  pending : Bool

/-- The cache, the requests on their way, and the packets sent to the clients. -/
structure Replies where
  cache : List (CacheKey × Message) := []
  jobs : List Job := []
  replies : List (Asked × Message) := []

namespace Replies

variable (s : Replies)

/-- `_dns_cache_lookup`. -/
def lookup (key : CacheKey) : Option Message :=
  (s.cache.find? (fun e => e.1.compared = key.compared)).map Prod.snd

/-- `dns_cache_insert` and `dns_cache_replace`. -/
def insert (key : CacheKey) (message : Message) : Replies :=
  { s with cache := (key, message) :: s.cache.filter (fun e => e.1.compared ≠ key.compared) }

/-- `_dns_cache_is_specify_packet`: `PTR`, `HTTPS`, `TXT`, `SRV` and `CAA`. -/
def dnsCacheIsSpecifyPacket (qtype : Nat) : Bool :=
  qtype = DnsType.ptr.code || qtype = DnsType.https.code || qtype = Dns.typeTxt ||
    qtype = DnsType.srv.code || qtype = 257

/-- The tests of `_dns_cache_reply_packet`: 2, 3 and 4 are `DNS_RC_SERVFAIL`,
`DNS_RC_NXDOMAIN` and `DNS_RC_NOTIMP`. -/
def keepsReply (request : Request) (answer : Answer) (message : Message) : Bool :=
  if answer.doCache = false ∨ request.noCache = true then false
  else if message.rcode = 2 then answer.remoteServerFail
  else if message.rcode = 3 then true
  else if message.rcode = 4 then false
  else if request.qtype ≠ DnsType.aaaa.code ∧ request.qtype ≠ DnsType.a.code ∧
      request.qtype ≠ DnsType.https.code then
    dnsCacheIsSpecifyPacket request.qtype
  else true

def dnsCacheReplyPacket (request : Request) (answer : Answer) (message : Message) : Replies :=
  if keepsReply request answer message then s.insert request.cacheKey message else s

@[simp] theorem dnsCacheReplyPacket_jobs (r : Request) (answer : Answer) (message : Message) :
    (s.dnsCacheReplyPacket r answer message).jobs = s.jobs := by
  unfold dnsCacheReplyPacket
  split <;> rfl

@[simp] theorem dnsCacheReplyPacket_replies (r : Request) (answer : Answer) (message : Message) :
    (s.dnsCacheReplyPacket r answer message).replies = s.replies := by
  unfold dnsCacheReplyPacket
  split <;> rfl

/-- `_dns_request_update_id_ttl_domain` and `_dns_reply_inpacket`: the buffer is
changed and what it then holds is sent. -/
def dnsReplyInpacket (request : Request) (doReply : Bool) (ttl : Int)
    (out : Message × List (Asked × Message)) : Message × List (Asked × Message) :=
  match request.conn with
  | none => out
  | some asked =>
    if doReply then
      let message := dnsPacketUpdate out.1 ⟨request.id, ttl, request.originalDomain⟩
      (message, out.2 ++ [(asked, message)])
    else out

/-- The loop of `_dns_server_reply_all_pending_list`: one buffer for all requests. -/
def replyWaiters (doReply : Bool) (ttl : Int) (waiters : List Request)
    (out : Message × List (Asked × Message)) : Message × List (Asked × Message) :=
  waiters.foldl (fun out request => dnsReplyInpacket request doReply ttl out) out

/-- The reply to a request and to the requests that wait with it. -/
def replyAll (request : Request) (waiters : List Request) (answer : Answer)
    (doReply : Bool) (message : Message) : Replies :=
  let out := dnsReplyInpacket request doReply answer.replyTtl (message, s.replies)
  { s with replies := (replyWaiters doReply answer.ipTtl waiters out).2 }

/-- `_dns_server_reply_all_pending_list` takes the list of a request. -/
def takeList (i : Nat) (job : Job) : Replies :=
  { s with jobs := s.jobs.set i { job with waiters := [], pending := false } }

/-- `_dns_request_post`, then `_dns_server_reply_all_pending_list`. -/
def dnsRequestPost (i : Nat) (answer : Answer) (doReply : Bool) : Replies :=
  match s.jobs[i]? with
  | none => s
  | some job =>
    let message := dnsSetupDnsPacket job.request answer
    ((s.dnsCacheReplyPacket job.request answer message).replyAll job.request job.waiters answer
      doReply message).takeList i job

/-- `_dns_server_reply_passthrough` with a packet of an upstream server. -/
def dnsServerReplyPassthrough (i : Nat) (message : Message) (answer : Answer) : Replies :=
  match s.jobs[i]? with
  | none => s
  | some job =>
    ((s.dnsCacheReplyPacket job.request answer message).replyAll job.request job.waiters answer
      true message).takeList i job

/-- A request that its pending list can take: same type, flags, group and name. -/
def Job.takes (job : Job) (request : Request) : Bool :=
  job.pending && job.request.qtype = request.qtype &&
    job.request.serverFlags = request.serverFlags &&
    job.request.dnsGroupName = request.dnsGroupName && job.request.domain = request.domain

section

variable (request : Request)

/-- Only `A` and `AAAA` requests wait for each other. -/
def Request.coalesces : Bool :=
  request.qtype = DnsType.a.code || request.qtype = DnsType.aaaa.code

/-- `_dns_server_set_to_pending_list`; a request that does not join a list goes to the
upstream servers. -/
def dnsServerSetToPendingList : Replies :=
  match s.jobs.findIdx? (fun job => Request.coalesces request && Job.takes job request) with
  | some i =>
    { s with jobs := s.jobs.modify i (fun job => { job with waiters := job.waiters ++ [request] }) }
  | none => { s with jobs := s.jobs ++ [⟨request, [], Request.coalesces request⟩] }

/-- A reply that a rule gives, before the request gets to the cache. -/
def replyLocally (answer : Answer) : Replies :=
  let message := dnsSetupDnsPacket request answer
  (s.dnsCacheReplyPacket request answer message).replyAll request [] answer true message

/-- The request that `_dns_server_process_cache` starts for an expired entry. -/
def prefetchRequest (noCache : Bool) : Request where
  conn := none
  id := 0
  domain := request.domain
  originalDomain := none
  qtype := request.qtype
  serverFlags := request.serverFlags
  dnsGroupName := request.dnsGroupName
  noCache := noCache
  ecs := request.ecs
  subnetOf := request.subnetOf

/-- `DNS_IN_PACKSIZE`. -/
def inPacksize : Nat := 512 * 8

/-- `_dns_server_process_cache_packet` works on a copy of the packet only when it will
change the name and the copy fits. -/
def inPlace (message : Message) : Bool :=
  request.originalDomain.isNone || inPacksize ≤ message.size

def dnsServerProcessCachePacket (ttl : Int) : Replies :=
  match s.lookup request.cacheKey with
  | none => s
  | some message =>
    let out := dnsReplyInpacket request true ttl (message, s.replies)
    { s with
      cache := s.cache.map (fun e =>
        if inPlace request message ∧ e.1.compared = request.cacheKey.compared
        then (e.1, out.1) else e)
      replies := out.2 }

end

/-- What `_dns_server_do_query` does with a request: a rule answers, the cache
answers, or the request waits for an upstream server.  For an expired entry a
second request is started, which a rule may answer as well. -/
inductive Route
  | rule (answer : Answer)
  | cached (ttl : Int) (prefetch : Option (Bool × Option Answer))
  | forward

/-- The end of `_dns_server_process_cache`. -/
def prefetch (request : Request) : Option (Bool × Option Answer) → Replies
  | none => s
  | some (noCache, none) => s.dnsServerSetToPendingList (prefetchRequest request noCache)
  | some (noCache, some answer) => s.replyLocally (prefetchRequest request noCache) answer

def dnsServerDoQuery (request : Request) : Route → Replies
  | .rule answer => s.replyLocally request answer
  | .cached ttl refresh => (s.dnsServerProcessCachePacket request ttl).prefetch request refresh
  | .forward => s.dnsServerSetToPendingList request

/-- The requests that no client sends: the child of a `CNAME` rule or of DNS64, the
query for the other address family, and `dns_server_query`. -/
inductive OwnRequest
  | child (parent : Nat) (domain : QName) (qtype : Nat)
  | dualstack (request : Nat) (qtype : Nat)
  | query (domain : QName) (qtype serverFlags : Nat) (ecs : Option OptEcs)

def newRequest (domain : QName) (qtype serverFlags : Nat) (dnsGroupName : CStr) (noCache : Bool)
    (ecs : Option OptEcs) (subnetOf : Option Nat) : Request :=
  ⟨none, 0, domain, none, qtype, serverFlags, dnsGroupName, noCache, ecs, subnetOf⟩

/-- `_dns_server_new_child_request`, `_dns_server_query_dualstack` and
`dns_server_query`.  A child inherits the client-subnet option. -/
def ownRequest (dnsGroupName : CStr) (noCache : Bool) : OwnRequest → Option Request
  | .child parent domain qtype =>
    s.jobs[parent]?.map (fun job =>
      newRequest domain qtype job.request.serverFlags dnsGroupName noCache job.request.ecs
        job.request.subnetOf)
  | .dualstack request qtype =>
    s.jobs[request]?.map (fun job =>
      newRequest job.request.domain qtype job.request.serverFlags dnsGroupName noCache none none)
  | .query domain qtype serverFlags ecs =>
    some (newRequest domain qtype serverFlags dnsGroupName noCache ecs none)

inductive Event
  /-- A query of a client. -/
  | recv (query : Query) (dnsGroupName : CStr) (noCache : Bool) (route : Route)
  /-- A request of the server's own. -/
  | own (request : OwnRequest) (dnsGroupName : CStr) (noCache : Bool) (route : Route)
  /-- A request is completed with what it has found out. -/
  | post (job : Nat) (answer : Answer) (doReply : Bool)
  /-- A request is answered with the packet of an upstream server. -/
  | pass (job : Nat) (message : Message) (answer : Answer)
  /-- An entry leaves the cache. -/
  | forget (key : CacheKey)

def step : Event → Replies
  | .recv query dnsGroupName noCache route =>
    s.dnsServerDoQuery (dnsServerParserRequest query dnsGroupName noCache) route
  | .own request dnsGroupName noCache route =>
    match s.ownRequest dnsGroupName noCache request with
    | none => s
    | some request => s.dnsServerDoQuery request route
  | .post job answer doReply => s.dnsRequestPost job answer doReply
  | .pass job message answer => s.dnsServerReplyPassthrough job message answer
  | .forget key => { s with cache := s.cache.filter (fun e => e.1.compared ≠ key.compared) }

end Replies

end SmartDns.Server
