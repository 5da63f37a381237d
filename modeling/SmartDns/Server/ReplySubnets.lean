import SmartDns.Server.ReplyNames

/-!
# The client-subnet option of a reply

`_dns_add_rrs` puts the client-subnet option of a request into the packet it is
answered with, and an upstream server may answer differently for different
options.  The cache and the pending lists know nothing of the option, so the packet
may answer other clients.
-/

namespace SmartDns.Server

open List
namespace Replies

variable {r r' : Request} {doReply : Bool} {ttl : Int} {waiters waiters' : List Request}
variable {answer : Answer} {message message' : Message} {i : Nat} {s s' : Replies}

/-! ## Lists that are related element by element -/

section Lists

variable {α β : Type*}
variable {related : α → β → Prop}
variable {l : List α}
variable {l' : List β}

theorem forall₂_getElem? (h : List.Forall₂ related l l') (i : Nat) :
    (l[i]? = none ∧ l'[i]? = none) ∨ ∃ a b, l[i]? = some a ∧ l'[i]? = some b ∧ related a b := by
  induction h generalizing i with
  | nil => exact Or.inl ⟨rfl, rfl⟩
  | cons hab _ ih =>
    cases i with
    | zero => exact Or.inr ⟨_, _, rfl, rfl, hab⟩
    | succ i => exact ih i

theorem forall₂_modify {f : α → α} {g : β → β} (hfg : ∀ a b, related a b → related (f a) (g b))
    (h : List.Forall₂ related l l') (i : Nat) :
    List.Forall₂ related (l.modify i f) (l'.modify i g) := by
  induction h generalizing i with
  | nil => simp
  | cons hab htail ih =>
    cases i with
    | zero => exact .cons (hfg _ _ hab) htail
    | succ i => exact .cons hab (ih i)

end Lists

section Subnets

variable (client : Nat)

/-! ## Two runs -/

/-- The request in this place carries the option of the client. -/
def carries (s : Replies) (i : Nat) : Prop :=
  ∃ job, s.jobs[i]? = some job ∧ job.request.subnetOf = some client

/-- The request in this place is answered. -/
def Event.answers (i : Nat) : Event → Prop
  | .post j _ _ => j = i
  | .pass j _ _ => j = i
  | _ => False

/-- The events are the same, but for the option in a query of the client and for the
answers to requests that carry its option in one of the runs. -/
inductive SameBut (s s' : Replies) : Event → Event → Prop
  | same (e : Event) : SameBut s s' e e
  | option {query : Query} (hclient : query.asked.client = client) (ecs : Option Dns.OptEcs)
      (dnsGroupName : CStr) (noCache : Bool) (route : Route) :
      SameBut s s' (.recv query dnsGroupName noCache route)
        (.recv { query with ecs := ecs } dnsGroupName noCache route)
  | answer {i : Nat} {e e' : Event} (he : e.answers i) (he' : e'.answers i)
      (hcarries : s.carries client i ∨ s'.carries client i) : SameBut s s' e e'

/-- The packet that the server builds for this request does not get to the cache, if the
request carries the option of the client. -/
def NotCached (r : Request) (answer : Answer) : Prop :=
  r.subnetOf = some client → keepsReply r answer (dnsSetupDnsPacket r answer) = false

/-- The packets that rules give to a request are not cached. -/
def RouteKeepsSubnet (r : Request) : Route → Prop
  | .rule answer => NotCached client r answer
  | .cached _ (some (noCache, some answer)) => NotCached client (prefetchRequest r noCache) answer
  | _ => True

/-- The packet of a job does not get to the cache, and no other client waits for it. -/
structure StaysWith (job : Job) (answer : Answer) (doReply : Bool) (message : Message) :
    Prop where
  uncached : keepsReply job.request answer message = false
  waiters : doReply = true → ∀ w ∈ job.waiters, ∀ asked, w.conn = some asked →
    asked.client = client

/--
In this step of a run, beside another run, the option of the client goes to no other
client: a packet for a request that carries the option in one of the runs, built by
the server or passed on from an upstream server, is not put into the cache, and no
other client waits for it.
-/
def KeepsSubnet (s s' : Replies) : Event → Prop
  | .recv query dnsGroupName noCache route =>
    RouteKeepsSubnet client (dnsServerParserRequest query dnsGroupName noCache) route
  | .own own dnsGroupName noCache route =>
    ∀ r, s.ownRequest dnsGroupName noCache own = some r → RouteKeepsSubnet client r route
  | .post i answer doReply =>
    s.carries client i ∨ s'.carries client i → ∀ job, s.jobs[i]? = some job →
      StaysWith client job answer doReply (dnsSetupDnsPacket job.request answer)
  | .pass i message answer =>
    s.carries client i ∨ s'.carries client i → ∀ job, s.jobs[i]? = some job →
      StaysWith client job answer true message
  | .forget _ => True

/-- A pair of steps of two runs that differ only in the option of the client. -/
structure OptionStep (s s' : Replies) (e e' : Event) : Prop where
  same : SameBut client s s' e e'
  keeps : KeepsSubnet client s s' e
  keeps' : KeepsSubnet client s' s e'

/-! ## States that only the client can tell apart -/

/-- One of two requests carries an option of the client. -/
def OneCarries (r r' : Request) : Prop :=
  r.subnetOf = some client ∨ r'.subnetOf = some client

/-- The requests are the same, or one of them carries an option of the client and they
differ in the option only. -/
structure Alike (r r' : Request) : Prop where
  same : ∃ ecs subnetOf, r' = { r with ecs := ecs, subnetOf := subnetOf }
  option : r = r' ∨ OneCarries client r r'
  /-- The option of a client is in a request of the client itself. -/
  owner : ∀ asked, r.conn = some asked → OneCarries client r r' → asked.client = client

structure JobAlike (job job' : Job) : Prop where
  request : Alike client job.request job'.request
  waiters : List.Forall₂ (Alike client) job.waiters job'.waiters
  pending : job.pending = job'.pending

/-- What the other clients have been sent. -/
def toOthers (sent : List (Asked × Message)) : List (Asked × Message) :=
  sent.filter fun reply => reply.1.client ≠ client

structure Indistinguishable (s s' : Replies) : Prop where
  cache : s.cache = s'.cache
  jobs : List.Forall₂ (JobAlike client) s.jobs s'.jobs
  sent : toOthers client s.replies = toOthers client s'.replies

end Subnets

variable {client : Nat}

/-- Two queries of which one is the other with another option of the client. -/
theorem parserRequest_alike {query : Query} {ecs : Option Dns.OptEcs}
    (h : ecs = query.ecs ∨ query.asked.client = client) (dnsGroupName : CStr) (noCache : Bool) :
    Alike client (dnsServerParserRequest query dnsGroupName noCache)
      (dnsServerParserRequest { query with ecs := ecs } dnsGroupName noCache) where
  same := ⟨_, _, rfl⟩
  option := by
    rcases h with rfl | hclient
    · exact Or.inl rfl
    cases hold : query.ecs with
    | some old => exact Or.inr (Or.inl (by simp [dnsServerParserRequest, hold, hclient]))
    | none =>
      cases ecs with
      | some new => exact Or.inr (Or.inr (by simp [dnsServerParserRequest, hclient]))
      | none => exact Or.inl (by simp [dnsServerParserRequest, hold])
  owner := by
    rintro asked ⟨⟩ (hcarries | hcarries)
    all_goals
      obtain ⟨-, -, hclient⟩ := Option.map_eq_some_iff.mp hcarries
      exact hclient

theorem newRequest_alike {ecs ecs' : Option Dns.OptEcs} {subnetOf subnetOf' : Option Nat}
    (h : ecs = ecs' ∧ subnetOf = subnetOf' ∨ subnetOf = some client ∨ subnetOf' = some client)
    (domain : QName) (qtype serverFlags : Nat) (dnsGroupName : CStr) (noCache : Bool) :
    Alike client (newRequest domain qtype serverFlags dnsGroupName noCache ecs subnetOf)
      (newRequest domain qtype serverFlags dnsGroupName noCache ecs' subnetOf') where
  same := ⟨_, _, rfl⟩
  option := by
    rcases h with ⟨rfl, rfl⟩ | h
    · exact Or.inl rfl
    · exact Or.inr h
  owner := by
    rintro asked ⟨⟩

theorem Alike.inherited (h : Alike client r r') :
    r.ecs = r'.ecs ∧ r.subnetOf = r'.subnetOf ∨ r.subnetOf = some client ∨
      r'.subnetOf = some client := by
  rcases h.option with rfl | h
  · exact Or.inl ⟨rfl, rfl⟩
  · exact Or.inr h

theorem Alike.prefetch (h : Alike client r r') (noCache : Bool) :
    Alike client (prefetchRequest r noCache) (prefetchRequest r' noCache) := by
  obtain ⟨ecs, subnetOf, rfl⟩ := h.same
  exact newRequest_alike h.inherited r.domain r.qtype r.serverFlags r.dnsGroupName noCache

theorem Alike.owner' (h : Alike client r r') :
    ∀ asked, r'.conn = some asked → OneCarries client r r' → asked.client = client := by
  obtain ⟨ecs, subnetOf, rfl⟩ := h.same
  exact h.owner

/-! ## Packets that go to the client only -/

/-- A reply to the client does not get to the others. -/
theorem dnsReplyInpacket_toOthers
    (h : doReply = true → ∀ asked, r.conn = some asked → asked.client = client)
    (out : Message × List (Asked × Message)) :
    toOthers client (dnsReplyInpacket r doReply ttl out).2 = toOthers client out.2 := by
  rw [dnsReplyInpacket]
  cases hconn : r.conn with
  | none => rfl
  | some asked =>
    cases doReply with
    | false => rfl
    | true => simp [toOthers, filter_append, h rfl asked hconn]

theorem replyWaiters_toOthers
    (h : doReply = true → ∀ w ∈ waiters, ∀ asked, w.conn = some asked → asked.client = client)
    (out : Message × List (Asked × Message)) :
    toOthers client (replyWaiters doReply ttl waiters out).2 = toOthers client out.2 := by
  induction waiters generalizing out with
  | nil => rfl
  | cons w waiters ih =>
    refine (ih (fun hreply w' hw' => h hreply w' (mem_cons_of_mem _ hw')) _).trans ?_
    exact dnsReplyInpacket_toOthers (fun hreply => h hreply w mem_cons_self) out

/-- A packet that is not cached and goes to the client only leaves no trace for others. -/
theorem replyAll_toOthers (huncached : keepsReply r answer message = false)
    (hconn : ∀ asked, r.conn = some asked → asked.client = client)
    (hwaiters : doReply = true → ∀ w ∈ waiters, ∀ asked, w.conn = some asked →
      asked.client = client) :
    let t := (s.dnsCacheReplyPacket r answer message).replyAll r waiters answer doReply message
    t.cache = s.cache ∧ t.jobs = s.jobs ∧
      toOthers client t.replies = toOthers client s.replies := by
  have hsame : s.dnsCacheReplyPacket r answer message = s := by
    simp [dnsCacheReplyPacket, huncached]
  rw [hsame]
  refine ⟨rfl, rfl, (replyWaiters_toOthers hwaiters _).trans ?_⟩
  exact dnsReplyInpacket_toOthers (fun _ => hconn) _

/-! ## Packets that are the same in both runs -/

theorem dnsReplyInpacket_alike (h : Alike client r r') {out out' : Message × List (Asked × Message)}
    (hbuffer : out.1 = out'.1) (hsent : toOthers client out.2 = toOthers client out'.2) :
    (dnsReplyInpacket r doReply ttl out).1 = (dnsReplyInpacket r' doReply ttl out').1 ∧
      toOthers client (dnsReplyInpacket r doReply ttl out).2 =
        toOthers client (dnsReplyInpacket r' doReply ttl out').2 := by
  obtain ⟨ecs, subnetOf, rfl⟩ := h.same
  simp only [dnsReplyInpacket]
  cases r.conn with
  | none => exact ⟨hbuffer, hsent⟩
  | some asked =>
    cases doReply with
    | false => exact ⟨hbuffer, hsent⟩
    | true =>
      simp only [toOthers, if_true, filter_append, hbuffer, true_and] at hsent ⊢
      rw [hsent]

theorem replyWaiters_alike (h : List.Forall₂ (Alike client) waiters waiters')
    {out out' : Message × List (Asked × Message)} (hbuffer : out.1 = out'.1)
    (hsent : toOthers client out.2 = toOthers client out'.2) :
    toOthers client (replyWaiters doReply ttl waiters out).2 =
      toOthers client (replyWaiters doReply ttl waiters' out').2 := by
  induction h generalizing out out' with
  | nil => exact hsent
  | cons hw _ ih =>
    obtain ⟨hbuffer', hsent'⟩ := dnsReplyInpacket_alike hw hbuffer hsent
    exact ih hbuffer' hsent'

/-! ## Answers to requests that carry the option in one of the runs -/

theorem carries_iff {job job' : Job} (hjob : s.jobs[i]? = some job)
    (hjob' : s'.jobs[i]? = some job') :
    s.carries client i ∨ s'.carries client i ↔ OneCarries client job.request job'.request := by
  simp [carries, OneCarries, hjob, hjob']

theorem answer_toOthers {e : Event} {job : Job} (he : e.answers i) (hjob : s.jobs[i]? = some job)
    (hconn : ∀ asked, job.request.conn = some asked → asked.client = client)
    (hcarries : s.carries client i ∨ s'.carries client i) (hkeeps : KeepsSubnet client s s' e) :
    (s.step e).cache = s.cache ∧
      (s.step e).jobs = s.jobs.set i { job with waiters := [], pending := false } ∧
      toOthers client (s.step e).replies = toOthers client s.replies := by
  cases e with
  | post j answer doReply =>
    obtain rfl : j = i := he
    obtain ⟨huncached, hwaiters⟩ := hkeeps hcarries job hjob
    obtain ⟨hcache, hjobs, hsent⟩ := @replyAll_toOthers _ doReply job.waiters answer _ s client
      huncached hconn hwaiters
    simp only [step, dnsRequestPost, hjob, takeList, hjobs]
    exact ⟨hcache, trivial, hsent⟩
  | pass j message answer =>
    obtain rfl : j = i := he
    obtain ⟨huncached, hwaiters⟩ := hkeeps hcarries job hjob
    obtain ⟨hcache, hjobs, hsent⟩ := @replyAll_toOthers _ true job.waiters answer _ s client
      huncached hconn hwaiters
    simp only [step, dnsServerReplyPassthrough, hjob, takeList, hjobs]
    exact ⟨hcache, trivial, hsent⟩
  | _ => exact he.elim

namespace Indistinguishable

section

variable (h : Indistinguishable client s s')
include h

/-- The same packet goes to all. -/
theorem replyAll (hr : Alike client r r') (hwaiters : List.Forall₂ (Alike client) waiters waiters')
    (message : Message) :
    Indistinguishable client
      ((s.dnsCacheReplyPacket r answer message).replyAll r waiters answer doReply message)
      ((s'.dnsCacheReplyPacket r' answer message).replyAll r' waiters' answer doReply
        message) where
  cache := by
    obtain ⟨ecs, subnetOf, rfl⟩ := hr.same
    simp only [Replies.replyAll, dnsCacheReplyPacket]
    rw [show keepsReply { r with ecs := ecs, subnetOf := subnetOf } answer message =
      keepsReply r answer message from rfl]
    split
    · simp only [insert, h.cache]
      rfl
    · exact h.cache
  jobs := by simpa [Replies.replyAll] using h.jobs
  sent := by
    have hsent : toOthers client (s.dnsCacheReplyPacket r answer message).replies =
      toOthers client (s'.dnsCacheReplyPacket r' answer message).replies := by simpa using h.sent
    obtain ⟨hbuffer, hsent'⟩ := @dnsReplyInpacket_alike r r' doReply answer.replyTtl client hr
      (message, (s.dnsCacheReplyPacket r answer message).replies)
      (message, (s'.dnsCacheReplyPacket r' answer message).replies) rfl hsent
    exact replyWaiters_alike hwaiters hbuffer hsent'

theorem replyLocally (hr : Alike client r r')
    (hnot : NotCached client r answer) (hnot' : NotCached client r' answer) :
    Indistinguishable client (s.replyLocally r answer) (s'.replyLocally r' answer) := by
  by_cases hcarries : OneCarries client r r'
  · -- the packets differ, and both stay with the client
    have hkeeps : keepsReply r' answer (dnsSetupDnsPacket r' answer) =
        keepsReply r answer (dnsSetupDnsPacket r answer) := by
      obtain ⟨ecs, subnetOf, rfl⟩ := hr.same
      simp only [keepsReply, dnsSetupDnsPacket]
      split_ifs <;> rfl
    have huncached : keepsReply r answer (dnsSetupDnsPacket r answer) = false :=
      hcarries.elim hnot fun h => hkeeps ▸ hnot' h
    obtain ⟨hcache, hjobs, hsent⟩ := @replyAll_toOthers r true [] answer _ s client huncached
      (fun asked hasked => hr.owner asked hasked hcarries) (by simp)
    obtain ⟨hcache', hjobs', hsent'⟩ := @replyAll_toOthers r' true [] answer _ s' client
      (hkeeps.trans huncached) (fun asked hasked => hr.owner' asked hasked hcarries) (by simp)
    refine ⟨hcache.trans (h.cache.trans hcache'.symm), ?_, hsent.trans (h.sent.trans hsent'.symm)⟩
    rw [Replies.replyLocally, Replies.replyLocally, hjobs, hjobs']
    exact h.jobs
  · obtain rfl := hr.option.resolve_right hcarries
    exact h.replyAll hr .nil _

theorem takeList {job job' : Job} (hjob : JobAlike client job job') :
    Indistinguishable client (s.takeList i job) (s'.takeList i job') where
  cache := h.cache
  jobs := by
    simp only [Replies.takeList, set_eq_modify]
    exact forall₂_modify (fun _ _ _ => ⟨hjob.request, .nil, rfl⟩) h.jobs i
  sent := h.sent

end

theorem findIdx?_takes {jobs jobs' : List Job} (hjobs : List.Forall₂ (JobAlike client) jobs jobs')
    (hr : Alike client r r') :
    jobs'.findIdx? (fun job => Request.coalesces r' && Job.takes job r') =
      jobs.findIdx? (fun job => Request.coalesces r && Job.takes job r) := by
  obtain ⟨ecs, subnetOf, rfl⟩ := hr.same
  induction hjobs with
  | nil => rfl
  | @cons job job' _ _ hjob _ ih =>
    obtain ⟨⟨ecs', subnetOf', hsame⟩, -, -⟩ := hjob.request
    have htakes : Job.takes job' { r with ecs := ecs, subnetOf := subnetOf } = Job.takes job r := by
      simp [Job.takes, hsame, hjob.pending]
    rw [findIdx?_cons, findIdx?_cons, htakes, ih]
    rfl

variable (h : Indistinguishable client s s')
include h

section

variable (hr : Alike client r r')
include hr

theorem setToPendingList :
    Indistinguishable client (s.dnsServerSetToPendingList r) (s'.dnsServerSetToPendingList r') := by
  unfold dnsServerSetToPendingList
  rw [findIdx?_takes h.jobs hr]
  split
  · refine ⟨h.cache, forall₂_modify ?_ h.jobs _, h.sent⟩
    intro job job' hjob
    exact ⟨hjob.request, rel_append hjob.waiters (.cons hr .nil), hjob.pending⟩
  refine ⟨h.cache, rel_append h.jobs (.cons ⟨hr, .nil, ?_⟩ .nil), h.sent⟩
  obtain ⟨ecs, subnetOf, rfl⟩ := hr.same
  rfl

theorem processCachePacket (ttl : Int) :
    Indistinguishable client (s.dnsServerProcessCachePacket r ttl)
      (s'.dnsServerProcessCachePacket r' ttl) := by
  obtain ⟨ecs, subnetOf, rfl⟩ := hr.same
  have hkey : Request.cacheKey { r with ecs := ecs, subnetOf := subnetOf } = r.cacheKey := rfl
  have hlookup : s'.lookup r.cacheKey = s.lookup r.cacheKey := by simp [lookup, h.cache]
  unfold dnsServerProcessCachePacket
  rw [hkey, hlookup]
  cases s.lookup r.cacheKey with
  | none => exact h
  | some message =>
  obtain ⟨-, hsent⟩ := @dnsReplyInpacket_alike r _ true ttl client hr (message, s.replies)
    (message, s'.replies) rfl h.sent
  refine ⟨?_, h.jobs, hsent⟩
  simp only [h.cache, dnsReplyInpacket]
  cases r.conn <;> rfl

theorem prefetch {refresh : Option (Bool × Option Answer)}
    (hkeeps : RouteKeepsSubnet client r (.cached ttl refresh))
    (hkeeps' : RouteKeepsSubnet client r' (.cached ttl refresh)) :
    Indistinguishable client (s.prefetch r refresh) (s'.prefetch r' refresh) := by
  rcases refresh with _ | ⟨noCache, _ | answer⟩
  · exact h
  · exact h.setToPendingList (hr.prefetch noCache)
  · exact h.replyLocally (hr.prefetch noCache) hkeeps hkeeps'

theorem doQuery {route : Route}
    (hkeeps : RouteKeepsSubnet client r route) (hkeeps' : RouteKeepsSubnet client r' route) :
    Indistinguishable client (s.dnsServerDoQuery r route) (s'.dnsServerDoQuery r' route) := by
  cases route with
  | rule answer => exact h.replyLocally hr hkeeps hkeeps'
  | cached ttl refresh => exact (h.processCachePacket hr ttl).prefetch hr hkeeps hkeeps'
  | forward => exact h.setToPendingList hr

end

theorem ownRequest (dnsGroupName : CStr) (noCache : Bool) (own : OwnRequest) :
    (s.ownRequest dnsGroupName noCache own = none ∧ s'.ownRequest dnsGroupName noCache own = none) ∨
      ∃ r r', s.ownRequest dnsGroupName noCache own = some r ∧
        s'.ownRequest dnsGroupName noCache own = some r' ∧ Alike client r r' := by
  cases own with
  | child parent domain qtype =>
    simp only [Replies.ownRequest]
    rcases forall₂_getElem? h.jobs parent with ⟨hnone, hnone'⟩ | ⟨job, job', hj, hj', hjob⟩
    · exact Or.inl (by simp [hnone, hnone'])
    obtain ⟨ecs, subnetOf, hsame⟩ := hjob.request.same
    have hflags : job'.request.serverFlags = job.request.serverFlags := by rw [hsame]
    refine Or.inr ⟨_, _, by rw [hj]; rfl, by rw [hj']; rfl, ?_⟩
    simp only [hflags]
    exact newRequest_alike hjob.request.inherited _ _ _ _ _
  | dualstack request qtype =>
    simp only [Replies.ownRequest]
    rcases forall₂_getElem? h.jobs request with ⟨hnone, hnone'⟩ | ⟨job, job', hj, hj', hjob⟩
    · exact Or.inl (by simp [hnone, hnone'])
    obtain ⟨ecs, subnetOf, hsame⟩ := hjob.request.same
    have hflags : job'.request.serverFlags = job.request.serverFlags := by rw [hsame]
    have hdomain : job'.request.domain = job.request.domain := by rw [hsame]
    refine Or.inr ⟨_, _, by rw [hj]; rfl, by rw [hj']; rfl, ?_⟩
    simp only [hflags, hdomain]
    exact newRequest_alike (Or.inl ⟨rfl, rfl⟩) _ _ _ _ _
  | query domain qtype serverFlags ecs => exact Or.inr ⟨_, _, rfl, rfl,
    newRequest_alike (Or.inl ⟨rfl, rfl⟩) _ _ _ _ _⟩

/-- A request that carries the option in one of the runs is answered, perhaps differently. -/
theorem answered {e e' : Event} (he : e.answers i) (he' : e'.answers i)
    (hcarries : s.carries client i ∨ s'.carries client i) (hkeeps : KeepsSubnet client s s' e)
    (hkeeps' : KeepsSubnet client s' s e') : Indistinguishable client (s.step e) (s'.step e') := by
  rcases forall₂_getElem? h.jobs i with ⟨hnone, hnone'⟩ | ⟨job, job', hj, hj', hjob⟩
  · simp [carries, hnone, hnone'] at hcarries
  have hone := (carries_iff hj hj').mp hcarries
  obtain ⟨hcache, hjobs, hsent⟩ := answer_toOthers he hj
    (fun asked hasked => hjob.request.owner asked hasked hone) hcarries hkeeps
  obtain ⟨hcache', hjobs', hsent'⟩ := answer_toOthers he' hj'
    (fun asked hasked => hjob.request.owner' asked hasked hone) hcarries.symm hkeeps'
  refine ⟨hcache.trans (h.cache.trans hcache'.symm), ?_, hsent.trans (h.sent.trans hsent'.symm)⟩
  rw [hjobs, hjobs', set_eq_modify, set_eq_modify]
  exact forall₂_modify (fun _ _ _ => ⟨hjob.request, .nil, rfl⟩) h.jobs i

/-- Any other request is answered with the same packet. -/
theorem answeredAlike {job job' : Job} (hjob : JobAlike client job job') (message : Message) :
    Indistinguishable client
      (((s.dnsCacheReplyPacket job.request answer message).replyAll job.request job.waiters answer
        doReply message).takeList i job)
      (((s'.dnsCacheReplyPacket job'.request answer message).replyAll job'.request job'.waiters
        answer doReply message).takeList i job') :=
  (h.replyAll hjob.request hjob.waiters message).takeList hjob

end Indistinguishable

theorem indistinguishable_step (s s' : Replies) (e e' : Event) (h : Indistinguishable client s s')
    (hstep : OptionStep client s s' e e') : Indistinguishable client (s.step e) (s'.step e') := by
  obtain ⟨hsame, hkeeps, hkeeps'⟩ := hstep
  cases hsame with
  | option hclient ecs dnsGroupName noCache route =>
    exact h.doQuery (parserRequest_alike (Or.inr hclient) dnsGroupName noCache) hkeeps hkeeps'
  | answer he he' hcarries => exact h.answered he he' hcarries hkeeps hkeeps'
  | same =>
  cases e with
  | recv query dnsGroupName noCache route =>
    exact h.doQuery (parserRequest_alike (Or.inl rfl) dnsGroupName noCache) hkeeps hkeeps'
  | own own dnsGroupName noCache route =>
    simp only [step]
    rcases h.ownRequest dnsGroupName noCache own with ⟨hnone, hnone'⟩ | ⟨r, r', hr, hr', halike⟩
    · rw [hnone, hnone']
      exact h
    · rw [hr, hr']
      exact h.doQuery halike (hkeeps r hr) (hkeeps' r' hr')
  | post i answer doReply =>
    by_cases hcarries : s.carries client i ∨ s'.carries client i
    · exact h.answered rfl rfl hcarries hkeeps hkeeps'
    simp only [step, dnsRequestPost]
    rcases forall₂_getElem? h.jobs i with ⟨hnone, hnone'⟩ | ⟨job, job', hj, hj', hjob⟩
    · rw [hnone, hnone']
      exact h
    rw [carries_iff hj hj'] at hcarries
    have hpacket : dnsSetupDnsPacket job'.request answer =
        dnsSetupDnsPacket job.request answer := by
      rw [hjob.request.option.resolve_right hcarries]
    rw [hj, hj']
    dsimp only
    rw [hpacket]
    exact h.answeredAlike hjob _
  | pass i message answer =>
    by_cases hcarries : s.carries client i ∨ s'.carries client i
    · exact h.answered rfl rfl hcarries hkeeps hkeeps'
    simp only [step, dnsServerReplyPassthrough]
    rcases forall₂_getElem? h.jobs i with ⟨hnone, hnone'⟩ | ⟨job, job', hj, hj', hjob⟩
    · rw [hnone, hnone']
      exact h
    · rw [hj, hj']
      exact h.answeredAlike hjob message
  | forget key =>
    refine ⟨?_, h.jobs, h.sent⟩
    simp only [step, h.cache]

/-- What the other clients have been sent: the questions and the options. -/
def optionsToOthers (client : Nat) (s : Replies) : List (Asked × Option Dns.OptEcs) :=
  (toOthers client s.replies).map (fun reply => (reply.1, reply.2.ecs))

/-- **The option of a client stays with the client.**  Two runs that differ only in the
client-subnet option of one client, and in what is answered to requests with it, send
the same options to all the other clients, if in every step the packets for requests
with the option of that client stay away from the cache and from the requests of
other clients. -/
theorem options_unaffected (client : Nat) (events events' : List Event)
    (h : Alongside step (OptionStep client) {} {} events events') :
    optionsToOthers client (run step {} events) = optionsToOthers client (run step {} events') := by
  have hinit : Indistinguishable client {} {} := ⟨rfl, .nil, rfl⟩
  have hend := run_related step (Indistinguishable client) indistinguishable_step hinit h
  rw [optionsToOthers, optionsToOthers, hend.sent]

/-- The subnet `10.10.10.0/24`. -/
def exampleSubnet : Dns.OptEcs :=
  ⟨1, 24, 0, Vector.replicate 16 10⟩

/-- Client 1 asks with or without its subnet, and the packet of an upstream server that
echoes it is passed on and not cached; then client 2 is answered. -/
def echoRun (ecs : Option Dns.OptEcs) : List Event :=
  [.recv { exampleQuery 1 11 smallName with ecs := ecs } default true .forward,
    .pass 0 ⟨11, 0, [smallName], [⟨smallName, 1, 60⟩], ecs, 33⟩ exampleAnswer,
    .recv (exampleQuery 2 22 smallName) default false .forward, .post 1 exampleAnswer true]

theorem options_unaffected_echoRun :
    optionsToOthers 1 (run step {} (echoRun (some exampleSubnet))) =
        [(⟨2, 22, smallName⟩, none)] ∧
      optionsToOthers 1 (run step {} (echoRun (some exampleSubnet))) =
        optionsToOthers 1 (run step {} (echoRun none)) := by
  have hfirst : SameBut 1 {} {}
      (.recv { exampleQuery 1 11 smallName with ecs := some exampleSubnet } default true .forward)
      (.recv (exampleQuery 1 11 smallName) default true .forward) :=
    @SameBut.option 1 _ _ { exampleQuery 1 11 smallName with ecs := some exampleSubnet } rfl
      none default true .forward
  refine ⟨by decide, options_unaffected 1 _ _ ⟨⟨hfirst, trivial, trivial⟩,
    ⟨.answer rfl rfl (Or.inl ⟨_, rfl, rfl⟩), fun _ => ?_, fun _ => ?_⟩,
    ⟨.same _, trivial, trivial⟩, ⟨.same _, fun hcarries => ?_, fun hcarries => ?_⟩, trivial⟩⟩
  · rintro job ⟨⟩
    exact ⟨rfl, by simp⟩
  · rintro job ⟨⟩
    exact ⟨rfl, by simp⟩
  all_goals rcases hcarries with ⟨job, ⟨⟩, ⟨⟩⟩ | ⟨job, ⟨⟩, ⟨⟩⟩

/-- Client 1 asks with or without its subnet and is answered; then client 2 asks for the
same name. -/
def askedInTurn (ecs : Option Dns.OptEcs) : List Event :=
  [.recv { exampleQuery 1 11 smallName with ecs := ecs } default false .forward,
    .post 0 exampleAnswer true, .recv (exampleQuery 2 22 smallName) default false (.cached 50 none)]

/--
The answer to client 1 is put into the cache with the subnet of that client, and
client 2, which sent no option, is answered from the cache.
-/
theorem cached_subnet_leaks :
    Alongside step (SameBut 1) {} {} (askedInTurn (some exampleSubnet)) (askedInTurn none) ∧
      optionsToOthers 1 (run step {} (askedInTurn (some exampleSubnet))) =
        [(⟨2, 22, smallName⟩, some exampleSubnet)] ∧
      optionsToOthers 1 (run step {} (askedInTurn none)) = [(⟨2, 22, smallName⟩, none)] := by
  refine ⟨⟨?_, .same _, .same _, trivial⟩, by decide, by decide⟩
  exact @SameBut.option 1 _ _ { exampleQuery 1 11 smallName with ecs := some exampleSubnet } rfl
    none default false .forward

end Replies
end SmartDns.Server
