import SmartDns.Server.Replies

/-!
# The question of a reply

A reply carries the id of its request, and the name as the client spelled it.  But a
request that is all in lower case has no `original_domain`: nothing sets the name
back in a buffer that was changed for a client with capital letters.
-/

namespace SmartDns.Server

open List

variable {ttl : Int} {domain name : QName} {message : Message} {r : Request} {doReply : Bool}
variable {out : Message × List (Asked × Message)} {s : Replies}

/-- A reply carries the id and the name of the question it answers. -/
def Matches (reply : Asked × Message) : Prop :=
  reply.2.id = reply.1.id ∧ ∀ q ∈ reply.2.questions, q = reply.1.name

/-! ## What an update does to the questions -/

theorem update_questions_none (message : Message) (id : UInt16) (ttl : Int) :
    (dnsPacketUpdate message ⟨id, ttl, none⟩).questions = message.questions := by
  exact map_id' _

/-! ## Requests -/

/-- A request keeps the lower case of its name, and the name as the client spelled it
when that is another one. -/
structure Request.Proper (r : Request) : Prop where
  lower : r.domain.lower = r.domain
  original : ∀ name, r.originalDomain = some name → name.lower = r.domain
  asked : ∀ asked, r.conn = some asked →
    r.id = asked.id ∧ r.originalDomain.getD r.domain = asked.name

theorem dnsServerParserRequest_proper (query : Query) (dnsGroupName : CStr) (noCache : Bool) :
    (dnsServerParserRequest query dnsGroupName noCache).Proper := by
  constructor
  · exact QName.lower_lower _
  · intro name hname
    simp only [dnsServerParserRequest] at hname ⊢
    split at hname
    · cases hname
      rfl
    · cases hname
  intro asked hasked
  cases hasked
  refine ⟨rfl, ?_⟩
  simp only [dnsServerParserRequest]
  cases hcase : query.asked.name.caseChanged with
  | true => rfl
  | false => exact QName.lower_eq_self hcase

theorem newRequest_proper
    (h : domain.lower = domain) (qtype serverFlags : Nat) (dnsGroupName : CStr) (noCache : Bool)
    (ecs : Option Dns.OptEcs) (subnetOf : Option Nat) :
    (Replies.newRequest domain qtype serverFlags dnsGroupName noCache ecs subnetOf).Proper := by
  constructor
  · exact h
  · rintro name ⟨⟩
  · rintro asked ⟨⟩

theorem prefetchRequest_proper (hr : r.Proper) (noCache : Bool) :
    (Replies.prefetchRequest r noCache).Proper :=
  newRequest_proper hr.lower _ _ _ _ _ _

namespace Replies

/-! ## One buffer for several requests -/

/-- A client waits for the answer to this request and spelled the name with capital
letters. -/
def Capital (r : Request) : Prop :=
  r.conn.isSome = true ∧ r.originalDomain.isSome = true

instance (r : Request) : Decidable (Capital r) :=
  inferInstanceAs (Decidable (_ ∧ _))

/-- No client that spelled the name in lower case is answered behind one that did not. -/
def SpelledInOrder (requests : List Request) : Prop :=
  requests.Pairwise (fun earlier later =>
    Capital earlier → later.conn.isSome = true → later.originalDomain.isSome = true)

instance (requests : List Request) : Decidable (SpelledInOrder requests) :=
  inferInstanceAs (Decidable (List.Pairwise _ _))

/-- The buffer in front of the replies to `requests`: it spells the name, and it does
so in lower case when a client that spelled it so is still to be answered. -/
structure Buffer (domain : QName) (requests : List Request) (message : Message) : Prop where
  spells : ∀ q ∈ message.questions, q.lower = domain
  lower : ∀ r ∈ requests, r.conn.isSome = true → r.originalDomain = none →
    ∀ q ∈ message.questions, q = domain

theorem Buffer.tail {requests : List Request} (h : Buffer domain (r :: requests) message) :
    Buffer domain requests message where
  spells := h.spells
  lower := fun r' hr' => h.lower r' (mem_cons_of_mem _ hr')

theorem Buffer.of_lower (hdomain : domain.lower = domain) (h : ∀ q ∈ message.questions, q = domain)
    (requests : List Request) :
    Buffer domain requests message where
  spells := by
    intro q hq
    rw [h q hq, hdomain]
  lower := fun _ _ _ _ => h

/-- The reply to one request matches it, and the buffer serves the rest. -/
theorem dnsReplyInpacket_matches
    {rest : List Request} (hr : r.Proper) (horder : doReply = true → SpelledInOrder (r :: rest))
    (hbuffer : Buffer r.domain (r :: rest) out.1) (hsent : ∀ reply ∈ out.2, Matches reply) :
    Buffer r.domain rest (dnsReplyInpacket r doReply ttl out).1 ∧
      ∀ reply ∈ (dnsReplyInpacket r doReply ttl out).2, Matches reply := by
  unfold dnsReplyInpacket
  cases hconn : r.conn with
  | none => exact ⟨hbuffer.tail, hsent⟩
  | some asked =>
  cases doReply with
  | false => exact ⟨hbuffer.tail, hsent⟩
  | true =>
  obtain ⟨hid, hname⟩ := hr.asked asked hconn
  have hlater := (pairwise_cons.mp (horder rfl)).1
  cases horiginal : r.originalDomain with
  | none =>
    rw [horiginal, Option.getD_none] at hname
    have hlower := hbuffer.lower r mem_cons_self (by simp [hconn]) horiginal
    have hquestions := update_questions_none out.1 r.id ttl
    refine ⟨Buffer.of_lower hr.lower ?_ rest, ?_⟩
    · intro q hq
      exact hlower q (hquestions ▸ hq)
    intro reply hreply
    rcases mem_append.mp hreply with hold | hnew
    · exact hsent reply hold
    rw [mem_singleton.mp hnew]
    refine ⟨hid, ?_⟩
    intro q hq
    rw [← hname]
    exact hlower q (hquestions ▸ hq)
  | some name =>
  rw [horiginal, Option.getD_some] at hname
  have hspelled := hr.original name horiginal
  have hquestions : ∀ q ∈ (dnsPacketUpdate out.1 ⟨r.id, ttl, some name⟩).questions,
      q = name := by
    intro q hq
    obtain ⟨old, hold, rfl⟩ := mem_map.mp hq
    have hsame := (hbuffer.spells old hold).trans hspelled.symm
    simp [dnsUpdateRrDomain, QName.same_iff.mpr hsame]
  refine ⟨⟨?_, ?_⟩, ?_⟩
  · intro q hq
    rw [hquestions q hq, hspelled]
  · -- every later client has spelled the name with capital letters
    intro r' hr' hconn' hnone
    have hsome := hlater r' hr' ⟨by simp [hconn], by simp [horiginal]⟩ hconn'
    simp [hnone] at hsome
  intro reply hreply
  rcases mem_append.mp hreply with hold | hnew
  · exact hsent reply hold
  rw [mem_singleton.mp hnew]
  refine ⟨hid, ?_⟩
  intro q hq
  rw [← hname]
  exact hquestions q hq

theorem replyWaiters_matches
    {waiters : List Request} (hproper : ∀ w ∈ waiters, w.Proper ∧ w.domain = domain)
    (horder : doReply = true → SpelledInOrder waiters) (hbuffer : Buffer domain waiters out.1)
    (hsent : ∀ reply ∈ out.2, Matches reply) :
    ∀ reply ∈ (replyWaiters doReply ttl waiters out).2, Matches reply := by
  induction waiters generalizing out with
  | nil => exact hsent
  | cons w rest ih =>
    obtain ⟨hw, rfl⟩ := hproper w mem_cons_self
    obtain ⟨hbuffer', hsent'⟩ := dnsReplyInpacket_matches hw horder hbuffer hsent
    exact ih (fun w' hw' => hproper w' (mem_cons_of_mem _ hw'))
      (fun h => (pairwise_cons.mp (horder h)).2) hbuffer' hsent'

theorem replyAll_matches {waiters : List Request} {answer : Answer} (hr : r.Proper)
    (hproper : ∀ w ∈ waiters, w.Proper ∧ w.domain = r.domain)
    (horder : doReply = true → SpelledInOrder (r :: waiters))
    (hmessage : ∀ q ∈ message.questions, q = r.domain)
    (hsent : ∀ reply ∈ s.replies, Matches reply) :
    ∀ reply ∈ (s.replyAll r waiters answer doReply message).replies, Matches reply := by
  obtain ⟨hbuffer, hsent'⟩ := @dnsReplyInpacket_matches answer.replyTtl r doReply
    (message, s.replies) waiters hr horder (Buffer.of_lower hr.lower hmessage _) hsent
  exact replyWaiters_matches hproper (fun h => (pairwise_cons.mp (horder h)).2) hbuffer hsent'

/-! ## The cache -/

/-- The packets of the cache spell their question in lower case. -/
def CacheNamed (s : Replies) : Prop :=
  ∀ e ∈ s.cache, ∃ name : QName, e.1.domain = name.text ∧ ∀ q ∈ e.2.questions, q = name.lower

/-- Keys that the cache takes for one belong to names of one spelling. -/
theorem lower_eq_of_compared {a b : Cache.CacheKey} {name' : QName} (ha : a.domain = name.text)
    (hb : b.domain = name'.text) (h : a.compared = b.compared) :
    name.lower = name'.lower := by
  have hbytes := congrArg Prod.fst h
  simp only [Cache.CacheKey.compared, ha, hb] at hbytes
  have hfits : name.text.bytes.length ≤ 256 := name.fits.le
  have hfits' : name'.text.bytes.length ≤ 256 := name'.fits.le
  rw [take_of_length_le hfits, take_of_length_le hfits'] at hbytes
  exact QName.ext hbytes

theorem CacheNamed.lookup
    (hs : s.CacheNamed) (hr : r.Proper) (h : s.lookup r.cacheKey = some message) :
    ∀ q ∈ message.questions, q = r.domain := by
  obtain ⟨e, hfind, rfl⟩ := Option.map_eq_some_iff.mp h
  obtain ⟨name, hname, hquestions⟩ := hs e (mem_of_find?_eq_some hfind)
  have hcompared : e.1.compared = r.cacheKey.compared := by simpa using find?_some hfind
  intro q hq
  rw [hquestions q hq, lower_eq_of_compared hname rfl hcompared, hr.lower]

theorem CacheNamed.reply
    (hs : s.CacheNamed) (hr : r.Proper) (hmessage : ∀ q ∈ message.questions, q = r.domain)
    (answer : Answer) :
    (s.dnsCacheReplyPacket r answer message).CacheNamed := by
  unfold dnsCacheReplyPacket
  split
  · intro e he
    rcases mem_cons.mp he with rfl | he
    · refine ⟨r.domain, rfl, ?_⟩
      intro q hq
      rw [hr.lower]
      exact hmessage q hq
    · exact hs e (mem_of_mem_filter he)
  · exact hs

theorem dnsSetupDnsPacket_questions (r : Request) (answer : Answer) :
    ∀ q ∈ (dnsSetupDnsPacket r answer).questions, q = r.domain := by
  intro q hq
  unfold dnsSetupDnsPacket at hq
  split at hq
  · cases hq
  split at hq
  · exact mem_singleton.mp hq
  · exact mem_singleton.mp hq

/-! ## Runs of the server -/

/-- The requests of a pending list ask for one name. -/
structure Job.Proper (job : Job) : Prop where
  request : job.request.Proper
  waiters : ∀ w ∈ job.waiters, w.Proper ∧ w.domain = job.request.domain

/-- Every request and every packet of the cache is spelled as it should be, and every
reply matched its question. -/
structure Named (s : Replies) : Prop where
  cache : s.CacheNamed
  jobs : ∀ job ∈ s.jobs, Job.Proper job
  replies : ∀ reply ∈ s.replies, Matches reply

/--
The letter case is safe in this step.  The server's own requests and the packets
of the upstream servers are spelled in lower case, as the questions to the
upstream servers are; no client that spelled the name in lower case is answered
behind one that did not; and no packet of the cache that is too long to be copied
answers a client with capital letters.
-/
def KeepsCase (s : Replies) : Event → Prop
  | .recv query dnsGroupName noCache (.cached _ _) =>
    ∀ message, s.lookup (dnsServerParserRequest query dnsGroupName noCache).cacheKey =
      some message → query.asked.name.caseChanged = true → message.size < inPacksize
  | .recv _ _ _ _ => True
  | .own (.child _ domain _) _ _ _ => domain.caseChanged = false
  | .own (.dualstack _ _) _ _ _ => True
  | .own (.query domain _ _ _) _ _ _ => domain.caseChanged = false
  | .post i _ doReply =>
    ∀ job, s.jobs[i]? = some job → doReply = true →
      SpelledInOrder (job.request :: job.waiters)
  | .pass i message _ =>
    ∀ job, s.jobs[i]? = some job →
      SpelledInOrder (job.request :: job.waiters) ∧
        ∀ q ∈ message.questions, q = job.request.domain
  | .forget _ => True

theorem Named.replyLocally (hs : s.Named) (hr : r.Proper) (answer : Answer) :
    (s.replyLocally r answer).Named where
  cache := hs.cache.reply hr (dnsSetupDnsPacket_questions r answer) answer
  jobs := by simpa [Replies.replyLocally, Replies.replyAll] using hs.jobs
  replies :=
    replyAll_matches hr (by simp) (fun _ => pairwise_singleton _ _)
      (dnsSetupDnsPacket_questions r answer) (by simpa using hs.replies)

theorem Named.takeList {i : Nat} {job : Job} (hs : s.Named) (hjob : Job.Proper job) :
    (s.takeList i job).Named where
  cache := hs.cache
  jobs := by
    intro job' hjob'
    rcases mem_or_eq_of_mem_set hjob' with hold | rfl
    · exact hs.jobs job' hold
    · exact ⟨hjob.request, by simp⟩
  replies := hs.replies

/-- A request and the list it leads are answered with one packet. -/
theorem Named.answered
    {i : Nat} {job : Job} (hs : s.Named) (hjob : Job.Proper job) (answer : Answer)
    (doReply : Bool) (horder : doReply = true → SpelledInOrder (job.request :: job.waiters))
    (hmessage : ∀ q ∈ message.questions, q = job.request.domain) :
    (((s.dnsCacheReplyPacket job.request answer message).replyAll job.request job.waiters answer
      doReply message).takeList i job).Named := by
  refine Named.takeList ⟨?_, ?_, ?_⟩ hjob
  · exact hs.cache.reply hjob.request hmessage answer
  · simpa [Replies.replyAll] using hs.jobs
  · exact replyAll_matches hjob.request hjob.waiters horder hmessage (by simpa using hs.replies)

theorem Named.setToPendingList (hs : s.Named) (hr : r.Proper) :
    (s.dnsServerSetToPendingList r).Named := by
  unfold dnsServerSetToPendingList
  split
  next i hfind =>
    refine ⟨hs.cache, ?_, hs.replies⟩
    obtain ⟨hi, htakes, -⟩ := findIdx?_eq_some_iff_getElem.mp hfind
    intro job hjob
    obtain ⟨j, hj, rfl⟩ := mem_iff_getElem.mp hjob
    have hjs : j < s.jobs.length := by simpa using hj
    have hold := hs.jobs s.jobs[j] (getElem_mem hjs)
    by_cases hij : i = j
    · subst hij
      simp only [getElem_modify_eq]
      refine ⟨hold.request, ?_⟩
      intro w hw
      rcases mem_append.mp hw with hw | hw
      · exact hold.waiters w hw
      · cases mem_singleton.mp hw
        simp only [Job.takes, Bool.and_eq_true, decide_eq_true_eq] at htakes
        exact ⟨hr, htakes.2.2.symm⟩
    · simpa [getElem_modify, hij] using hold
  · refine ⟨hs.cache, ?_, hs.replies⟩
    intro job hjob
    rcases mem_append.mp hjob with hjob | hjob
    · exact hs.jobs job hjob
    · rw [mem_singleton.mp hjob]
      exact ⟨hr, by simp⟩

theorem dnsReplyInpacket_questions (h : r.conn.isSome = true → r.originalDomain = none) :
    (dnsReplyInpacket r doReply ttl out).1.questions = out.1.questions := by
  unfold dnsReplyInpacket
  cases hconn : r.conn with
  | none => rfl
  | some asked =>
    cases doReply with
    | false => rfl
    | true =>
      rw [h (by simp [hconn])]
      exact update_questions_none out.1 r.id ttl

theorem Named.processCachePacket (hs : s.Named) (hr : r.Proper) (ttl : Int)
    (hsafe : ∀ message, s.lookup r.cacheKey = some message → r.originalDomain.isSome = true →
      message.size < inPacksize) :
    (s.dnsServerProcessCachePacket r ttl).Named := by
  unfold dnsServerProcessCachePacket
  cases hfound : s.lookup r.cacheKey with
  | none => exact hs
  | some message =>
  have hspelled := hs.cache.lookup hr hfound
  refine ⟨?_, hs.jobs, ?_⟩
  · intro e he
    obtain ⟨old, hold, rfl⟩ := mem_map.mp he
    obtain ⟨name, hname, hquestions⟩ := hs.cache old hold
    split
    next hchanged =>
      -- the packet is not copied, so no name is written into it
      have hnone : r.originalDomain = none := by
        rw [← Option.not_isSome_iff_eq_none]
        intro hsome
        have hsmall := hsafe message hfound hsome
        have hplace := hchanged.1
        simp only [inPlace, Bool.or_eq_true, decide_eq_true_eq] at hplace
        rcases hplace with hplace | hplace
        · cases horiginal : r.originalDomain with
          | none => simp [horiginal] at hsome
          | some d => simp [horiginal] at hplace
        · omega
      refine ⟨name, hname, ?_⟩
      intro q hq
      rw [dnsReplyInpacket_questions (fun _ => hnone)] at hq
      rw [hspelled q hq, lower_eq_of_compared hname rfl hchanged.2, hr.lower]
    · exact ⟨name, hname, hquestions⟩
  · exact (@dnsReplyInpacket_matches ttl r true (message, s.replies) [] hr
      (fun _ => pairwise_singleton _ _) (Buffer.of_lower hr.lower hspelled _)
      hs.replies).2

theorem Named.prefetch (hs : s.Named) (hr : r.Proper) (refresh : Option (Bool × Option Answer)) :
    (s.prefetch r refresh).Named := by
  rcases refresh with _ | ⟨noCache, _ | answer⟩
  · exact hs
  · exact hs.setToPendingList (prefetchRequest_proper hr noCache)
  · exact hs.replyLocally (prefetchRequest_proper hr noCache) answer

theorem Named.doQuery {route : Route} (hs : s.Named) (hr : r.Proper)
    (hsafe : ∀ ttl refresh, route = .cached ttl refresh → ∀ message,
      s.lookup r.cacheKey = some message → r.originalDomain.isSome = true →
        message.size < inPacksize) :
    (s.dnsServerDoQuery r route).Named := by
  cases route with
  | rule answer => exact hs.replyLocally hr answer
  | cached ttl refresh =>
    exact (hs.processCachePacket hr ttl (hsafe ttl refresh rfl)).prefetch hr refresh
  | forward => exact hs.setToPendingList hr

/-- The server's own requests have no client, and no other spelling of their name. -/
theorem Named.ownRequest
    {dnsGroupName : CStr} {noCache : Bool} {own : OwnRequest} {route : Route} (hs : s.Named)
    (hcase : s.KeepsCase (.own own dnsGroupName noCache route))
    (h : s.ownRequest dnsGroupName noCache own = some r) :
    r.Proper ∧ r.originalDomain = none := by
  cases own with
  | child parent domain qtype =>
    obtain ⟨job, -, rfl⟩ := Option.map_eq_some_iff.mp h
    exact ⟨newRequest_proper (QName.lower_eq_self hcase) _ _ _ _ _ _, rfl⟩
  | dualstack request qtype =>
    obtain ⟨job, hjob, rfl⟩ := Option.map_eq_some_iff.mp h
    have hproper := hs.jobs job (mem_of_getElem? hjob)
    exact ⟨newRequest_proper hproper.request.lower _ _ _ _ _ _, rfl⟩
  | query domain qtype serverFlags ecs =>
    cases h
    exact ⟨newRequest_proper (QName.lower_eq_self hcase) _ _ _ _ _ _, rfl⟩

theorem named_step (s : Replies) (e : Event) (hs : s.Named) (hcase : s.KeepsCase e) :
    (s.step e).Named := by
  cases e with
  | recv query dnsGroupName noCache route =>
    apply hs.doQuery (dnsServerParserRequest_proper query dnsGroupName noCache)
    rintro ttl refresh rfl message hfound hsome
    apply hcase message hfound
    cases hchanged : query.asked.name.caseChanged with
    | true => rfl
    | false => simp [dnsServerParserRequest, hchanged] at hsome
  | own own dnsGroupName noCache route =>
    simp only [step]
    cases hown : s.ownRequest dnsGroupName noCache own with
    | none => exact hs
    | some r =>
      obtain ⟨hr, hnone⟩ := hs.ownRequest hcase hown
      apply hs.doQuery hr
      intro _ _ _ _ _ hsome
      simp [hnone] at hsome
  | post i answer doReply =>
    simp only [step, dnsRequestPost]
    cases hjob : s.jobs[i]? with
    | none => exact hs
    | some job =>
      exact hs.answered (hs.jobs job (mem_of_getElem? hjob)) answer doReply
        (hcase job hjob) (dnsSetupDnsPacket_questions _ _)
  | pass i message answer =>
    simp only [step, dnsServerReplyPassthrough]
    cases hjob : s.jobs[i]? with
    | none => exact hs
    | some job =>
      obtain ⟨horder, hmessage⟩ := hcase job hjob
      exact hs.answered (hs.jobs job (mem_of_getElem? hjob)) answer true
        (fun _ => horder) hmessage
  | forget key => exact ⟨fun e he => hs.cache e (mem_of_mem_filter he), hs.jobs, hs.replies⟩

/-- **Every reply matches its question.**  In every run in which the letter case is
safe in each step, each packet sent to a client carries the id of its request and
the name exactly as the client spelled it. -/
theorem replies_match (events : List Event) (hcase : Admissible step KeepsCase {} events) :
    ∀ reply ∈ (run step {} events).replies,
      reply.2.id = reply.1.id ∧ ∀ q ∈ reply.2.questions, q = reply.1.name := by
  have hnamed : (run step {} events).Named := by
    apply run_invariant step Named named_step _ hcase
    exact ⟨by simp [CacheNamed], by simp, by simp⟩
  exact hnamed.replies

/-- A short name. -/
def exampleName (b : UInt8) (h : b ≠ 0) : QName where
  text := ⟨[b], by simpa using h⟩
  fits := by simp [Dns.maxCnameLen]

/-- The name `a`, spelled with a small letter or with a capital one. -/
def smallName : QName := exampleName 97 (by decide)

def capitalName : QName := exampleName 65 (by decide)

/-- A query for the address of `a`. -/
def exampleQuery (client : Nat) (id : UInt16) (name : QName) : Query :=
  ⟨⟨client, id, name⟩, 1, 0, none⟩

def exampleAnswer : Answer :=
  ⟨0, false, [⟨smallName, 1, 60⟩], false, 33, 60, 60, true⟩

/-- A client asks, another client asks for the same name with a capital letter while
the first one waits, and a third one is answered from the cache. -/
def smallFirst : List Event :=
  [.recv (exampleQuery 1 11 smallName) default false .forward,
    .recv (exampleQuery 2 22 capitalName) default false .forward, .post 0 exampleAnswer true,
    .recv (exampleQuery 3 33 capitalName) default false (.cached 50 none)]

theorem replies_match_smallFirst :
    Admissible step KeepsCase {} smallFirst ∧ (run step {} smallFirst).replies.length = 3 ∧
      ∀ reply ∈ (run step {} smallFirst).replies,
        reply.2.id = reply.1.id ∧ ∀ q ∈ reply.2.questions, q = reply.1.name := by
  have hcase : Admissible step KeepsCase {} smallFirst := by
    refine ⟨trivial, trivial, ?_, ?_, trivial⟩
    · rintro job ⟨⟩ -
      decide
    · rintro message ⟨⟩ -
      decide
  exact ⟨hcase, by decide, replies_match smallFirst hcase⟩

/--
The first client spells the name with a capital letter.  The second one, which
waits for the same answer, spelled it with a small one, and is sent the name of
the first.
-/
theorem waiter_gets_other_spelling :
    let s := run step {} [.recv (exampleQuery 1 11 capitalName) default false .forward,
        .recv (exampleQuery 2 22 smallName) default false .forward, .post 0 exampleAnswer true]
    s.replies.map (fun reply => (reply.1.name, reply.2.questions)) =
      [(capitalName, [capitalName]), (smallName, [capitalName])] ∧ smallName ≠ capitalName := by
  decide

end Replies
end SmartDns.Server
