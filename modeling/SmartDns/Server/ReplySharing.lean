import SmartDns.Server.ReplyNames

/-!
# What requests share

Requests of different clients meet in two places.  A packet of the cache answers
many of them, and `_dns_server_process_cache_packet` writes the id, the ttl and the
name of a reply into the packet of the cache itself unless it has made a copy.  And
a request joins the pending list of another one instead of being sent, without a
look at the options that it would have been sent with.
-/

namespace SmartDns.Server

open List
namespace Replies

open Dns (DnsType)

/-! ## The packet of the cache -/

section Served

variable {s : Replies} {message : Message} {r : Request} {ttl : Int}

/-- A request is answered from the cache. -/
def serve (s : Replies) (e : Request × Int) : Replies :=
  s.dnsServerProcessCachePacket e.1 e.2

/-- The packet already is what `dns_packet_update` makes of it for the request. -/
def Unpatched (message : Message) (request : Request) (ttl : Int) : Prop :=
  request.id = message.id ∧
    (∀ rr ∈ message.records, rr.rtype = DnsType.opt.code ∨ ttl < 0 ∨ ttl.toNat = rr.ttl) ∧
    ∀ name, request.originalDomain = some name →
      ∀ q ∈ message.questions ++ message.records.map Rr.owner, q.same name = true → name = q

/-- The request is answered with a copy, or not over a connection, or finds the
packet as it would leave it. -/
def LeavesPacket (s : Replies) (e : Request × Int) : Prop :=
  ∀ message, s.lookup e.1.cacheKey = some message → inPlace e.1 message = true →
    e.1.conn.isSome = true → Unpatched message e.1 e.2

theorem dnsUpdateRrDomain_eq_self_iff {param : UpdateParam} {q : QName} :
    dnsUpdateRrDomain param q = q ↔
      ∀ name, param.queryDomain = some name → q.same name = true → name = q := by
  cases hname : param.queryDomain with
  | none => simp [dnsUpdateRrDomain, hname]
  | some name => by_cases hsame : q.same name = true <;> simp [dnsUpdateRrDomain, hname, hsame]

theorem dnsUpdateAn_eq_self_iff {param : UpdateParam} {rr : Rr} :
    dnsUpdateAn param rr = rr ↔ dnsUpdateRrDomain param rr.owner = rr.owner ∧
      (rr.rtype = DnsType.opt.code ∨ param.ipTtl < 0 ∨ param.ipTtl.toNat = rr.ttl) := by
  obtain ⟨owner, rtype, old⟩ := rr
  by_cases hkept : rtype = DnsType.opt.code ∨ param.ipTtl < 0 <;>
    simp [dnsUpdateAn, ← or_assoc, hkept]

theorem dnsPacketUpdate_eq_self_iff :
    dnsPacketUpdate message ⟨r.id, ttl, r.originalDomain⟩ = message ↔ Unpatched message r ttl := by
  have hmap {α : Type} (f : α → α) (l : List α) : l.map f = l ↔ ∀ a ∈ l, f a = a := by
    simpa using map_inj_left (l := l) (f := f) (g := id)
  obtain ⟨id, rcode, questions, records, ecs, size⟩ := message
  simp only [dnsPacketUpdate, Message.mk.injEq, hmap, dnsUpdateAn_eq_self_iff,
    dnsUpdateRrDomain_eq_self_iff, Unpatched, mem_append, mem_map, true_and, and_true]
  constructor
  · rintro ⟨hid, hquestions, hrecords⟩
    refine ⟨hid, fun rr hrr => (hrecords rr hrr).2, ?_⟩
    rintro name hname q (hq | ⟨rr, hrr, rfl⟩)
    · exact hquestions q hq name hname
    · exact (hrecords rr hrr).1 name hname
  · rintro ⟨hid, hrecords, hnames⟩
    exact ⟨hid, fun q hq name hname => hnames name hname q (.inl hq), fun rr hrr =>
      ⟨fun name hname => hnames name hname _ (.inr ⟨rr, hrr, rfl⟩), hrecords rr hrr⟩⟩

/-- What the cache holds behind a reply for which `message` was found. -/
theorem lookup_serve (hfound : s.lookup r.cacheKey = some message) (key : Cache.CacheKey) :
    (s.serve (r, ttl)).lookup key = if inPlace r message = true ∧ key.compared = r.cacheKey.compared
      then some (dnsReplyInpacket r true ttl (message, s.replies)).1 else s.lookup key := by
  simp only [serve, dnsServerProcessCachePacket, hfound]
  rw [lookup, lookup, find?_map]
  have hkeys (p : Prop) [Decidable p] (e : Cache.CacheKey × Message) (m : Message) :
      (if p then (e.1, m) else e).1 = e.1 := by split <;> rfl
  simp only [Function.comp_def, hkeys]
  cases hentry : s.cache.find? (fun e => e.1.compared = key.compared) with
  | none =>
    rw [if_neg]
    · rfl
    · rintro ⟨-, hkey⟩
      rw [lookup, ← hkey, hentry] at hfound
      cases hfound
  | some entry =>
    have hkey : entry.1.compared = key.compared := by simpa using find?_some hentry
    simp only [Option.map_some, hkey]
    split <;> rfl

/-- A reply leaves the cache alone exactly when it patches nothing. -/
theorem serve_keeps_iff :
    (∀ key, (s.serve (r, ttl)).lookup key = s.lookup key) ↔ s.LeavesPacket (r, ttl) := by
  cases hfound : s.lookup r.cacheKey with
  | none => simp [serve, dnsServerProcessCachePacket, LeavesPacket, hfound]
  | some message =>
  have hkept : s.LeavesPacket (r, ttl) ↔ (inPlace r message = true →
      (dnsReplyInpacket r true ttl (message, s.replies)).1 = message) := by
    cases hconn : r.conn <;>
      simp [LeavesPacket, hfound, dnsReplyInpacket, hconn, dnsPacketUpdate_eq_self_iff]
  simp only [lookup_serve hfound, hkept]
  constructor
  · intro h hplace
    simpa [hplace, hfound] using h r.cacheKey
  · intro h key
    split
    next hin => rw [h hin.1, ← hfound, lookup, lookup, hin.2]
    next => rfl

/--
The packets of the cache stay as they are while requests are answered from it
exactly when each of the requests gets a copy, or has no connection, or finds the
id, the ttls and the spelling of the name that its reply needs.
-/
theorem cached_packets_kept_iff (s : Replies) (requests : List (Request × Int)) :
    (∀ seen, seen <+: requests → ∀ key, (run serve s seen).lookup key = s.lookup key) ↔
      Admissible serve LeavesPacket s requests := by
  refine holds_throughout_iff serve (P := fun t => ∀ key, t.lookup key = s.lookup key)
    (fun t e ht (_ : True) => ?_) (fun _ => rfl) (fun _ _ => trivial)
  simp only [← ht]
  exact serve_keeps_iff

/-- A second client asks for a name that is in the cache, with another id. -/
theorem cached_id_overwritten :
    let s := run step {} [.recv (exampleQuery 1 11 smallName) default false .forward,
      .post 0 exampleAnswer true]
    let request := dnsServerParserRequest (exampleQuery 2 22 smallName) default false
    (s.lookup request.cacheKey).map (fun message => message.id) = some 11 ∧
      ((s.serve (request, 50)).lookup request.cacheKey).map (fun message => message.id) =
        some 22 := by
  decide

end Served

end Replies

/-! ## The pending lists -/

/-- A request with the flag `edns0_do`. -/
structure Asker where
  request : Request
  edns0Do : Bool
deriving DecidableEq

/-- What `_dns_server_setup_query_option` takes from a request beside the name of its
group. -/
def dnsServerSetupQueryOption (r : Asker) : Option Dns.OptEcs × Bool :=
  (r.request.ecs, r.edns0Do)

/-- `struct dns_request_pending_list`. -/
structure RequestPendingList where
  qtype : Nat
  serverFlags : Nat
  domain : QName
  dnsGroupName : CStr
  requestList : List Asker

/-- The test of `_dns_server_set_to_pending_list`. -/
def RequestPendingList.takes (r : Request) (list : RequestPendingList) : Bool :=
  r.qtype = list.qtype && r.serverFlags = list.serverFlags &&
    r.dnsGroupName = list.dnsGroupName && r.domain = list.domain

/-- The fields that the test compares. -/
def RequestPendingList.question (list : RequestPendingList) : Nat × Nat × CStr × QName :=
  (list.qtype, list.serverFlags, list.dnsGroupName, list.domain)

def Asker.question (r : Asker) : Nat × Nat × CStr × QName :=
  (r.request.qtype, r.request.serverFlags, r.request.dnsGroupName, r.request.domain)

section

variable (table : List RequestPendingList)

def joined (r : Asker) : Option Nat :=
  if Replies.Request.coalesces r.request then table.findIdx? (RequestPendingList.takes r.request)
  else none

/-- `_dns_server_set_to_pending_list`; `zalloc` says that there is memory for a new list. -/
def dnsServerSetToPendingList (r : Asker) (zalloc : Bool) : List RequestPendingList :=
  match joined table r with
  | some i => table.modify i fun list => { list with requestList := list.requestList ++ [r] }
  | none =>
    if Replies.Request.coalesces r.request ∧ zalloc then
      ⟨r.request.qtype, r.request.serverFlags, r.request.domain, r.request.dnsGroupName, [r]⟩
        :: table
    else table

/-- A request gets to the pending lists, or the request that leads a list is answered. -/
inductive PendingEvent
  | arrive (r : Asker) (zalloc : Bool)
  | reply (i : Nat)

def pendingStep : PendingEvent → List RequestPendingList
  | .arrive r zalloc => dnsServerSetToPendingList table r zalloc
  | .reply i => table.eraseIdx i

/-- Whoever is on a list would have asked as the request that leads it. -/
def AsksAlike (list : RequestPendingList) : Prop :=
  ∀ first, list.requestList.head? = some first → ∀ r ∈ list.requestList,
    dnsServerSetupQueryOption r = dnsServerSetupQueryOption first

/-- While a request waits, no request for the same type, name and group with the same flags
of the server arrives with another subnet option or another flag `edns0_do`. -/
def ArrivesAlike : PendingEvent → Prop
  | .arrive r _ =>
    Replies.Request.coalesces r.request = true → ∀ list ∈ table, ∀ waiting ∈ list.requestList,
      waiting.question = r.question →
        r.request.ecs = waiting.request.ecs ∧ r.edns0Do = waiting.edns0Do
  | .reply _ => True

/-- The lists have different questions, and every request waits on the list for its own. -/
structure PendingTable : Prop where
  waiting : ∀ list ∈ table, ∀ r ∈ list.requestList, r.question = list.question
  apart : (table.map (·.question)).Nodup
  led : ∀ list ∈ table, list.requestList ≠ []

end

theorem asksAlike_append {list : RequestPendingList} (h : AsksAlike list) (r : Asker) :
    AsksAlike { list with requestList := list.requestList ++ [r] } ↔
      ∀ first, list.requestList.head? = some first →
        r.request.ecs = first.request.ecs ∧ r.edns0Do = first.edns0Do := by
  cases hlist : list.requestList with
  | nil => simp [AsksAlike]
  | cons first rest =>
  have hold := h first (by rw [hlist]; rfl)
  rw [hlist] at hold
  simp only [AsksAlike, cons_append, head?_cons, Option.some.injEq, forall_eq']
  constructor
  · intro hall
    simpa [dnsServerSetupQueryOption] using hall r (by simp)
  · rintro ⟨hecs, hdo⟩ r' hmem
    rcases mem_append.mp (cons_append ▸ hmem) with hmem | hmem
    · exact hold r' hmem
    · rw [mem_singleton.mp hmem, dnsServerSetupQueryOption, hecs, hdo]
      rfl

/-- A property of all entries of a table survives a change of one entry exactly when
the changed entry has it. -/
theorem forall_mem_modify_iff {α : Type} {P : α → Prop} {l : List α} (h : ∀ a ∈ l, P a) {i : Nat}
    {a : α} (ha : l[i]? = some a) (f : α → α) : (∀ b ∈ l.modify i f, P b) ↔ P (f a) := by
  constructor
  · intro hall
    exact hall (f a) (mem_of_getElem? (by simpa using ⟨a, ha, rfl⟩ : (l.modify i f)[i]? = _))
  · intro hf b hb
    obtain ⟨j, hj⟩ := mem_iff_getElem?.mp hb
    rw [getElem?_modify, Option.map_eq_map, Option.map_eq_some_iff] at hj
    obtain ⟨c, hc, rfl⟩ := hj
    split
    next heq =>
      rw [← heq, ha] at hc
      cases hc
      exact hf
    next => exact h c (mem_of_getElem? hc)

variable {table : List RequestPendingList} {r : Asker}

theorem takes_iff {list : RequestPendingList} :
    RequestPendingList.takes r.request list = true ↔ r.question = list.question := by
  simp [RequestPendingList.takes, Asker.question, RequestPendingList.question, and_assoc]

theorem joined_some {i : Nat} (h : joined table r = some i) :
    Replies.Request.coalesces r.request = true ∧
      ∃ list, table[i]? = some list ∧ r.question = list.question := by
  rw [joined] at h
  split at h
  next hcoalesces =>
    obtain ⟨hi, htakes, -⟩ := findIdx?_eq_some_iff_getElem.mp h
    exact ⟨hcoalesces, table[i], getElem?_eq_getElem hi, takes_iff.mp htakes⟩
  next => cases h

theorem joined_none (h : joined table r = none)
    (hcoalesces : Replies.Request.coalesces r.request = true) :
    ∀ list ∈ table, r.question ≠ list.question := by
  intro list hmem hquestion
  rw [joined, if_pos hcoalesces, findIdx?_eq_none_iff] at h
  exact absurd (takes_iff.mpr hquestion) (by simp [h list hmem])

theorem PendingTable.step (h : PendingTable table) (e : PendingEvent) :
    PendingTable (pendingStep table e) := by
  cases e with
  | reply i =>
    refine ⟨fun list hmem => h.waiting list (mem_of_mem_eraseIdx hmem), ?_,
      fun list hmem => h.led list (mem_of_mem_eraseIdx hmem)⟩
    exact h.apart.sublist ((eraseIdx_sublist table i).map _)
  | arrive r zalloc =>
  simp only [pendingStep, dnsServerSetToPendingList]
  cases hjoined : joined table r with
  | none =>
    dsimp only
    split
    next hnew =>
      refine ⟨forall_mem_cons.mpr ⟨by simp [Asker.question, RequestPendingList.question],
        h.waiting⟩, ?_, forall_mem_cons.mpr ⟨by simp, h.led⟩⟩
      refine nodup_cons.mpr ⟨fun hmem => ?_, h.apart⟩
      obtain ⟨list, hlist, hquestion⟩ := mem_map.mp hmem
      exact joined_none hjoined hnew.1 list hlist hquestion.symm
    next => exact h
  | some i =>
    obtain ⟨-, list, hlist, hquestion⟩ := joined_some hjoined
    refine ⟨(forall_mem_modify_iff h.waiting hlist _).mpr ?_, ?_,
      (forall_mem_modify_iff h.led hlist _).mpr (by simp)⟩
    · intro r' hmem
      rcases mem_append.mp hmem with hold | hnew
      · exact h.waiting list (mem_of_getElem? hlist) r' hold
      · rw [mem_singleton.mp hnew]
        exact hquestion
    · convert h.apart using 1
      refine ext_getElem? fun j => ?_
      rw [getElem?_map, getElem?_modify, getElem?_map]
      cases table[j]? with
      | none => rfl
      | some other =>
        dsimp only [Option.map_some]
        split <;> rfl

theorem pendingStep_alike_iff (hok : PendingTable table) (h : ∀ list ∈ table, AsksAlike list)
    (e : PendingEvent) :
    (∀ list ∈ pendingStep table e, AsksAlike list) ↔ ArrivesAlike table e := by
  cases e with
  | reply i => exact iff_of_true (fun list hmem => h list (mem_of_mem_eraseIdx hmem)) trivial
  | arrive r zalloc =>
  simp only [pendingStep, dnsServerSetToPendingList, ArrivesAlike]
  cases hjoined : joined table r with
  | none =>
    refine iff_of_true ?_ fun hcoalesces list hmem waiting hwaiting hsame => ?_
    · dsimp only
      split
      · exact forall_mem_cons.mpr ⟨by simp [AsksAlike], h⟩
      · exact h
    · exact absurd (hsame.symm.trans (hok.waiting list hmem waiting hwaiting))
        (joined_none hjoined hcoalesces list hmem)
  | some i =>
  obtain ⟨hcoalesces, list, hlist, hquestion⟩ := joined_some hjoined
  have hmem := mem_of_getElem? hlist
  rw [forall_mem_modify_iff h hlist, asksAlike_append (h list hmem)]
  constructor
  · intro hfirst _ other hother waiting hwaiting hsame
    -- only the list that is joined has the question of the request
    obtain rfl : other = list := inj_on_of_nodup_map hok.apart hother hmem
      ((hok.waiting other hother waiting hwaiting).symm.trans (hsame.trans hquestion))
    obtain ⟨first, rest, hfront⟩ := exists_cons_of_ne_nil (hok.led other hmem)
    have hhead : other.requestList.head? = some first := by rw [hfront]; rfl
    have hwait := h other hmem first hhead waiting hwaiting
    simp only [dnsServerSetupQueryOption, Prod.mk.injEq] at hwait
    rw [hwait.1, hwait.2]
    exact hfirst first hhead
  · intro hall first hhead
    have hfirst := mem_of_mem_head? hhead
    exact hall hcoalesces list hmem first hfirst
      ((hok.waiting list hmem first hfirst).trans hquestion.symm)

/--
In every state of a run, whoever waits on a pending list would have asked with the
subnet option and the flag of the request that leads the list, exactly when no request
arrives with other ones than those of a request for the same that waits.
-/
theorem pending_asks_alike_iff (events : List PendingEvent) :
    (∀ seen, seen <+: events → ∀ list ∈ run pendingStep [] seen, AsksAlike list) ↔
      Admissible pendingStep ArrivesAlike [] events := by
  have hok (seen : List PendingEvent) : PendingTable (run pendingStep [] seen) :=
    run_invariant pendingStep PendingTable (fun _ e h _ => h.step e)
      ⟨by simp, by simp, by simp⟩ (admissible_true pendingStep [] seen)
  rw [← @holds_throughout_iff _ _ pendingStep
    (fun table => PendingTable table ∧ ∀ list ∈ table, AsksAlike list) _ (fun _ => True)
    (fun table e h _ => ?_) [] ⟨hok [], by simp⟩ events (fun _ _ => trivial)]
  · exact forall₂_congr fun seen _ => (and_iff_right (hok seen)).symm
  · rw [and_iff_right (h.1.step e)]
    exact pendingStep_alike_iff h.1 h.2 e

/-- The first client has set the flag, the second one joins it without. -/
theorem joined_without_flag :
    let asker (client : Nat) (edns0Do : Bool) : Asker :=
      ⟨dnsServerParserRequest (Replies.exampleQuery client 7 Replies.smallName) default false,
        edns0Do⟩
    (run pendingStep [] [.arrive (asker 1 true) true, .arrive (asker 2 false) true]).map
      (fun list => list.requestList.map dnsServerSetupQueryOption) =
        [[(none, true), (none, false)]] := by
  decide

end SmartDns.Server
