import SmartDns.Dns.Layout
import SmartDns.Dns.Question

/-!
# The structure of a packet along a run

Every sequence of `dns_add_*` calls on an initialised packet, successful or
not, keeps the records of the packet apart and their chains in order.

A builder, which makes a record step by step, claims its place only when it ends;
so it is only used while no record was added since its start.
-/

namespace SmartDns.Dns

open Prog
open Image (At ofList)

/-! ## Calls -/

/-- A packet with the builders that its user holds. -/
structure Building where
  packet : Packet
  builders : Nat → RrNested

open Building

def onBuilder (i : Nat) (m : Prog DnsFault Nesting Unit) : Prog DnsFault Building Unit :=
  zoom (fun s => (⟨s.packet, s.builders i⟩ : Nesting))
    (fun s n => ⟨n.packet, Function.update s.builders i n.nested⟩) m

def onBuilt (m : Prog DnsFault Packet Unit) : Prog DnsFault Building Unit :=
  zoom packet (fun s p => { s with packet := p }) m

/-- The functions `dns_add_*`.  The functions `dns_SVCB_add_*` are series of
`dns_add_rr_nested_memcpy`. -/
inductive AddCall
  | addDomain (domain : CStr) (qtype qclass : Nat)
  | addCname (type : RrType) (domain : CStr) (ttl : Nat) (cname : CStr)
  | addPtr (type : RrType) (domain : CStr) (ttl : Nat) (cname : CStr)
  | addNs (type : RrType) (domain : CStr) (ttl : Nat) (cname : CStr)
  | addA (type : RrType) (domain : CStr) (ttl : Nat) (addr : Vector UInt8 rrALen)
  | addAaaa (type : RrType) (domain : CStr) (ttl : Nat) (addr : Vector UInt8 rrAaaaLen)
  | addTxt (type : RrType) (domain : CStr) (ttl : Nat) (txt : CStr)
  | addSoa (type : RrType) (domain : CStr) (ttl : Nat) (soa : Soa)
  | addSrv (type : RrType) (domain : CStr) (ttl priority weight port : Nat) (target : CStr)
  | addOptEcs (ecs : OptEcs)
  | addOptTcpKeepalive (timeout : Nat)
  | nestedStart (i : Nat) (type : RrType) (rtype : Nat) (domain : CStr) (ttl : Nat)
  | svcbHttpsStart (i : Nat) (type : RrType) (rtype : Nat) (domain : CStr) (ttl priority : Nat)
      (target : CStr)
  | nestedMemcpy (i : Nat) (data : Bytes)
  | nestedEnd (i : Nat)

def AddCall.perform : AddCall → Prog DnsFault Building Unit
  | .addDomain domain qtype qclass => onBuilt (dnsAddDomain domain qtype qclass)
  | .addCname type domain ttl cname => onBuilt (dnsAddCname type domain ttl cname)
  | .addPtr type domain ttl cname => onBuilt (dnsAddPtr type domain ttl cname)
  | .addNs type domain ttl cname => onBuilt (dnsAddNs type domain ttl cname)
  | .addA type domain ttl addr => onBuilt (dnsAddA type domain ttl addr)
  | .addAaaa type domain ttl addr => onBuilt (dnsAddAaaa type domain ttl addr)
  | .addTxt type domain ttl txt => onBuilt (dnsAddTxt type domain ttl txt)
  | .addSoa type domain ttl soa => onBuilt (dnsAddSoa type domain ttl soa)
  | .addSrv type domain ttl priority weight port target =>
    onBuilt (dnsAddSrv type domain ttl priority weight port target)
  | .addOptEcs ecs => onBuilt (dnsAddOptEcs ecs)
  | .addOptTcpKeepalive timeout => onBuilt (dnsAddOptTcpKeepalive timeout)
  | .nestedStart i type rtype domain ttl => onBuilder i (dnsAddRrNestedStart type rtype domain ttl)
  | .svcbHttpsStart i type rtype domain ttl priority target =>
    onBuilder i (dnsAddSvcbHttpsStart type rtype domain ttl priority target)
  | .nestedMemcpy i data => onBuilder i (inNested (dnsAddRrNestedMemcpy data))
  | .nestedEnd i => onBuilder i dnsAddRrNestedEnd

def Building.step (s : Building) (call : AddCall) : Building :=
  match call.perform s with
  | .done _ t => t
  | .failed t => t
  | .fault _ => s

def idleBuilder : RrNested :=
  ⟨0, 0, none, none, 0, .qd, 0⟩

/-- A packet with no record under construction. -/
def Building.start (p : Packet) : Building :=
  ⟨p, fun _ => idleBuilder⟩

/-- No record was added since the builder was started. -/
def Building.Current (s : Building) (i : Nat) : Prop :=
  (s.builders i).rrStart = none ∨ (s.builders i).rrStart = some (s.packet.len + sizeofRrs)

instance (s : Building) (i : Nat) : Decidable (s.Current i) :=
  inferInstanceAs (Decidable (_ ∨ _))

/-- A builder is used while it is current; and `dns_add_OPT_ECS` reads behind its
argument when the prefix is longer than an address. -/
def Building.Allowed (s : Building) : AddCall → Prop
  | .addOptEcs ecs => ecs.sourcePrefix ≤ 128
  | .nestedMemcpy i _ | .nestedEnd i => s.Current i
  | _ => True

instance (s : Building) : ∀ call, Decidable (s.Allowed call)
  | .addOptEcs ecs => inferInstanceAs (Decidable (ecs.sourcePrefix ≤ 128))
  | .nestedMemcpy i _ | .nestedEnd i => inferInstanceAs (Decidable (s.Current i))
  | .addDomain .. | .addCname .. | .addPtr .. | .addNs .. | .addA .. | .addAaaa .. | .addTxt ..
  | .addSoa .. | .addSrv .. | .addOptTcpKeepalive _ | .nestedStart .. | .svcbHttpsStart .. =>
    isTrue trivial

/-! ## Writers -/

section Writers

variable {lo : Nat} {c₀ c : Context}

variable (h : Writing lo c₀ c)
include h

/-- Two writes in a row for which there is room. -/
theorem Writing.wp_two {Q : Unit → Context → Prop} (a b : Bytes)
    (hroom : c.ptr + a.length + b.length ≤ c.maxsize)
    (hQ : ∀ c', Writing lo c₀ c' → c'.ptr = c.ptr + a.length + b.length →
      c'.maxsize = c.maxsize → Q () c') :
    wp (Dns.writeBytes a) (fun _ => wp (Dns.writeBytes b) Q (Writing lo c₀)) (Writing lo c₀) c := by
  refine wp_post (h.writeBytes a (by simp only [Context.leftLen]; omega)) ?_
  rintro _ c₁ ⟨h₁, hptr₁⟩
  have hmax₁ : c₁.maxsize = c.maxsize := h₁.frame.maxsize.trans h.frame.maxsize.symm
  refine wp_post (h₁.writeBytes b (by simp only [Context.leftLen]; omega)) ?_
  rintro _ c₂ ⟨h₂, hptr₂⟩
  exact hQ c₂ h₂ (by omega) (h₂.frame.maxsize.trans h.frame.maxsize.symm)

theorem Writing.addQrHead (domain : CStr) (qtype qclass : Nat) :
    wp (dnsAddQrHead domain qtype qclass)
      (fun n c' => Writing lo c₀ c' ∧ c'.ptr = c.ptr + n ∧ 5 ≤ n ∧ c'.ptr ≤ c'.maxsize)
      (Writing lo c₀) c := by
  simp only [dnsAddQrHead, wp_bind]
  refine wp_post (h.encodeDomain domain) ?_
  rintro n c₁ ⟨h₁, hptr₁, hpos, hroom⟩
  simp only [wp_failWhen, wp_pure, dnsWriteShort]
  refine ⟨fun _ => h₁, fun hleft => ?_⟩
  simp only [Context.leftLen] at hleft
  refine h₁.wp_two _ _ (by simp only [length_beBytes]; omega) fun c₂ h₂ hptr₂ hmax₂ => ?_
  simp only [length_beBytes] at hptr₂
  exact ⟨h₂, by omega, by omega, by omega⟩

theorem Writing.addRrHead (domain : CStr) (qtype qclass ttl rrLen : Nat) :
    wp (dnsAddRrHead domain qtype qclass ttl rrLen)
      (fun n c' => Writing lo c₀ c' ∧ c'.ptr = c.ptr + n ∧ 11 ≤ n ∧ c'.ptr ≤ c'.maxsize)
      (Writing lo c₀) c := by
  simp only [dnsAddRrHead, wp_bind]
  refine wp_post (h.addQrHead domain qtype qclass) ?_
  rintro n c₁ ⟨h₁, hptr₁, hpos, hroom⟩
  simp only [wp_failWhen, wp_pure, dnsWriteShort, dnsWriteInt]
  refine ⟨fun _ => h₁, fun hleft => ?_⟩
  simp only [Context.leftLen] at hleft
  refine h₁.wp_two _ _ (by simp only [length_beBytes]; omega) fun c₂ h₂ hptr₂ hmax₂ => ?_
  simp only [length_beBytes] at hptr₂
  exact ⟨h₂, by omega, by omega, by omega⟩

theorem Writing.padding : wp writePadding (fun _ => Writing lo c₀) (Writing lo c₀) c := by
  refine wp_ite (fun _ => h) (fun _ => ?_)
  simp only [wp_bind, wp_failWhen]
  refine ⟨fun _ => h, fun hleft => ?_⟩
  exact wp_post (h.writeBytes _ (by simpa using hleft)) (fun _ _ h => h.1)

theorem Writing.nestedMemcpy (data : Bytes) :
    wp (dnsAddRrNestedMemcpy data) (fun _ => Writing lo c₀) (Writing lo c₀) c := by
  simp only [dnsAddRrNestedMemcpy, wp_bind, wp_failWhen]
  refine ⟨fun _ => h, fun _ => ⟨fun _ => h, fun hleft => ⟨fun _ => h, fun _ => ?_⟩⟩⟩
  refine wp_post (h.writeBytes data hleft) ?_
  rintro _ c' ⟨h', -⟩
  exact h'.padding

end Writers

/-! ## Adding a record -/

/-- A packet with `N` bytes of memory and its records in order. -/
structure Filled (N : Nat) (p : Packet) : Prop where
  length : p.data.length = N
  small : N ≤ rrEnd
  layout : ∃ entries, Layout p entries

section Packet

variable {N : Nat} {p : Packet}

section

variable (h : Filled N p)
include h

theorem Filled.store {c c' : Context} (hc : c.data = p.data) {lo : Nat} (hlo : p.len ≤ lo)
    (hwriting : Writing lo c c') :
    Filled N (p.store c') := by
  obtain ⟨entries, hlayout⟩ := h.layout
  refine ⟨?_, h.small, entries, hlayout.store hc hlo hwriting.frame⟩
  rw [Packet.store, hwriting.frame.length, hc]
  exact h.length

theorem Filled.rrAddEnd (type : RrType) (rtype len : Nat) :
    wp (dnsRrAddEnd type rtype len) (fun _ => Filled N) (Filled N) p := by
  obtain ⟨entries, hlayout⟩ := h.layout
  have hlength := h.length
  have hsmall := h.small
  have hused := hlayout.used
  refine hlayout.wp_dnsRrAddEnd type rtype len (by omega) (fun _ => by omega) (fun _ => h) ?_
  intro p' happended
  exact ⟨happended.length.trans h.length, h.small, _, happended.layout⟩

theorem Filled.inside : p.context.maxsize ≤ p.context.data.length := by
  obtain ⟨entries, hlayout⟩ := h.layout
  have := hlayout.size
  simp only [Packet.context]
  omega

/-- A record that is written behind the used part and then entered. -/
theorem Filled.record (type : RrType) (rtype : Nat) {m : Prog DnsFault Context Nat}
    (hm : ∀ {lo : Nat} {c₀ c : Context}, Writing lo c₀ c →
      wp m (fun _ => Writing lo c₀) (Writing lo c₀) c) :
    wp (do dnsAddRrsStart; let len ← inPacket m; dnsRrAddEnd type rtype len)
      (fun _ => Filled N) (Filled N) p := by
  have hstart : p.len ≤ p.context.ptr := by
    simp only [Packet.context]
    omega
  simp only [dnsAddRrsStart, inPacket, wp_bind, wp_failWhen, wp_zoom]
  refine ⟨fun _ => h, fun _ => ?_⟩
  refine wp_mono (hm (Writing.refl h.inside le_rfl)) ?_ ?_
  · intro len c' hwriting
    exact (h.store rfl hstart hwriting).rrAddEnd type rtype len
  · intro c' hwriting
    exact h.store rfl hstart hwriting

theorem Filled.addRaw (type : RrType) (rtype : Nat) (domain : CStr) (ttl : Nat) (raw : Bytes) :
    wp (dnsAddRaw type rtype domain ttl raw) (fun _ => Filled N) (Filled N) p := by
  refine h.record type rtype ?_
  intro lo c₀ c hwriting
  simp only [wp_bind]
  refine wp_post (hwriting.addRrHead domain rtype classIn ttl raw.length) ?_
  rintro len c₁ ⟨h₁, -, -, -⟩
  simp only [wp_failWhen, wp_pure]
  refine ⟨fun _ => h₁, fun hleft => ?_⟩
  exact wp_post (h₁.writeBytes raw hleft) (fun _ _ h => h.1)

theorem Filled.addDomain (domain : CStr) (qtype qclass : Nat) :
    wp (dnsAddDomain domain qtype qclass) (fun _ => Filled N) (Filled N) p := by
  refine h.record .qd DnsType.cname.code ?_
  intro lo c₀ c hwriting
  exact wp_post (hwriting.addQrHead domain qtype qclass) (fun _ _ h => h.1)

/-- A record whose data is put together in a local buffer that is large enough. -/
theorem Filled.addBuffered {capacity : Nat} {bs : Bytes} (hfits : bs.length ≤ capacity)
    (type : RrType) (rtype : Nat) (domain : CStr) (ttl : Nat) :
    wp (do let data ← intoBuffer capacity bs; dnsAddRaw type rtype domain ttl data)
      (fun _ => Filled N) (Filled N) p := by
  rw [wp_bind, intoBuffer, if_pos hfits, wp_pure]
  exact h.addRaw type rtype domain ttl bs

theorem Filled.addTxt (type : RrType) (domain : CStr) (ttl : Nat) (txt : CStr) :
    wp (dnsAddTxt type domain ttl txt) (fun _ => Filled N) (Filled N) p := by
  simp only [dnsAddTxt]
  rw [wp_bind, wp_failWhen]
  refine ⟨fun _ => h, fun hshort => ?_⟩
  refine h.addBuffered ?_ type typeTxt domain ttl
  simp only [maxCnameLen] at hshort ⊢
  rw [List.length_cons, List.length_take]
  omega

theorem Filled.addSoa (type : RrType) (domain : CStr) (ttl : Nat) (soa : Soa) :
    wp (dnsAddSoa type domain ttl soa) (fun _ => Filled N) (Filled N) p := by
  refine h.addBuffered ?_ type DnsType.soa.code domain ttl
  simp only [Soa.numbers, sizeofSoa, maxCnameLen, List.flatMap_cons, List.flatMap_nil,
    List.length_append, List.length_take, length_leBytes, List.length_singleton, List.length_nil]
  omega

theorem Filled.addSrv (type : RrType) (domain : CStr) (ttl priority weight port : Nat)
    (target : CStr) :
    wp (dnsAddSrv type domain ttl priority weight port target)
      (fun _ => Filled N) (Filled N) p := by
  simp only [dnsAddSrv]
  rw [wp_bind, wp_failWhen]
  refine ⟨fun _ => h, fun hshort => ?_⟩
  refine h.addBuffered ?_ type DnsType.srv.code domain ttl
  simp only [maxCnameLen, safeStrncpy] at hshort ⊢
  simp only [List.length_append, List.length_take, length_leBytes, List.length_singleton,
    List.length_replicate]
  omega

end

theorem prefixBytes_le {sourcePrefix : Nat} (h : sourcePrefix ≤ 128) :
    prefixBytes sourcePrefix ≤ rrAaaaLen := by
  simp only [prefixBytes, rrAaaaLen]
  split <;> omega

theorem length_ecsImage (ecs : OptEcs) : ecs.image.length = 20 := by
  have haddr : ecs.addr.toList.length = rrAaaaLen := ecs.addr.length_toList
  rw [OptEcs.image, List.length_append, List.length_append, haddr, length_leBytes]
  rfl

theorem Filled.addOptEcs (h : Filled N p) {ecs : OptEcs} (hsource : ecs.sourcePrefix ≤ 128) :
    wp (dnsAddOptEcs ecs) (fun _ => Filled N) (Filled N) p := by
  have hbytes := prefixBytes_le hsource
  simp only [rrAaaaLen] at hbytes
  obtain ⟨data, hread, hlen⟩ := readAt_of_le (m := ecs.image) (i := 0)
    (n := 4 + prefixBytes ecs.sourcePrefix) (by rw [length_ecsImage]; omega)
  simp only [dnsAddOptEcs]
  rw [wp_bind, wp_orAbort]
  refine ⟨data, hread, h.addBuffered ?_ .opt optEcs (CStr.ofBuffer []) 0⟩
  simp only [List.length_append, length_leBytes, hlen, maxOptLen]
  omega

theorem Filled.addOptTcpKeepalive (h : Filled N p) (timeout : Nat) :
    wp (dnsAddOptTcpKeepalive timeout) (fun _ => Filled N) (Filled N) p := by
  refine h.addBuffered ?_ .opt optTcpKeepalive (CStr.ofBuffer []) 0
  simp only [List.length_append, length_leBytes, maxOptLen]
  split <;> simp

end Packet

/-! ## Builders -/

/-- A builder writes behind its start. -/
structure RrNested.Ok (N : Nat) (b : RrNested) : Prop where
  maxsize : b.maxsize ≤ N
  idle : b.rrStart = none → b.maxsize ≤ b.ptr
  start : ∀ s, b.rrStart = some s → s ≤ b.ptr
  lenPtr : ∀ q, b.rrLenPtr = some q → q + 2 ≤ b.maxsize ∧ ∀ s, b.rrStart = some s → s ≤ q

/-- A builder that was started moves behind its start. -/
theorem RrNested.Ok.move {N s ptr : Nat} {b : RrNested} (h : b.Ok N) (hstart : b.rrStart = some s)
    (hle : s ≤ ptr) :
    RrNested.Ok N { b with ptr := ptr } :=
  ⟨h.maxsize, by simp [hstart], by simpa [hstart] using hle, h.lenPtr⟩

/-- A packet in order, with a builder. -/
structure Nesting.Ok (N : Nat) (n : Nesting) : Prop where
  packet : Filled N n.packet
  nested : n.nested.Ok N

section Nesting

variable {N : Nat} {n : Nesting}

theorem Nesting.Ok.inNested
    {α : Type} (h : n.Ok N) (hcurrent : n.nested.rrStart = some (n.packet.len + sizeofRrs))
    {m : Prog DnsFault Context α} {Q : α → Nesting → Prop} {E : Nesting → Prop}
    {R : α → Context → Prop} (hm : Writing (n.packet.len + sizeofRrs) n.context n.context →
      wp m (fun a c => Writing (n.packet.len + sizeofRrs) n.context c ∧ R a c)
        (Writing (n.packet.len + sizeofRrs) n.context) n.context)
    (hQ : ∀ a c, R a c → (n.store c).Ok N → Q a (n.store c))
    (hE : ∀ c, (n.store c).Ok N → E (n.store c)) :
    wp (Dns.inNested m) Q E n := by
  have hinside : n.context.maxsize ≤ n.context.data.length := by
    have := h.nested.maxsize
    rw [← h.packet.length] at this
    exact this
  have hok : ∀ c, Writing (n.packet.len + sizeofRrs) n.context c → (n.store c).Ok N := by
    intro c hc
    exact ⟨h.packet.store rfl (Nat.le_add_right _ _) hc, h.nested.move hcurrent hc.start⟩
  rw [Dns.inNested, wp_zoom]
  refine wp_mono (hm (Writing.refl hinside (h.nested.start _ hcurrent))) ?_ ?_
  · rintro a c ⟨hc, hR⟩
    exact hQ a c hR (hok c hc)
  · intro c hc
    exact hE c (hok c hc)

theorem Nesting.Ok.start (h : n.Ok N) (type : RrType) (rtype : Nat) (domain : CStr) (ttl : Nat) :
    wp (dnsAddRrNestedStart type rtype domain ttl)
      (fun _ n' => n'.Ok N ∧ n'.nested.rrStart = some (n'.packet.len + sizeofRrs))
        (Nesting.Ok N) n := by
  have hidle : ∀ type rtype, RrNested.Ok N ⟨0, 0, none, none, 0, type, rtype⟩ := by
    intro type rtype
    exact ⟨Nat.zero_le _, fun _ => le_rfl, by simp, by simp⟩
  simp only [dnsAddRrNestedStart, dnsAddRrsStart, onPacket, wp_bind, wp_modify,
    wp_zoom, wp_failWhen]
  refine ⟨fun _ => ⟨h.packet, hidle type rtype⟩, fun _ => ?_⟩
  have hlength := h.packet.length
  have hinside := h.packet.inside
  have hok : Nesting.Ok N ⟨n.packet, ⟨n.packet.context.ptr, n.packet.context.maxsize,
      some n.packet.context.ptr, none, 0, type, rtype⟩⟩ := by
    refine ⟨h.packet, ?_, by simp, by simp, by simp⟩
    simp only [Packet.context] at hinside ⊢
    omega
  refine hok.inNested rfl (R := fun k c => c.ptr = n.packet.context.ptr + k ∧ 11 ≤ k ∧
    c.ptr ≤ n.packet.context.maxsize) ?_ ?_ ?_
  · intro hwriting
    refine wp_post (hwriting.addRrHead domain rtype classIn ttl 0) ?_
    rintro k c ⟨hc, hptr, hpos, hle⟩
    refine ⟨hc, hptr, hpos, ?_⟩
    rw [hc.frame.maxsize] at hle
    exact hle
  · rintro k c ⟨hptr, hpos, hle⟩ hc
    refine ⟨⟨hc.packet, hc.nested.maxsize, hc.nested.idle, hc.nested.start, ?_⟩, rfl⟩
    intro q hq
    obtain rfl : c.ptr - 2 = q := by simpa [Nesting.store] using hq
    constructor
    · simp only [Nesting.store]
      omega
    · intro s hs
      obtain rfl : n.packet.context.ptr = s := by simpa [Nesting.store] using hs
      omega
  · intro c hc
    exact hc

theorem Nesting.Ok.svcbHttpsStart
    (h : n.Ok N) (type : RrType) (rtype : Nat) (domain : CStr) (ttl priority : Nat)
    (target : CStr) :
    wp (dnsAddSvcbHttpsStart type rtype domain ttl priority target)
      (fun _ => Nesting.Ok N) (Nesting.Ok N) n := by
  simp only [dnsAddSvcbHttpsStart]
  rw [wp_bind]
  refine wp_post (h.start type rtype domain ttl) ?_
  rintro _ n' ⟨h', hcurrent⟩
  refine h'.inNested hcurrent (R := fun _ _ => True) ?_ (fun _ _ _ h => h) (fun _ h => h)
  intro hwriting
  generalize (if target.bytes.head? = some dot then CStr.ofBuffer [] else target) = target
  simp only [dnsWriteShort, wp_bind, wp_failWhen, and_true]
  refine ⟨fun _ => hwriting, fun hleft => ?_⟩
  simp only [Context.leftLen] at hleft
  refine hwriting.wp_two (beBytes 2 priority) _ ?_ fun c₂ h₂ _ _ => h₂.padding
  simp only [safeStrncpy, length_beBytes, List.length_append, List.length_take,
    List.length_singleton, List.length_replicate]
  omega

theorem Nesting.Ok.memcpy (h : n.Ok N)
    (hcurrent : n.nested.rrStart = none ∨ n.nested.rrStart = some (n.packet.len + sizeofRrs))
    (data : Bytes) :
    wp (Dns.inNested (dnsAddRrNestedMemcpy data)) (fun _ => Nesting.Ok N) (Nesting.Ok N) n := by
  rcases hcurrent with hnone | hcurrent
  · -- there is no room in a builder that was not started
    have hfull := h.nested.idle hnone
    rw [Dns.inNested, wp_zoom]
    simp only [dnsAddRrNestedMemcpy, wp_bind, wp_failWhen]
    refine ⟨fun _ => h, fun hne => ⟨fun _ => h, fun hleft => ?_⟩⟩
    simp only [Context.leftLen, Nesting.context] at hleft
    omega
  · refine h.inNested hcurrent (R := fun _ _ => True) ?_ (fun _ _ _ h => h) (fun _ h => h)
    intro hwriting
    simpa only [and_true] using hwriting.nestedMemcpy data

theorem Nesting.Ok.finish (h : n.Ok N)
    (hcurrent : n.nested.rrStart = none ∨ n.nested.rrStart = some (n.packet.len + sizeofRrs)) :
    wp dnsAddRrNestedEnd (fun _ => Nesting.Ok N) (Nesting.Ok N) n := by
  simp only [dnsAddRrNestedEnd, wp_bind, wp_get]
  split
  next rrStart rrLenPtr hstart hlenPtr =>
    have hcurrent : n.nested.rrStart = some (n.packet.len + sizeofRrs) := by
      rcases hcurrent with hnone | hsome
      · rw [hnone] at hstart
        cases hstart
      · exact hsome
    obtain ⟨hin, hbehind⟩ := h.nested.lenPtr rrLenPtr hlenPtr
    rw [wp_bind, wp_failWhen]
    refine ⟨fun _ => h, fun _ => ?_⟩
    refine wp_ite (fun _ => ?_) (fun _ => ?_)
    · exact ⟨h.packet, h.nested.move hstart le_rfl⟩
    · rw [wp_bind]
      refine h.inNested hcurrent (R := fun _ _ => True) ?_ ?_ (fun _ h => h)
      · intro hwriting
        refine wp_post (hwriting.patch _ (hbehind _ hcurrent)
          (by rw [length_beBytes]; exact hin)) (fun _ _ h => ⟨h.1, trivial⟩)
      · intro _ c _ hc
        rw [onPacket, wp_zoom]
        exact wp_mono (hc.packet.rrAddEnd _ _ _) (fun _ p hp => ⟨hp, hc.nested⟩)
          (fun p hp => ⟨hp, hc.nested⟩)
  next => exact h

end Nesting

/-! ## Runs -/

/-- The packet is in order, and so are all builders. -/
structure Building.Ok (N : Nat) (s : Building) : Prop where
  packet : Filled N s.packet
  builders : ∀ i, (s.builders i).Ok N

section Runs

variable {N : Nat} {s : Building}

theorem Building.Ok.onBuilt (h : s.Ok N) {m : Prog DnsFault Packet Unit}
    (hm : wp m (fun _ => Filled N) (Filled N) s.packet) :
    wp (Dns.onBuilt m) (fun _ => Building.Ok N) (Building.Ok N) s := by
  rw [Dns.onBuilt, wp_zoom]
  exact wp_mono hm (fun _ _ hp => ⟨hp, h.builders⟩) (fun _ hp => ⟨hp, h.builders⟩)

theorem Building.Ok.onBuilder (h : s.Ok N) (i : Nat) {m : Prog DnsFault Nesting Unit}
    (hm : Nesting.Ok N ⟨s.packet, s.builders i⟩ →
      wp m (fun _ => Nesting.Ok N) (Nesting.Ok N) ⟨s.packet, s.builders i⟩) :
    wp (Dns.onBuilder i m) (fun _ => Building.Ok N) (Building.Ok N) s := by
  have hput : ∀ n : Nesting, n.Ok N →
      Building.Ok N ⟨n.packet, Function.update s.builders i n.nested⟩ := by
    intro n hn
    refine ⟨hn.packet, ?_⟩
    intro j
    by_cases hj : j = i
    · subst hj
      simpa using hn.nested
    · simpa [Function.update_of_ne hj] using h.builders j
  rw [Dns.onBuilder, wp_zoom]
  exact wp_mono (hm ⟨h.packet, h.builders i⟩) (fun _ n hn => hput n hn) (fun n hn => hput n hn)

/-- **One call**, whether it succeeds or fails. -/
theorem Building.Ok.perform (h : s.Ok N) {call : AddCall} (hallowed : s.Allowed call) :
    wp call.perform (fun _ => Building.Ok N) (Building.Ok N) s := by
  cases call with
  | addDomain domain qtype qclass => exact h.onBuilt (h.packet.addDomain domain qtype qclass)
  | addCname | addPtr | addNs | addA | addAaaa => exact h.onBuilt (h.packet.addRaw _ _ _ _ _)
  | addTxt type domain ttl txt => exact h.onBuilt (h.packet.addTxt type domain ttl txt)
  | addSoa type domain ttl soa => exact h.onBuilt (h.packet.addSoa type domain ttl soa)
  | addSrv type domain ttl priority weight port target =>
    exact h.onBuilt (h.packet.addSrv type domain ttl priority weight port target)
  | addOptEcs ecs => exact h.onBuilt (h.packet.addOptEcs hallowed)
  | addOptTcpKeepalive timeout => exact h.onBuilt (h.packet.addOptTcpKeepalive timeout)
  | nestedStart i type rtype domain ttl =>
    refine h.onBuilder i (fun hn => ?_)
    exact wp_post (hn.start type rtype domain ttl) (fun _ _ h => h.1)
  | svcbHttpsStart i type rtype domain ttl priority target =>
    exact h.onBuilder i (fun hn => hn.svcbHttpsStart type rtype domain ttl priority target)
  | nestedMemcpy i data => exact h.onBuilder i (fun hn => hn.memcpy hallowed data)
  | nestedEnd i => exact h.onBuilder i (fun hn => hn.finish hallowed)

theorem Building.Ok.step (h : s.Ok N) {call : AddCall} (hallowed : s.Allowed call) :
    (s.step call).Ok N := by
  have hperform := h.perform hallowed
  simp only [wp] at hperform
  rw [Building.step]
  split at hperform
  next heq => rwa [heq]
  next heq => rwa [heq]
  next => exact hperform.elim

end Runs

/-! ## What the layout means -/

/-- The structure of a packet in its own terms: from the start of each section the links lead
through `chain` to the end mark, and every record lies in the used part, apart from all others. -/
structure WellLinked (p : Packet) (chain : RrType → List Nat) : Prop where
  linked : ∀ type, Linked p.rrsNext rrEnd (p.start type) (chain type)
  acyclic : ∀ type, (chain type).Nodup
  disjoint : ∀ type other, type ≠ other → List.Disjoint (chain type) (chain other)
  count : ∀ type, p.count type = (chain type).length
  inside : ∀ type, ∀ n ∈ chain type, ∃ len, p.rrsLen n = some len ∧ n + sizeofRrs + len ≤ p.len
  apart : ∀ type other, ∀ n ∈ chain type, ∀ m ∈ chain other, n ≠ m → ∀ len len',
    p.rrsLen n = some len → p.rrsLen m = some len' →
      n + sizeofRrs + len ≤ m ∨ m + sizeofRrs + len' ≤ n
  used : p.len + sizeofPacket ≤ p.size

theorem Layout.wellLinked {p : Packet} {entries : List Entry} (h : Layout p entries) :
    WellLinked p (chainOf entries) where
  linked := h.chains.linked
  acyclic type := by
    refine (h.chains.nodes_apart type).imp ?_
    intro a b hab
    simp only [sizeofRrs] at hab
    omega
  disjoint type other hne n hn hm := by
    obtain ⟨e, he, rfl, rfl⟩ := mem_chainOf.mp hn
    obtain ⟨f, hf, rfl, hoffset⟩ := mem_chainOf.mp hm
    have hef : e ≠ f := fun hef => hne (by rw [hef])
    have hapart := pairwise_or_of_ne h.apart he hf hef
    simp only [Entry.stop, sizeofRrs] at hapart
    omega
  count := h.count
  inside type n hn := by
    obtain ⟨e, he, rfl, rfl⟩ := mem_chainOf.mp hn
    exact ⟨e.len, h.lens e he, h.bound e he⟩
  apart type other n hn m hm hne len len' hlen hlen' := by
    obtain ⟨e, he, rfl, rfl⟩ := mem_chainOf.mp hn
    obtain ⟨f, hf, rfl, rfl⟩ := mem_chainOf.mp hm
    have hef : e ≠ f := fun hef => hne (by rw [hef])
    rw [h.lens e he, Option.some.injEq] at hlen
    rw [h.lens f hf, Option.some.injEq] at hlen'
    subst hlen hlen'
    exact pairwise_or_of_ne h.apart he hf hef
  used := by
    have hused := h.used
    have hsize := h.size
    omega

theorem Blank.layout {p : Packet} (h : Blank p) :
    Layout p [] where
  size := h.data
  used := by
    rw [h.len]
    exact Nat.zero_le _
  chains := ⟨.nil, by simp, h.start⟩
  apart := .nil
  bound := by simp
  lens := by simp
  count := h.count

/--
**Adding keeps the structure of a packet**: in a buffer of at most 65535 bytes, after any
sequence of calls that use a builder only while it is current, whether they succeed or fail.
-/
theorem packet_structure_kept
    {size : Nat} (hsize : size ≤ 65535) (head : Head) (p₀ : Packet) {p : Packet}
    (hinit : dnsPacketInit size head p₀ = .done () p) (calls : List AddCall)
    (hcalls : Admissible step Building.Allowed (start p) calls) :
    (∃ chain, WellLinked (run step (start p) calls).packet chain) ∧
      ∀ call, (run step (start p) calls).Allowed call →
        ∀ reason, call.perform (run step (start p) calls) ≠ .fault reason := by
  simp only [dnsPacketInit, bind_eq_done, failWhen_eq_done, modify_eq_done] at hinit
  obtain ⟨_, _, ⟨hlarge, rfl⟩, hp⟩ := hinit
  obtain rfl : p₀.init size head = p := hp
  have hblank := blank_init p₀ head (show sizeofPacket ≤ size by omega)
  have hstart : (start (p₀.init size head)).Ok (size - sizeofPacket) := by
    refine ⟨⟨?_, ?_, [], hblank.layout⟩, ?_⟩
    · simp [Packet.init, start]
    · simp only [rrEnd]
      omega
    · intro i
      exact ⟨Nat.zero_le _, fun _ => le_rfl, by simp [start, idleBuilder],
        by simp [start, idleBuilder]⟩
  have hok := run_invariant step (Building.Ok (size - sizeofPacket))
    (fun _ _ h hallowed => h.step hallowed) hstart hcalls
  constructor
  · obtain ⟨entries, hlayout⟩ := hok.packet.layout
    exact ⟨chainOf entries, hlayout.wellLinked⟩
  · intro call hallowed reason hfault
    have hperform := hok.perform hallowed
    simp only [wp, hfault] at hperform

/-- `a.b`, as a string. -/
def shortOwner : CStr :=
  CStr.ofString "a.b"

/-- An HTTPS record is built with one parameter between two questions. -/
theorem packet_structure_kept_https :
    (∃ chain, WellLinked (run step (start (smallPacket.init 512 zeroHead))
      [.addDomain shortOwner 1 1, .svcbHttpsStart 0 .an 65 shortOwner 60 1 (CStr.ofBuffer []),
        .nestedMemcpy 0 [3, 0], .nestedEnd 0, .addDomain shortOwner 28 1]).packet chain) :=
  (packet_structure_kept (show 512 ≤ 65535 by decide) zeroHead smallPacket rfl _
    (by decide +kernel)).1

/-- Two questions are added while an HTTPS record is built.  The end of that record writes its
length into the link of the second question, and the chain of the questions becomes a circle. -/
def interleavedPacket : Packet :=
  (run step (start (smallPacket.init 1024 zeroHead))
    [.svcbHttpsStart 0 .an 65 shortOwner 60 1 (CStr.ofBuffer []),
      .addDomain (CStr.ofBuffer []) 1 1, .addDomain (CStr.ofBuffer []) 1 1, .nestedEnd 0]).packet

/-- The third link of a chain of two questions leads back to the first. -/
theorem interleaved_chain_circular :
    interleavedPacket.start .qd = 0 ∧ interleavedPacket.count .qd = 2 ∧
      interleavedPacket.rrsNext 0 = some 21 ∧ interleavedPacket.rrsNext 21 = some 768 ∧
      interleavedPacket.rrsNext 768 = some 0 := by
  decide +kernel

end SmartDns.Dns
