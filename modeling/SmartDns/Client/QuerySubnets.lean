import SmartDns.Dns.LastOption

/-!
# The client subnet of a query

A query carries the subnet that its options or its group have for it, and is built
again for a server with subnets of its own.  `dns_add_OPT_ECS` copies as many bytes of
the address as the prefix reaches into and does not clear the bits behind the prefix.
-/

namespace SmartDns.Client

open Dns Prog

/-- What `getaddr_by_host` makes of a text. -/
inductive HostAddr
  | inet (addr : Vector UInt8 4)
  | inet6 (addr : Vector UInt8 16)
  | other

/-- `IN6_IS_ADDR_V4MAPPED`. -/
def isV4Mapped (addr : Vector UInt8 16) : Bool :=
  addr.toList.take 12 = List.replicate 10 0 ++ [255, 255]

namespace HostAddr

def mapped : HostAddr → Bool
  | .inet6 addr => isV4Mapped addr
  | _ => false

/-- The family and the bytes of an address; an IPv4-mapped one counts as IPv4. -/
def plain : HostAddr → Option (Nat × Bytes)
  | .inet addr => some (1, addr.toList)
  | .inet6 addr => some (if isV4Mapped addr then (1, addr.toList.drop 12) else (2, addr.toList))
  | .other => none

end HostAddr

/-- A subnet in the configuration or in the options of a query. -/
structure Subnet where
  ip : HostAddr
  subnet : Nat

/-- What is written to an option; the rest of the address stays as it was. -/
def setEcs (ecs : OptEcs) (subnet family : Nat) (bytes : Bytes) : OptEcs where
  family := family
  sourcePrefix := subnet % 256
  scopePrefix := 0
  addr := Vector.ofFn fun i => bytes.getD i ecs.addr[i]

/-- `_dns_client_setup_ecs`, which does not copy an IPv4-mapped address. -/
def dnsClientSetupEcs (ecs : OptEcs) (s : Subnet) : Option OptEcs :=
  s.ip.plain.map fun a => setEcs ecs s.subnet a.1 (if s.ip.mapped then [] else a.2)

def zeroEcs : OptEcs :=
  ⟨0, 0, 0, Vector.replicate 16 0⟩

/-- The option `DNS_QUEY_OPTION_ECS_IP`. -/
def ecsOfIp (s : Subnet) : OptEcs :=
  let a := s.ip.plain.getD (0, [])
  setEcs zeroEcs s.subnet a.1 a.2

/-- The option `DNS_QUEY_OPTION_ECS_DNS` is well formed. -/
def ecsValid (ecs : OptEcs) : Bool :=
  ecs.family = 1 && ecs.sourcePrefix ≤ 32 || ecs.family = 2 && ecs.sourcePrefix ≤ 128

/-- The subnets that are enabled: in the options of a query, for its group and for a
server. -/
structure Subnets where
  ecsIp : Option Subnet
  ecsDns : Option OptEcs
  group4 : Option Subnet
  group6 : Option Subnet
  server4 : Option Subnet
  server6 : Option Subnet

/-- What else a packet depends on: the query, the flags of the server, and the memory of
the functions. -/
structure QueryFrame where
  sid : Nat
  domain : CStr
  qtype : Nat
  edns0Do : Bool
  hitchhiking : Bool
  tcpKeepalive : Nat
  subnetAllQueryTypes : Bool
  packet : Packet
  inpacket : Bytes
  stale : OptEcs

def dnsPacksize : Nat := 512 * 16

namespace QueryFrame

variable (q : QueryFrame)

/-- `_dns_client_query_setup_default_ecs`, with the memory of its variable `ecs`. -/
def defaultEcs (nets : Subnets) : Option OptEcs :=
  (if q.qtype = DnsType.a.code ∧ nets.group4.isSome then nets.group4
  else if q.qtype = DnsType.aaaa.code ∧ nets.group6.isSome then nets.group6
  else nets.group4.or nets.group6).bind (dnsClientSetupEcs q.stale)

/-- The subnet of `_dns_client_query_parser_options`, unless it fails. -/
def queryEcs (nets : Subnets) : Option (Option OptEcs) :=
  match nets.ecsDns, nets.ecsIp with
  | some ecs, _ => if ecsValid ecs then some (some ecs) else none
  | none, some s => some (some (ecsOfIp s))
  | none, none => some (q.defaultEcs nets)

/-- `_dns_client_server_add_ecs` for a subnet of a new server. -/
def serverEcs : Option Subnet → Option (Option OptEcs)
  | none => some none
  | some s => (dnsClientSetupEcs zeroEcs s).map some

/-- The subnet of a server that goes into a packet that is built again. -/
def chosenEcs (ecs4 ecs6 : Option OptEcs) : Option OptEcs :=
  if q.qtype = DnsType.a.code ∧ ecs4.isSome then ecs4
  else if q.qtype = DnsType.aaaa.code ∧ ecs6.isSome then ecs6
  else if q.qtype = DnsType.aaaa.code ∨ q.qtype = DnsType.a.code ∨ q.subnetAllQueryTypes then
    ecs6.or ecs4
  else none

/-- A query packet with its questions and the flags of its OPT record. -/
def start (hitchhiking : Bool) : Prog DnsFault Packet Unit := do
  dnsPacketInit dnsPacksize { zeroHead with id := q.sid, rd := 1, ad := q.edns0Do.toNat }
  if hitchhiking then dnsAddDomain (CStr.ofBuffer (ascii "-")) q.qtype classIn
  dnsAddDomain q.domain q.qtype classIn
  dnsSetOptPayloadSize (512 * 8)
  if q.edns0Do then dnsSetOptOption 0x8000

/-- A query packet with options, encoded. -/
def build (hitchhiking : Bool) (options : Prog DnsFault Packet Unit) : Option Bytes :=
  let m : Prog DnsFault Packet Bytes := do
    q.start hitchhiking
    options
    let packet ← Prog.get
    let (_, context) ← aside (encodeContext q.inpacket) (dnsEncode packet)
    pure (context.data.take context.ptr)
  match m q.packet with
  | .done bytes _ => some bytes
  | _ => none

def addEcs : Option OptEcs → Prog DnsFault Packet Unit
  | some ecs => dnsAddOptEcs ecs
  | none => pure ()

/-- The keepalive of the server; what comes of it is not looked at. -/
def keepalive : Prog DnsFault Packet Unit :=
  if 0 < q.tcpKeepalive then do
    let _ ← attempt (dnsAddOptTcpKeepalive q.tcpKeepalive)
  else pure ()

/-- The packet that `_dns_client_setup_server_packet` builds again.  It does not look at
what comes of the options. -/
def rebuild (ecs : Option OptEcs) : Option Bytes :=
  q.build q.hitchhiking do
    q.keepalive
    let _ ← attempt (addEcs ecs)

/-- The packet that `_dns_client_send_query` and `_dns_client_setup_server_packet` have for
the server. -/
def packetFor (nets : Subnets) : Option Bytes := do
  let ecs4 ← serverEcs nets.server4
  let ecs6 ← serverEcs nets.server6
  let ecs ← q.queryEcs nets
  let default ← q.build false (addEcs ecs)
  if ecs4.isSome ∨ ecs6.isSome ∨ q.hitchhiking then q.rebuild (q.chosenEcs ecs4 ecs6)
  else some default

end QueryFrame

/-! ## The option of a packet -/

namespace QueryFrame

variable (q : QueryFrame)

/-- There is room for the option in a packet that is built again. -/
def hasRoom (ecs : OptEcs) : Bool :=
  (do
    q.start q.hitchhiking
    q.keepalive
    dnsAddOptEcs ecs : Prog DnsFault Packet Unit) q.packet |>.isDone

/-- The option that goes into the packet for the server. -/
def sentEcs (nets : Subnets) : Option OptEcs :=
  let ecs4 := (serverEcs nets.server4).join
  let ecs6 := (serverEcs nets.server6).join
  if ecs4.isSome ∨ ecs6.isSome ∨ q.hitchhiking then (q.chosenEcs ecs4 ecs6).filter q.hasRoom
  else (q.queryEcs nets).join

end QueryFrame

/-- Options that differ in the address only. -/
structure LikeOption (e e' : OptEcs) : Prop where
  family : e.family = e'.family
  sourcePrefix : e.sourcePrefix = e'.sourcePrefix
  scopePrefix : e.scopePrefix = e'.scopePrefix

/-- Options with the same bytes. -/
structure SameOption (e e' : OptEcs) : Prop extends LikeOption e e' where
  addr : e.addr.toList.take (prefixBytes e.sourcePrefix) =
    e'.addr.toList.take (prefixBytes e.sourcePrefix)

/-- Subnets of one family with one prefix; an IPv4-mapped address counts as IPv4. -/
structure Subnet.Like (s s' : Subnet) : Prop where
  subnet : s.subnet = s'.subnet
  family : Option.Rel (fun a a' => a.1 = a'.1) s.ip.plain s'.ip.plain

/-- Configurations that differ in the addresses of their subnets only. -/
structure Subnets.Like (n n' : Subnets) : Prop where
  ecsIp : Option.Rel Subnet.Like n.ecsIp n'.ecsIp
  ecsDns : Option.Rel LikeOption n.ecsDns n'.ecsDns
  group4 : Option.Rel Subnet.Like n.group4 n'.group4
  group6 : Option.Rel Subnet.Like n.group6 n'.group6
  server4 : Option.Rel Subnet.Like n.server4 n'.server4
  server6 : Option.Rel Subnet.Like n.server6 n'.server6

section Like

variable {e e' : OptEcs} {o o' : Option OptEcs} {s s' : Subnet}

theorem Subnet.Like.ecsOfIp (h : s.Like s') : LikeOption (ecsOfIp s) (ecsOfIp s') := by
  obtain ⟨hsubnet, hfamily⟩ := h
  refine ⟨?_, congrArg (· % 256) hsubnet, rfl⟩
  simp only [Client.ecsOfIp, setEcs]
  generalize s.ip.plain = a at hfamily
  generalize s'.ip.plain = a' at hfamily
  cases hfamily with
  | some h => exact h
  | none => rfl

theorem Subnet.Like.setupEcs (h : s.Like s') (e : OptEcs) :
    Option.Rel LikeOption (dnsClientSetupEcs e s) (dnsClientSetupEcs e s') := by
  obtain ⟨hsubnet, hfamily⟩ := h
  simp only [dnsClientSetupEcs]
  generalize s.ip.plain = a at hfamily
  generalize s'.ip.plain = a' at hfamily
  cases hfamily with
  | some h => exact .some ⟨h, congrArg (· % 256) hsubnet, rfl⟩
  | none => exact .none

section Rel

variable {α : Type} {R : α → α → Prop} {a a' b b' : Option α}

theorem rel_isSome (h : Option.Rel R a a') : a'.isSome = a.isSome := by
  cases h <;> rfl

theorem rel_or (h : Option.Rel R a a') (h' : Option.Rel R b b') :
    Option.Rel R (a.or b) (a'.or b') := by
  cases h with
  | some h => exact .some h
  | none => exact h'

theorem rel_join {a a' : Option (Option α)} (h : Option.Rel (Option.Rel R) a a') :
    Option.Rel R a.join a'.join := by
  cases h with
  | some h => exact h
  | none => exact .none

end Rel

variable {n n' : Subnets} (q : QueryFrame)

theorem setupEcs_rel {s s' : Option Subnet} (h : Option.Rel Subnet.Like s s') (e : OptEcs) :
    Option.Rel LikeOption (s.bind (dnsClientSetupEcs e)) (s'.bind (dnsClientSetupEcs e)) := by
  cases h with
  | some h => exact h.setupEcs e
  | none => exact .none

theorem serverEcs_rel {s s' : Option Subnet} (h : Option.Rel Subnet.Like s s') :
    Option.Rel (Option.Rel LikeOption) (QueryFrame.serverEcs s) (QueryFrame.serverEcs s') := by
  cases h with
  | none => exact .some .none
  | @some s s' h =>
  have hset := h.setupEcs zeroEcs
  simp only [QueryFrame.serverEcs]
  generalize dnsClientSetupEcs zeroEcs s = a at hset
  generalize dnsClientSetupEcs zeroEcs s' = a' at hset
  cases hset with
  | some h => exact .some (.some h)
  | none => exact .none

theorem Subnets.Like.defaultEcs (h : n.Like n') :
    Option.Rel LikeOption (q.defaultEcs n) (q.defaultEcs n') := by
  simp only [QueryFrame.defaultEcs, rel_isSome h.group4, rel_isSome h.group6]
  apply setupEcs_rel
  split_ifs
  · exact h.group4
  · exact h.group6
  · exact rel_or h.group4 h.group6

theorem chosenEcs_rel {e4 e4' e6 e6' : Option OptEcs} (h4 : Option.Rel LikeOption e4 e4')
    (h6 : Option.Rel LikeOption e6 e6') :
    Option.Rel LikeOption (q.chosenEcs e4 e6) (q.chosenEcs e4' e6') := by
  simp only [QueryFrame.chosenEcs, rel_isSome h4, rel_isSome h6]
  split_ifs
  · exact h4
  · exact h6
  · exact rel_or h6 h4
  · exact .none

theorem Subnets.Like.queryEcs (h : n.Like n') :
    Option.Rel (Option.Rel LikeOption) (q.queryEcs n) (q.queryEcs n') := by
  have hdefault := h.defaultEcs q
  have hdns := h.ecsDns
  have hip := h.ecsIp
  simp only [QueryFrame.queryEcs]
  generalize n.ecsDns = d at hdns
  generalize n'.ecsDns = d' at hdns
  generalize n.ecsIp = i at hip
  generalize n'.ecsIp = i' at hip
  cases hdns with
  | @some a b h =>
    have hvalid : ecsValid b = ecsValid a := by rw [ecsValid, ecsValid, h.family, h.sourcePrefix]
    simp only [hvalid]
    split
    · exact .some (.some h)
    · exact .none
  | none =>
    cases hip with
    | some h => exact .some (.some h.ecsOfIp)
    | none => exact .some hdefault

end Like

/-! ## Packets and their options -/

section Packets

variable {e e' : OptEcs} {o o' : Option OptEcs} {q : QueryFrame} {m m' : Bytes} {p p' : Packet}
  {hitchhiking : Bool} {options : Prog DnsFault Packet Unit}

theorem SameOption.dnsAddOptEcs_eq (h : SameOption e e') : dnsAddOptEcs e = dnsAddOptEcs e' := by
  have hread : readAt e.image 0 (4 + prefixBytes e.sourcePrefix) =
      readAt e'.image 0 (4 + prefixBytes e.sourcePrefix) := by
    have himage (x : OptEcs) : x.image = (leBytes 2 x.family ++
      [UInt8.ofNat x.sourcePrefix, UInt8.ofNat x.scopePrefix]) ++ x.addr.toList := rfl
    simp only [readAt, himage, List.length_append, Vector.length_toList, length_leBytes,
      List.drop_zero, List.take_append]
    simp [h.family, h.scopePrefix, ← h.sourcePrefix, h.addr]
  rw [dnsAddOptEcs, dnsAddOptEcs, ← h.sourcePrefix, hread]

theorem addEcs_eq (h : Option.Rel SameOption o o') :
    QueryFrame.addEcs o = QueryFrame.addEcs o' := by
  cases h with
  | some h => exact h.dnsAddOptEcs_eq
  | none => rfl

/-- The bytes of two options that end one message are the same. -/
theorem LikeOption.same (h : LikeOption e e') (hends : e.wire <:+ m) (hends' : e'.wire <:+ m) :
    SameOption e e' := by
  have hlength : e.wire.length = e'.wire.length := by
    simp only [OptEcs.wire, List.length_append, length_beBytes, List.length_take,
      Vector.length_toList, List.length_cons, h.sourcePrefix]
  have hwire : e.wire = e'.wire :=
    (List.suffix_of_suffix_length_le hends hends' hlength.le).eq_of_length hlength
  refine ⟨h, ?_⟩
  simp only [OptEcs.wire, h.family, h.scopePrefix, h.sourcePrefix] at hwire ⊢
  exact List.append_cancel_left hwire

/-- The memory of a packet of `DNS_PACKSIZE` bytes. -/
abbrev packetRoom : Nat := dnsPacksize - sizeofPacket

/-- The numbers of the OPT record are kept beside the records. -/
theorem filled_numbers (h : Filled packetRoom p) (payloadsize optOption : Nat) :
    Filled packetRoom { p with payloadsize := payloadsize, optOption := optOption } := by
  obtain ⟨entries, hlayout⟩ := h.layout
  refine ⟨h.length, h.small, entries, hlayout.congr rfl rfl rfl ?_ ?_ fun _ _ => rfl⟩
  · intro type
    cases type <;> rfl
  · intro type
    cases type <;> rfl

theorem filled_start (h : q.start hitchhiking q.packet = .done () p) : Filled packetRoom p := by
  simp only [QueryFrame.start, dnsPacketInit, dnsSetOptPayloadSize, bind_eq_done,
    failWhen_eq_done, modify_eq_done] at h
  obtain ⟨_, p₀, ⟨_, _, ⟨-, rfl⟩, hinit⟩, h⟩ := h
  have h₀ : Filled packetRoom p₀ := by
    refine hinit ▸ ⟨List.length_replicate, by decide, [], ?_⟩
    exact (blank_init q.packet _ (show sizeofPacket ≤ dnsPacksize by decide)).layout
  obtain ⟨p₁, h₁, h⟩ : ∃ p₁, Filled packetRoom p₁ ∧ (do
      dnsAddDomain q.domain q.qtype classIn
      dnsSetOptPayloadSize (512 * 8)
      if q.edns0Do then dnsSetOptOption 0x8000 : Prog DnsFault Packet Unit) p₁ = .done () p := by
    split at h
    next =>
      obtain ⟨_, p₁, hdomain, hrest⟩ := bind_eq_done.mp h
      exact ⟨p₁, (h₀.addDomain _ _ _).post hdomain, hrest⟩
    next => exact ⟨p₀, h₀, h⟩
  obtain ⟨_, p₂, hdomain, h⟩ := bind_eq_done.mp h
  obtain ⟨_, p₃, hpayload, h⟩ := bind_eq_done.mp h
  have h₃ : Filled packetRoom p₃ :=
    modify_eq_done.mp hpayload ▸ filled_numbers ((h₁.addDomain _ _ _).post hdomain) _ _
  split at h
  next => exact modify_eq_done.mp h ▸ filled_numbers h₃ _ _
  next => exact (pure_eq_done.mp h).2 ▸ h₃

theorem filled_keepalive (h : Filled packetRoom p) (hdone : q.keepalive p = .done () p') :
    Filled packetRoom p' := by
  have hwp : wp q.keepalive (fun _ => Filled packetRoom) (fun _ => True) p := by
    refine wp_ite (fun _ => ?_) (fun _ => h)
    simp only [wp_bind, wp_attempt]
    exact h.addOptTcpKeepalive q.tcpKeepalive
  exact hwp.post hdone

/-- What a packet that was built went through. -/
theorem build_eq_some (h : q.build hitchhiking options = some m) :
    ∃ p p' head c, q.start hitchhiking q.packet = .done () p ∧ options p = .done () p' ∧
      dnsEncode p' (encodeContext q.inpacket) = .done head c ∧ c.data.take c.ptr = m := by
  simp only [QueryFrame.build] at h
  split at h
  next bytes s hrun =>
    cases h
    simp only [bind_eq_done, get_eq_done, pure_eq_done] at hrun
    obtain ⟨_, p, hstart, _, p', hoptions, _, _, ⟨rfl, rfl⟩, ⟨head, c⟩, _, hencode, rfl, -⟩ := hrun
    exact ⟨p, p', head, c, hstart, hoptions, (aside_eq_done.mp hencode).1, rfl⟩
  next => cases h

/-- The default packets of a query. -/
theorem build_addEcs_iff (h : Option.Rel LikeOption o o')
    (hm : q.build false (QueryFrame.addEcs o) = some m)
    (hm' : q.build false (QueryFrame.addEcs o') = some m') :
    m = m' ↔ Option.Rel SameOption o o' := by
  constructor
  · rintro rfl
    cases h with
    | none => exact .none
    | some h =>
    obtain ⟨p, p₁, _, _, hstart, hadd, hencode, rfl⟩ := build_eq_some hm
    obtain ⟨p', p₁', _, _, hstart', hadd', hencode', hm'⟩ := build_eq_some hm'
    have hends := (filled_start hstart).ecs_ends hadd hencode
    have hends' := (filled_start hstart').ecs_ends hadd' hencode'
    rw [hm'] at hends'
    exact .some (h.same hends hends')
  · intro hsame
    rw [addEcs_eq hsame, hm'] at hm
    exact (Option.some.inj hm).symm

/-- The packet of a query before its subnet is added. -/
def QueryFrame.Before (q : QueryFrame) (p : Packet) : Prop :=
  (do q.start q.hitchhiking; q.keepalive : Prog DnsFault Packet Unit) q.packet = .done () p

theorem filled_before (h : q.Before p) : Filled packetRoom p := by
  obtain ⟨_, p₀, hstart, hkeepalive⟩ := bind_eq_done.mp h
  exact filled_keepalive (filled_start hstart) hkeepalive

theorem hasRoom_eq (h : q.Before p) : q.hasRoom e = (dnsAddOptEcs e p).isDone := by
  obtain ⟨_, p₀, hstart, hkeepalive⟩ := bind_eq_done.mp h
  simp only [QueryFrame.hasRoom, bind, hstart, hkeepalive]

/-- What a packet that was built again went through. -/
theorem rebuild_eq_some (h : q.rebuild o = some m) :
    ∃ p p' r head c, q.Before p ∧ attempt (QueryFrame.addEcs o) p = .done r p' ∧
      dnsEncode p' (encodeContext q.inpacket) = .done head c ∧ c.data.take c.ptr = m := by
  obtain ⟨p₀, p', head, c, hstart, hoptions, hencode, rfl⟩ := build_eq_some h
  obtain ⟨_, p, hkeepalive, hoptions⟩ := bind_eq_done.mp hoptions
  obtain ⟨r, _, hadd, hdone⟩ := bind_eq_done.mp hoptions
  obtain ⟨-, rfl⟩ := pure_eq_done.mp hdone
  exact ⟨p, _, r, head, c, bind_eq_done.mpr ⟨_, p₀, hstart, hkeepalive⟩, hadd, hencode, rfl⟩

/-- The packets that are built again for a server. -/
theorem rebuild_iff (h : Option.Rel LikeOption o o') (hm : q.rebuild o = some m)
    (hm' : q.rebuild o' = some m') :
    m = m' ↔ Option.Rel SameOption (o.filter q.hasRoom) (o'.filter q.hasRoom) := by
  cases h with
  | none =>
    rw [hm, Option.some.injEq] at hm'
    exact ⟨fun _ => .none, fun _ => hm'⟩
  | @some e e' h =>
  obtain ⟨p, p₁, r, head, c, hbefore, hadd, hencode, hmessage⟩ := rebuild_eq_some hm
  obtain ⟨p', p₁', r', head', c', hbefore', hadd', hencode', hmessage'⟩ := rebuild_eq_some hm'
  obtain rfl : p = p' := by
    rw [QueryFrame.Before, hbefore, Outcome.done.injEq] at hbefore'
    exact hbefore'.2
  have hfilled := filled_before hbefore
  simp only [attempt, QueryFrame.addEcs] at hadd hadd'
  rcases hfilled.addOptEcs_alike h.sourcePrefix with ⟨p₂, p₂', hdone, hdone'⟩ | ⟨hsame, hrefused⟩
  · -- both options are in their packets
    have hroom : q.hasRoom e = true := by rw [hasRoom_eq hbefore, hdone]; rfl
    have hroom' : q.hasRoom e' = true := by rw [hasRoom_eq hbefore, hdone']; rfl
    rw [Option.filter_some_pos hroom, Option.filter_some_pos hroom']
    rw [hdone, Outcome.done.injEq] at hadd
    rw [hdone', Outcome.done.injEq] at hadd'
    obtain ⟨-, rfl⟩ := hadd
    obtain ⟨-, rfl⟩ := hadd'
    constructor
    · rintro rfl
      have hends := hfilled.ecs_ends hdone hencode
      have hends' := hfilled.ecs_ends hdone' hencode'
      rw [hmessage] at hends
      rw [hmessage'] at hends'
      exact .some (h.same hends hends')
    · intro hrel
      rw [QueryFrame.rebuild, addEcs_eq hrel, ← QueryFrame.rebuild, hm'] at hm
      exact (Option.some.inj hm).symm
  · -- the packets have no room
    have hroom : q.hasRoom e = false := by rw [hasRoom_eq hbefore, hrefused]
    have hroom' : q.hasRoom e' = false := by rw [hasRoom_eq hbefore, ← hsame, hrefused]
    rw [Option.filter_some_neg (by simp [hroom]), Option.filter_some_neg (by simp [hroom'])]
    refine ⟨fun _ => .none, fun _ => ?_⟩
    rw [hsame, hadd', Outcome.done.injEq] at hadd
    obtain ⟨-, rfl⟩ := hadd
    rw [hencode, Outcome.done.injEq] at hencode'
    obtain ⟨-, rfl⟩ := hencode'
    exact hmessage.symm.trans hmessage'

end Packets

/-- A query for the addresses of `a` to a server without flags. -/
def exampleFrame : QueryFrame :=
  ⟨7, CStr.ofString "a", DnsType.a.code, false, false, 0, false,
    ⟨0, zeroHead, 0, 0, 0, 0, 0, 0, 0, 0, [], 0, 0, []⟩, List.replicate (512 * 8) 0, zeroEcs⟩

/-- The group has a subnet with a prefix of twenty bits. -/
def groupSubnet (ip : HostAddr) : Subnets :=
  ⟨none, none, some ⟨ip, 20⟩, none, none, none⟩

end SmartDns.Client
