import SmartDns.Dns.Name

/-!
# Packets and their records

`struct dns_packet` with the chained records behind it.  `data` is the memory
`packet->data`, which a packet of `size` bytes has `size - sizeof(*packet)`
bytes of.  A record starts with its head, `struct dns_rrs`: the address of the
packet, the offset of the next record of the section, the length and the type;
all of them in the byte order of the host, least significant byte first.  The
record itself follows in wire order.  Offsets and counts are 16 bits wide.

A pointer to a record is its offset in `data`.
-/

namespace SmartDns.Dns

open Prog

/-- `dns_rr_type`. -/
inductive RrType
  | qd
  | an
  | ns
  | nr
  | opt
deriving DecidableEq, Repr

/-- The record types that the code tells apart. -/
inductive DnsType
  | a
  | ns
  | cname
  | soa
  | ptr
  | aaaa
  | srv
  | opt
  | svcb
  | https
  | other (code : Nat)
deriving DecidableEq, Repr

/-- The number of a type in `dns_type_t`. -/
def DnsType.code : DnsType → Nat
  | .a => 1
  | .ns => 2
  | .cname => 5
  | .soa => 6
  | .ptr => 12
  | .aaaa => 28
  | .srv => 33
  | .opt => 41
  | .svcb => 64
  | .https => 65
  | .other code => code

def DnsType.ofCode (code : Nat) : DnsType :=
  if code = 1 then .a
  else if code = 2 then .ns
  else if code = 5 then .cname
  else if code = 6 then .soa
  else if code = 12 then .ptr
  else if code = 28 then .aaaa
  else if code = 33 then .srv
  else if code = 41 then .opt
  else if code = 64 then .svcb
  else if code = 65 then .https
  else .other code

/-- `DNS_T_TXT`. -/
def typeTxt : Nat := 16

/-- `DNS_C_IN`. -/
def classIn : Nat := 1

/-- `DNS_RR_END`. -/
def rrEnd : Nat := 0xFFFF

/-- `DNS_RR_A_LEN`. -/
def rrALen : Nat := 4

/-- `DNS_RR_AAAA_LEN`. -/
def rrAaaaLen : Nat := 16

/-- `sizeof(struct dns_packet)`. -/
def sizeofPacket : Nat := 152

/-- `sizeof(struct dns_rrs)`. -/
def sizeofRrs : Nat := 16

/-- `struct dns_head`. -/
structure Head where
  id : Nat
  qr : Nat
  opcode : Nat
  aa : Nat
  tc : Nat
  rd : Nat
  ra : Nat
  z : Nat
  ad : Nat
  cd : Nat
  rcode : Nat
  qdcount : Nat
  ancount : Nat
  nscount : Nat
  nrcount : Nat
deriving DecidableEq, Repr

/-- `struct dns_packet`.  `addr` is the address of the packet, which every
record head repeats. -/
structure Packet where
  addr : Nat
  head : Head
  questions : Nat
  answers : Nat
  nameservers : Nat
  additional : Nat
  optcount : Nat
  optional : Nat
  payloadsize : Nat
  optOption : Nat
  namedict : List DictItem
  size : Nat
  len : Nat
  data : Bytes
deriving DecidableEq, Repr

section

variable (packet : Packet)

/-- The offset of the first record of a section. -/
def Packet.start : RrType → Nat
  | .qd => packet.questions
  | .an => packet.answers
  | .ns => packet.nameservers
  | .nr => packet.additional
  | .opt => packet.optional

def Packet.count : RrType → Nat
  | .qd => packet.head.qdcount
  | .an => packet.head.ancount
  | .ns => packet.head.nscount
  | .nr => packet.head.nrcount
  | .opt => packet.optcount

def Packet.setStart (start : Nat) : RrType → Packet
  | .qd => { packet with questions := start }
  | .an => { packet with answers := start }
  | .ns => { packet with nameservers := start }
  | .nr => { packet with additional := start }
  | .opt => { packet with optional := start }

def Packet.setCount (count : Nat) : RrType → Packet
  | .qd => { packet with head := { packet.head with qdcount := count } }
  | .an => { packet with head := { packet.head with ancount := count } }
  | .ns => { packet with head := { packet.head with nscount := count } }
  | .nr => { packet with head := { packet.head with nrcount := count } }
  | .opt => { packet with optcount := count }

/-- `rrs->next`. -/
def Packet.rrsNext (rrs : Nat) : Option Nat :=
  (readAt packet.data (rrs + 8) 2).map leNat

/-- `rrs->len`. -/
def Packet.rrsLen (rrs : Nat) : Option Nat :=
  (readAt packet.data (rrs + 10) 2).map leNat

/-- `rrs->type`. -/
def Packet.rrsType (rrs : Nat) : Option Nat :=
  (readAt packet.data (rrs + 12) 4).map leNat

end

/-- Write into the memory behind the packet. -/
def patchPacket (pos : Nat) (bs : Bytes) : Prog DnsFault Packet Unit := do
  let packet ← Prog.get
  let data ← orAbort .write (writeAt packet.data pos bs)
  Prog.modify (fun p => { p with data := data })

/-! ## Iteration -/

def dnsGetRrsStart (packet : Packet) (type : RrType) : Option Nat :=
  if packet.start type = rrEnd then none else some (packet.start type)

def dnsGetRrsNext {σ : Type} (packet : Packet) (rrs : Nat) : Prog DnsFault σ (Option Nat) := do
  let next ← orAbort .read (packet.rrsNext rrs)
  pure (if next = rrEnd then none else some next)

/-- `for (i = 0; i < count && rrs; i++, rrs = dns_get_rrs_next(packet, rrs))`. -/
def forRrs {σ α : Type} (packet : Packet) (body : Nat → Prog DnsFault σ α) :
    Option Nat → Nat → Prog DnsFault σ (List α)
  | _, 0 => pure []
  | none, _ + 1 => pure []
  | some rrs, count + 1 => do
      let a ← body rrs
      let next ← dnsGetRrsNext packet rrs
      let rest ← forRrs packet body next count
      pure (a :: rest)

/-- The walk over a section of a packet. -/
def forSection {σ α : Type} (packet : Packet) (type : RrType) (body : Nat → Prog DnsFault σ α) :
    Prog DnsFault σ (List α) :=
  forRrs packet body (dnsGetRrsStart packet type) (packet.count type)

def dnsInitContextByRrs {σ : Type} (packet : Packet) (rrs : Nat) : Prog DnsFault σ Context := do
  let len ← orAbort .read (packet.rrsLen rrs)
  pure
    { data := packet.data
      maxsize := rrs + sizeofRrs + len
      ptr := rrs + sizeofRrs
      namedict := packet.namedict }

/-! ## Adding a record -/

/-- The context of a new record at the end of the packet. -/
def Packet.context (packet : Packet) : Context where
  data := packet.data
  maxsize := packet.size - sizeofPacket
  ptr := packet.len + sizeofRrs
  namedict := packet.namedict

/-- The packet after its context was written to: the two share memory and
dictionary. -/
def Packet.store (packet : Packet) (context : Context) : Packet :=
  { packet with data := context.data, namedict := context.namedict }

def inPacket {α : Type} (m : Prog DnsFault Context α) : Prog DnsFault Packet α :=
  zoom Packet.context Packet.store m

def dnsAddRrsStart : Prog DnsFault Packet Unit :=
  failWhen (fun packet => packet.size ≤ packet.len + sizeofRrs)

/-- `while (rrs_next->next != DNS_RR_END)`.  There are no more than `2 ^ 16`
offsets, so a longer walk goes round in a circle. -/
def lastRrs {σ : Type} (packet : Packet) : Nat → Nat → Prog DnsFault σ Nat
  | 0, _ => Prog.abort .hang
  | rounds + 1, rrs => do
      let next ← orAbort .read (packet.rrsNext rrs)
      if next = rrEnd then pure rrs else lastRrs packet rounds next

/-- The head of a new record, which is the last of its section. -/
def rrsHead (addr rtype len : Nat) : Bytes :=
  leBytes 8 addr ++ leBytes 2 rrEnd ++ leBytes 2 len ++ leBytes 4 rtype

/-- Count a new record of `len` bytes. -/
def Packet.counted (packet : Packet) (type : RrType) (len : Nat) : Packet :=
  { packet.setCount ((packet.count type + 1) % 2 ^ 16) type with
    len := packet.len + len + sizeofRrs }

def dnsRrAddEnd (type : RrType) (rtype len : Nat) : Prog DnsFault Packet Unit := do
  failWhen (fun packet => packet.size < packet.len + len + sizeofPacket + sizeofRrs)
  let packet ← Prog.get
  if packet.start type = rrEnd then Prog.modify (fun p => p.setStart (packet.len % 2 ^ 16) type)
  else do
    let last ← lastRrs packet (2 ^ 16) (packet.start type)
    patchPacket (last + 8) (leBytes 2 packet.len)
  patchPacket packet.len (rrsHead packet.addr rtype len)
  Prog.modify (fun p => p.counted type len)

def dnsAddQrHead (domain : CStr) (qtype qclass : Nat) : Prog DnsFault Context Nat := do
  let ret ← dnsEncodeDomain domain
  failWhen (fun c => c.leftLen < 4)
  dnsWriteShort qtype
  dnsWriteShort qclass
  pure (ret + 4)

def dnsAddRrHead (domain : CStr) (qtype qclass ttl rrLen : Nat) : Prog DnsFault Context Nat := do
  let len ← dnsAddQrHead domain qtype qclass
  failWhen (fun c => c.leftLen < 6)
  dnsWriteInt ttl
  dnsWriteShort rrLen
  pure (len + 6)

def dnsAddRaw (rrtype : RrType) (rtype : Nat) (domain : CStr) (ttl : Nat) (raw : Bytes) :
    Prog DnsFault Packet Unit := do
  dnsAddRrsStart
  let len ← inPacket do
    let len ← dnsAddRrHead domain rtype classIn ttl raw.length
    failWhen (fun c => c.leftLen < raw.length)
    writeBytes raw
    pure (len + raw.length)
  dnsRrAddEnd rrtype rtype len

def dnsAddDomain (domain : CStr) (qtype qclass : Nat) : Prog DnsFault Packet Unit := do
  dnsAddRrsStart
  let len ← inPacket (dnsAddQrHead domain qtype qclass)
  dnsRrAddEnd .qd DnsType.cname.code len

/-- A string with its terminator, as `strnlen(s, DNS_MAX_CNAME_LEN) + 1` bytes. -/
def cnameBytes (s : CStr) : Bytes :=
  (s.bytes ++ [0]).take (min s.strlen maxCnameLen + 1)

/-- The `n` bytes that `safe_strncpy` writes. -/
def safeStrncpy (s : CStr) (n : Nat) : Bytes :=
  (s.bytes ++ List.replicate n 0).take (n - 1) ++ [0]

def dnsAddCname (type : RrType) (domain : CStr) (ttl : Nat) (cname : CStr) :
    Prog DnsFault Packet Unit :=
  dnsAddRaw type DnsType.cname.code domain ttl (cnameBytes cname)

def dnsAddPtr (type : RrType) (domain : CStr) (ttl : Nat) (cname : CStr) :
    Prog DnsFault Packet Unit :=
  dnsAddRaw type DnsType.ptr.code domain ttl (cnameBytes cname)

def dnsAddNs (type : RrType) (domain : CStr) (ttl : Nat) (cname : CStr) :
    Prog DnsFault Packet Unit :=
  dnsAddRaw type DnsType.ns.code domain ttl (cnameBytes cname)

/-- `dns_add_A`; the address has `DNS_RR_A_LEN` bytes. -/
def dnsAddA (type : RrType) (domain : CStr) (ttl : Nat) (addr : Vector UInt8 rrALen) :
    Prog DnsFault Packet Unit :=
  dnsAddRaw type DnsType.a.code domain ttl addr.toList

def dnsAddAaaa (type : RrType) (domain : CStr) (ttl : Nat) (addr : Vector UInt8 rrAaaaLen) :
    Prog DnsFault Packet Unit :=
  dnsAddRaw type DnsType.aaaa.code domain ttl addr.toList

/-- A write into a local buffer of `capacity` bytes. -/
def intoBuffer {σ : Type} (capacity : Nat) (bs : Bytes) : Prog DnsFault σ Bytes :=
  if bs.length ≤ capacity then pure bs else Prog.abort .overflow

def dnsAddTxt (type : RrType) (domain : CStr) (ttl : Nat) (txt : CStr) :
    Prog DnsFault Packet Unit := do
  let textLen := min txt.strlen maxCnameLen
  failWhen (fun _ => maxCnameLen - 1 < textLen)
  let data ← intoBuffer maxCnameLen (UInt8.ofNat textLen :: txt.bytes.take textLen)
  dnsAddRaw type typeTxt domain ttl data

/-- `struct dns_soa`. -/
structure Soa where
  mname : CStr
  rname : CStr
  serial : Nat
  refresh : Nat
  retry : Nat
  expire : Nat
  minimum : Nat
deriving DecidableEq

def Soa.numbers (soa : Soa) : List Nat :=
  [soa.serial, soa.refresh, soa.retry, soa.expire, soa.minimum]

/-- `sizeof(struct dns_soa)`. -/
def sizeofSoa : Nat := 2 * maxCnameLen + 20

/-- `dns_add_SOA`.  The two names of a `struct dns_soa` are shorter than
`DNS_MAX_CNAME_LEN`. -/
def dnsAddSoa (type : RrType) (domain : CStr) (ttl : Nat) (soa : Soa) :
    Prog DnsFault Packet Unit := do
  let data ← intoBuffer sizeofSoa
    (soa.mname.bytes.take (maxCnameLen - 1) ++ [0] ++
      (soa.rname.bytes.take (maxCnameLen - 1) ++ [0]) ++ soa.numbers.flatMap (leBytes 4))
  dnsAddRaw type DnsType.soa.code domain ttl data

def dnsAddSrv (type : RrType) (domain : CStr) (ttl priority weight port : Nat) (target : CStr) :
    Prog DnsFault Packet Unit := do
  let targetLen := min target.strlen maxCnameLen + 1
  failWhen (fun _ => maxCnameLen ≤ 6 + targetLen)
  let data ← intoBuffer maxCnameLen
    (leBytes 2 priority ++ leBytes 2 weight ++ leBytes 2 port ++ safeStrncpy target targetLen)
  dnsAddRaw type DnsType.srv.code domain ttl data

/-! ## Reading a record back -/

structure RrHead where
  domain : Bytes
  qtype : Nat
  qclass : Nat
  ttl : Nat
  rrLen : Nat
deriving DecidableEq, Repr

def dnsGetQrHead (maxsize : Nat) : Prog DnsFault Context (Bytes × Nat × Nat) := do
  let domain ← dnsDecodeDomain maxsize
  failWhen (fun c => c.leftLen < 4)
  let qtype ← dnsReadShort
  let qclass ← dnsReadShort
  pure (domain, qtype, qclass)

/-- `_dns_get_rr_head`, which goes on reading when the question part failed. -/
def dnsGetRrHead (maxsize : Nat) : Prog DnsFault Context RrHead := do
  let question ← Prog.attempt (dnsGetQrHead maxsize)
  failWhen (fun c => c.leftLen < 6)
  let ttl ← dnsReadInt
  let rrLen ← dnsReadShort
  match question with
  | none => Prog.fail
  | some (domain, qtype, qclass) => pure ⟨domain, qtype, qclass, ttl, rrLen⟩

def dnsGetDomain {σ : Type} (packet : Packet) (rrs maxsize : Nat) :
    Prog DnsFault σ (Bytes × Nat × Nat) := do
  let context ← dnsInitContextByRrs packet rrs
  let (question, _) ← aside context (dnsGetQrHead maxsize)
  pure question

/-- A string copied by `safe_strncpy` into `size` bytes. -/
def copyStr (data : Bytes) (pos size : Nat) : CStr :=
  CStr.ofBuffer ((CStr.ofBuffer (data.drop pos)).bytes.take (size - 1))

end SmartDns.Dns
