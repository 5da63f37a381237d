import SmartDns.Dns.Encode

/-!
# Decoding a message

`dns_decode`: the head, then the questions and the records of the three
sections, each entered into the packet by the function that adds its type.
-/

namespace SmartDns.Dns

open Prog

/-- A message being read and the packet being filled. -/
structure Decoder where
  context : Context
  packet : Packet
deriving DecidableEq, Repr

def onMessage {α : Type} (m : Prog DnsFault Context α) : Prog DnsFault Decoder α :=
  zoom Decoder.context (fun d c => { d with context := c }) m

def toPacket {α : Type} (m : Prog DnsFault Packet α) : Prog DnsFault Decoder α :=
  zoom Decoder.packet (fun d p => { d with packet := p }) m

/-- The fields of the head in its second word. -/
def splitFields (fields : Nat) (head : Head) : Head :=
  { head with
    qr := (fields &&& 0x8000) >>> 15
    opcode := (fields &&& 0x7800) >>> 11
    aa := (fields &&& 0x0400) >>> 10
    tc := (fields &&& 0x0200) >>> 9
    rd := (fields &&& 0x0100) >>> 8
    ra := (fields &&& 0x0080) >>> 7
    z := (fields &&& 0x0040) >>> 6
    ad := (fields &&& 0x0020) >>> 5
    cd := (fields &&& 0x0010) >>> 4
    rcode := (fields &&& 0x000F) >>> 0 }

def dnsDecodeHead (head : Head) : Prog DnsFault Context Head := do
  failWhen (fun c => c.leftLen < 12)
  let id ← dnsReadShort
  let fields ← dnsReadShort
  let qdcount ← dnsReadShort
  let ancount ← dnsReadShort
  let nscount ← dnsReadShort
  let nrcount ← dnsReadShort
  pure
    { splitFields fields head with
      id := id
      qdcount := qdcount
      ancount := ancount
      nscount := nscount
      nrcount := nrcount }

def dnsDecodeQrHead (domainSize : Nat) : Prog DnsFault Context (Bytes × Nat × Nat) := do
  let domain ← dnsDecodeDomain domainSize
  failWhen (fun c => c.leftLen < 4)
  let qtype ← dnsReadShort
  let qclass ← dnsReadShort
  pure (domain, qtype, qclass)

/-- `_dns_decode_rr_head`.  A `ttl` of `2 ^ 31` or more is a negative `int`. -/
def dnsDecodeRrHead (domainSize : Nat) : Prog DnsFault Context RrHead := do
  let (domain, qtype, qclass) ← dnsDecodeQrHead domainSize
  failWhen (fun c => c.leftLen < 6)
  let ttl ← dnsReadInt
  let rrLen ← dnsReadShort
  failWhen (fun _ => 2 ^ 31 ≤ ttl)
  failWhen (fun c => c.leftLen < rrLen)
  pure ⟨domain, qtype, qclass, ttl, rrLen⟩

def dnsDecodeRaw (len : Nat) : Prog DnsFault Context Bytes := do
  failWhen (fun c => c.leftLen < len)
  readBytes len

def dnsDecodeCname (cnameSize : Nat) : Prog DnsFault Context CStr := do
  let cname ← dnsDecodeDomain cnameSize
  pure (CStr.ofBuffer cname)

def dnsDecodeSoa : Prog DnsFault Context Soa := do
  let mname ← dnsDecodeDomain (maxCnameLen - 1)
  let rname ← dnsDecodeDomain (maxCnameLen - 1)
  failWhen (fun c => c.leftLen < 20)
  let serial ← dnsReadInt
  let refresh ← dnsReadInt
  let retry ← dnsReadInt
  let expire ← dnsReadInt
  let minimum ← dnsReadInt
  pure ⟨CStr.ofBuffer mname, CStr.ofBuffer rname, serial, refresh, retry, expire, minimum⟩

def dnsDecodeSrv (targetSize : Nat) : Prog DnsFault Context (Nat × Nat × Nat × CStr) := do
  failWhen (fun c => c.leftLen < 6)
  let priority ← dnsReadShort
  let weight ← dnsReadShort
  let port ← dnsReadShort
  let target ← dnsDecodeDomain targetSize
  pure (priority, weight, port, CStr.ofBuffer target)

/-! ## The OPT record -/

def dnsDecodeOptEcs (optLen : Nat) : Prog DnsFault Context OptEcs := do
  failWhen (fun _ => optLen < 4)
  let family ← dnsReadShort
  let sourcePrefix ← dnsReadChar
  let scopePrefix ← dnsReadChar
  let len := prefixBytes sourcePrefix
  failWhen (fun c => c.leftLen < len ∨ rrAaaaLen < len)
  let addr ← readBytes len
  let addr ← intoBuffer rrAaaaLen addr
  pure ⟨family, sourcePrefix, scopePrefix, Vector.ofFn (fun i => addr.getD i 0)⟩

/-- `_dns_decode_opt_cookie`; the cookie is not kept. -/
def dnsDecodeOptCookie (optLen : Nat) : Prog DnsFault Context Unit := do
  failWhen (fun _ => optLen < 8)
  let _ ← readBytes 8
  if optLen ≤ 8 then pure ()
  else do
    failWhen (fun _ => optLen - 8 < 8 ∨ 32 < optLen - 8)
    let cookie ← readBytes (optLen - 8)
    let _ ← intoBuffer 32 cookie
    pure ()

def dnsDecodeOptTcpKeepalive (optLen : Nat) : Prog DnsFault Context Nat :=
  if optLen = 0 then pure 0
  else do
    failWhen (fun _ => optLen < 2)
    dnsReadShort

/-- One option of `_dns_decode_opt`. -/
def decodeOption : Prog DnsFault Decoder Unit := do
  failWhen (fun d => d.context.leftLen < 4)
  let optCode ← onMessage dnsReadShort
  let optLen ← onMessage dnsReadShort
  failWhen (fun d => d.context.leftLen < optLen)
  if optCode = optEcs then do
    let ecs ← onMessage (dnsDecodeOptEcs optLen)
    toPacket (dnsAddOptEcs ecs)
  else if optCode = optCookie then onMessage (dnsDecodeOptCookie optLen)
  else if optCode = optTcpKeepalive then do
    let timeout ← onMessage (dnsDecodeOptTcpKeepalive optLen)
    toPacket (dnsAddOptTcpKeepalive timeout)
  else onMessage (advance optLen)

/-- `_dns_decode_opt`.  Every option takes at least four bytes. -/
def dnsDecodeOpt (ttl rrLen : Nat) : Prog DnsFault Decoder Unit := do
  let d ← Prog.get
  if ttl / 2 ^ 16 ≠ 0 then pure ()
  else Prog.loop .hang (fun e => e.context.ptr - d.context.ptr < rrLen) decodeOption rrLen

/-! ## SVCB and HTTPS records -/

/-- A decoder with the record that it builds. -/
structure SvcbDecoder where
  context : Context
  packet : Packet
  nested : RrNested
deriving DecidableEq, Repr

def svcbMessage {α : Type} (m : Prog DnsFault Context α) : Prog DnsFault SvcbDecoder α :=
  zoom SvcbDecoder.context (fun d c => { d with context := c }) m

/-- Build the record; a failure is ignored. -/
def svcbRecord (m : Prog DnsFault Nesting Unit) : Prog DnsFault SvcbDecoder Unit := do
  let _ ← Prog.attempt (zoom (fun d => (⟨d.packet, d.nested⟩ : Nesting))
    (fun d n => { d with packet := n.packet, nested := n.nested }) m)
  pure ()

/-- One parameter of `_dns_decode_SVCB_HTTPS`. -/
def decodeSvcparam : Prog DnsFault SvcbDecoder Unit := do
  failWhen (fun d => d.context.leftLen < 4)
  let key ← svcbMessage dnsReadShort
  let valueLen ← svcbMessage dnsReadShort
  failWhen (fun d => d.context.leftLen < valueLen)
  let value ← svcbMessage (readBytes valueLen)
  if knownSvcKey key then svcbRecord (inNested (dnsSvcbAddRaw key value))
  else pure ()

/-- `_dns_decode_SVCB_HTTPS`, which enters the record into the answer section
whatever `type` is. -/
def dnsDecodeSvcbHttps (domain : CStr) (_type : RrType) (qtype ttl rrLen : Nat) :
    Prog DnsFault Decoder Unit := do
  let start ← Prog.get
  failWhen (fun _ => rrLen < 2)
  failWhen (fun d => d.context.leftLen < rrLen)
  let priority ← onMessage dnsReadShort
  let target ← onMessage (dnsDecodeDomain maxCnameLen)
  zoom (fun d => (⟨d.context, d.packet, ⟨0, 0, none, none, 0, .an, qtype⟩⟩ : SvcbDecoder))
    (fun _ s => ⟨s.context, s.packet⟩) do
      svcbRecord (dnsAddSvcbHttpsStart .an qtype domain ttl priority (CStr.ofBuffer target))
      Prog.loop .hang (fun s => s.context.ptr - start.context.ptr < rrLen) decodeSvcparam rrLen
      svcbRecord dnsAddRrNestedEnd

/-! ## Sections -/

def dnsDecodeQd : Prog DnsFault Decoder Unit := do
  let (domain, qtype, qclass) ← onMessage (dnsDecodeQrHead maxCnameLen)
  toPacket (dnsAddDomain (CStr.ofBuffer domain) qtype qclass)

/-- The data of a record, by its type. -/
def decodeRrData (type : RrType) (domain : CStr) (head : RrHead) : Prog DnsFault Decoder Unit := do
  let start ← Prog.get
  match DnsType.ofCode head.qtype with
  | .a => do
      let addr ← onMessage (dnsDecodeRaw rrALen)
      toPacket (dnsAddA type domain head.ttl (Vector.ofFn (fun i => addr.getD i 0)))
  | .cname => do
      let cname ← onMessage (dnsDecodeCname maxCnameLen)
      toPacket (dnsAddCname type domain head.ttl cname)
  | .soa => do
      let soa ← onMessage dnsDecodeSoa
      toPacket (dnsAddSoa type domain head.ttl soa)
  | .ns => do
      let ns ← onMessage (dnsDecodeCname maxCnameLen)
      toPacket (dnsAddNs type domain head.ttl ns)
  | .ptr => do
      let name ← onMessage (dnsDecodeCname maxCnameLen)
      toPacket (dnsAddPtr type domain head.ttl name)
  | .aaaa => do
      let addr ← onMessage (dnsDecodeRaw rrAaaaLen)
      toPacket (dnsAddAaaa type domain head.ttl (Vector.ofFn (fun i => addr.getD i 0)))
  | .srv => do
      let (priority, weight, port, target) ← onMessage (dnsDecodeSrv maxCnameLen)
      toPacket (dnsAddSrv type domain head.ttl priority weight port target)
  | .opt => do
      dnsDecodeOpt head.ttl head.rrLen
      failWhen (fun d => d.context.ptr ≠ start.context.ptr + head.rrLen)
      toPacket (dnsSetOptOption head.ttl)
      toPacket (dnsSetOptPayloadSize head.qclass)
  | .https => do
      dnsDecodeSvcbHttps domain type head.qtype head.ttl head.rrLen
      failWhen (fun d => d.context.ptr ≠ start.context.ptr + head.rrLen)
  | .svcb => do
      dnsDecodeSvcbHttps domain type head.qtype head.ttl head.rrLen
      failWhen (fun d => d.context.ptr ≠ start.context.ptr + head.rrLen)
  | .other code => do
      failWhen (fun d => d.context.leftLen < head.rrLen ∨ maxRawLen ≤ head.rrLen)
      let raw ← onMessage (dnsDecodeRaw head.rrLen)
      let raw ← intoBuffer maxRawLen raw
      toPacket (dnsAddRaw type code domain head.ttl raw)

def dnsDecodeAn (type : RrType) : Prog DnsFault Decoder Unit := do
  let head ← onMessage (dnsDecodeRrHead maxCnameLen)
  let start ← Prog.get
  decodeRrData type (CStr.ofBuffer head.domain) head
  failWhen (fun d => d.context.ptr ≠ start.context.ptr + head.rrLen)

/-- Take the number of records out of the head and read as many. -/
def decodeSection (type : RrType) (record : Prog DnsFault Decoder Unit) :
    Prog DnsFault Decoder Unit := do
  let d ← Prog.get
  toPacket (Prog.modify (fun p => p.setCount 0 type))
  let _ ← Prog.collect record (d.packet.count type)
  pure ()

def dnsDecodeBody : Prog DnsFault Decoder Unit := do
  decodeSection .qd dnsDecodeQd
  decodeSection .an (dnsDecodeAn .an)
  decodeSection .ns (dnsDecodeAn .ns)
  decodeSection .nr (dnsDecodeAn .nr)

/-- The fields of a head that `dns_packet_init` takes over. -/
def Head.withoutCounts (head : Head) : Head :=
  { head with qdcount := 0, ancount := 0, nscount := 0, nrcount := 0 }

def dnsPacketInit (size : Nat) (head : Head) : Prog DnsFault Packet Unit := do
  failWhen (fun _ => size < sizeofPacket)
  Prog.modify (fun p =>
    { addr := p.addr
      head := head.withoutCounts
      questions := rrEnd
      answers := rrEnd
      nameservers := rrEnd
      additional := rrEnd
      optcount := 0
      optional := rrEnd
      payloadsize := 0
      optOption := 0
      namedict := []
      size := size
      len := 0
      data := List.replicate (size - sizeofPacket) 0 })

def zeroHead : Head :=
  ⟨0, 0, 0, 0, 0, 0, 0, 0, 0, 0, 0, 0, 0, 0, 0⟩

def decodeMessage : Prog DnsFault Decoder Unit := do
  let d ← Prog.get
  let head ← onMessage (dnsDecodeHead d.packet.head)
  toPacket (Prog.modify (fun p => { p with head := head }))
  dnsDecodeBody
  Prog.modify (fun d => { d with packet := { d.packet with size := d.context.ptr + sizeofPacket } })

/-- `dns_decode` of a message into a packet buffer of `maxsize` bytes. -/
def dnsDecode (maxsize : Nat) (data : Bytes) : Prog DnsFault Packet Unit := do
  dnsPacketInit maxsize zeroHead
  zoom (fun p => (⟨⟨data, data.length, 0, p.namedict⟩, p⟩ : Decoder)) (fun _ d => d.packet)
    decodeMessage

end SmartDns.Dns
