import SmartDns.Dns.Nested

/-!
# Encoding a packet

`dns_encode`: the head, the records of each section by type, the OPT record
with the options of the packet, and the counts once more.
-/

namespace SmartDns.Dns

open Prog

/-- The second word of the head: each field shifted to its place and cut off by
its mask. -/
def headFields (head : Head) : Nat :=
  (head.qr <<< 15 &&& 0x8000) ||| (head.opcode <<< 11 &&& 0x7800) |||
    (head.aa <<< 10 &&& 0x0400) ||| (head.tc <<< 9 &&& 0x0200) |||
    (head.rd <<< 8 &&& 0x0100) ||| (head.ra <<< 7 &&& 0x0080) |||
    (head.z <<< 6 &&& 0x0040) ||| (head.ad <<< 5 &&& 0x0020) |||
    (head.cd <<< 4 &&& 0x0010) ||| (head.rcode <<< 0 &&& 0x000F)

def headCounts (head : Head) : Bytes :=
  beBytes 2 head.qdcount ++ beBytes 2 head.ancount ++ beBytes 2 head.nscount ++
    beBytes 2 head.nrcount

def dnsEncodeHead (head : Head) : Prog DnsFault Context Unit := do
  failWhen (fun c => c.leftLen < 12)
  dnsWriteShort head.id
  dnsWriteShort (headFields head)
  writeBytes (headCounts head)

def dnsEncodeHeadCount (head : Head) : Prog DnsFault Context Unit :=
  patch 4 (headCounts head)

def dnsEncodeQrHead (domain : CStr) (qtype qclass : Nat) : Prog DnsFault Context Unit := do
  let _ ← dnsEncodeDomain domain
  failWhen (fun c => c.leftLen < 4)
  dnsWriteShort qtype
  dnsWriteShort qclass

/-- `_dns_encode_rr_head`; it returns the place of the data length. -/
def dnsEncodeRrHead (domain : CStr) (qtype qclass ttl rrLen : Nat) : Prog DnsFault Context Nat := do
  dnsEncodeQrHead domain qtype qclass
  failWhen (fun c => c.leftLen < 6)
  dnsWriteInt ttl
  let context ← Prog.get
  dnsWriteShort rrLen
  pure context.ptr

section

variable (packet : Packet)

/-- The head of a record of the packet, and a context behind it. -/
def dnsGetRrsHead (rrs : Nat) : Prog DnsFault Context (RrHead × Context) := do
  let context ← dnsInitContextByRrs packet rrs
  aside context (dnsGetRrHead maxCnameLen)

def dnsEncodeRaw (rrs : Nat) : Prog DnsFault Context Unit := do
  let (head, data) ← dnsGetRrsHead packet rrs
  let _ ← dnsEncodeRrHead (CStr.ofBuffer head.domain) head.qtype head.qclass head.ttl head.rrLen
  failWhen (fun c => c.leftLen < head.rrLen)
  let (raw, _) ← aside data (readBytes head.rrLen)
  writeBytes raw

/-- Encode the name that stands as a string at a place of the packet; return
the length of its encoding and the place behind the string. -/
def dnsEncodeString (pos : Nat) : Prog DnsFault Context (Nat × Nat) := do
  let string ← orAbort .read (strAt packet.data pos)
  let ret ← dnsEncodeDomain string
  pure (ret, pos + min string.strlen maxCnameLen + 1)

def dnsEncodeCname (rrs : Nat) : Prog DnsFault Context Unit := do
  let (head, data) ← dnsGetRrsHead packet rrs
  let rrLenPtr ← dnsEncodeRrHead (CStr.ofBuffer head.domain) head.qtype head.qclass head.ttl 1
  let (ret, _) ← dnsEncodeString packet data.ptr
  let len ← orAbort .read (packet.rrsLen rrs)
  failWhen (fun _ => len < 1 + ret)
  patch rrLenPtr (beBytes 2 ret)

/-- `_dns_write_intptr`: an integer of the packet, in wire order. -/
def dnsWriteIntptr (pos : Nat) : Prog DnsFault Context Unit := do
  let value ← orAbort .read (readAt packet.data pos 4)
  dnsWriteInt (leNat value)

def dnsWriteShortptr (pos : Nat) : Prog DnsFault Context Unit := do
  let value ← orAbort .read (readAt packet.data pos 2)
  dnsWriteShort (leNat value)

def dnsEncodeSoa (rrs : Nat) : Prog DnsFault Context Unit := do
  let (head, data) ← dnsGetRrsHead packet rrs
  let rrLenPtr ←
    dnsEncodeRrHead (CStr.ofBuffer head.domain) head.qtype head.qclass head.ttl head.rrLen
  let (mret, pos) ← dnsEncodeString packet data.ptr
  let (rret, pos) ← dnsEncodeString packet pos
  let len ← orAbort .read (packet.rrsLen rrs)
  failWhen (fun _ => len < mret + rret)
  patch rrLenPtr (beBytes 2 (mret + rret + 20))
  failWhen (fun c => c.leftLen < 20)
  dnsWriteIntptr packet pos
  dnsWriteIntptr packet (pos + 4)
  dnsWriteIntptr packet (pos + 8)
  dnsWriteIntptr packet (pos + 12)
  dnsWriteIntptr packet (pos + 16)

def dnsEncodeSrv (rrs : Nat) : Prog DnsFault Context Unit := do
  let (head, data) ← dnsGetRrsHead packet rrs
  let rrLenPtr ←
    dnsEncodeRrHead (CStr.ofBuffer head.domain) head.qtype head.qclass head.ttl head.rrLen
  failWhen (fun c => c.leftLen < 6)
  dnsWriteShortptr packet data.ptr
  dnsWriteShortptr packet (data.ptr + 2)
  dnsWriteShortptr packet (data.ptr + 4)
  let (ret, _) ← dnsEncodeString packet (data.ptr + 6)
  patch rrLenPtr (beBytes 2 (6 + ret))

/-- The parameter keys that are passed on, `DNS_HTTPS_T_MANDATORY` to
`DNS_HTTPS_T_IPV6HINT`. -/
def knownSvcKey (key : Nat) : Bool :=
  key ≤ 6

/-- The body of the parameter loop of `_dns_encode_svcparam`. -/
def encodeSvcparam (rrsLen start param key len : Nat) :
    Prog DnsFault Context Unit := do
  failWhen (fun c => rrsLen < c.ptr - start ∨ c.leftLen ≤ 0)
  failWhen (fun c => c.leftLen < len + 4)
  dnsWriteShort key
  dnsWriteShort len
  if knownSvcKey key then do
    let value ← orAbort .read (readAt packet.data (param + 4) len)
    writeBytes value
  else Prog.modify (fun c => { c with ptr := c.ptr - 4 })

/-- `_dns_encode_svcparam`; a record that cannot be read is left out. -/
def dnsEncodeSvcparam (rrs : Nat) : Prog DnsFault Context Unit := do
  let svcparm ← Prog.attempt (dnsSvcparmStart packet rrs maxCnameLen)
  match svcparm with
  | none => pure ()
  | some svcparm => do
      let qtype ← orAbort .read (packet.rrsType rrs)
      let rrLenPtr ← dnsEncodeRrHead (CStr.ofBuffer svcparm.domain) qtype classIn svcparm.ttl 0
      let rrStart ← Prog.get
      failWhen (fun c => c.leftLen < 2)
      dnsWriteShort svcparm.priority
      let _ ← dnsEncodeDomain svcparm.target
      let start ← Prog.get
      let rrsLen ← orAbort .read (packet.rrsLen rrs)
      forSvcparams packet rrs (encodeSvcparam packet rrsLen start.ptr) packet.data.length
        svcparm.param
      failWhen (fun c => c.leftLen < 2)
      let context ← Prog.get
      patch rrLenPtr (beBytes 2 (context.ptr - rrStart.ptr))

def dnsEncodeOpt (rrs : Nat) : Prog DnsFault Context Unit := do
  let (head, data) ← dnsGetRrsHead packet rrs
  failWhen (fun _ => head.rrLen < 4)
  failWhen (fun c => c.leftLen < head.rrLen)
  let code ← orAbort .read (readAt packet.data data.ptr 2)
  let length ← orAbort .read (readAt packet.data (data.ptr + 2) 2)
  dnsWriteShort (leNat code)
  dnsWriteShort (leNat length)
  failWhen (fun c => c.leftLen < leNat length)
  if leNat code = optEcs then do
    dnsWriteShortptr packet (data.ptr + 4)
    let prefixes ← orAbort .read (readAt packet.data (data.ptr + 6) 2)
    writeBytes prefixes
    -- a length below four is a negative size for `memcpy`
    if leNat length < 4 then Prog.abort .overflow
    else do
      let addr ← orAbort .read (readAt packet.data (data.ptr + 8) (leNat length - 4))
      writeBytes addr
  else do
    let value ← orAbort .read (readAt packet.data (data.ptr + 4) (leNat length))
    writeBytes value

def dnsGetOptsDataLen : Prog DnsFault Context Nat := do
  let lens ← forSection packet .opt (fun rrs => do
    let (head, _) ← dnsGetRrsHead packet rrs
    pure head.rrLen)
  pure lens.sum

def dnsEncodeOpts : Prog DnsFault Context Unit := do
  let rrLen ← dnsGetOptsDataLen packet
  let _ ← dnsEncodeRrHead (CStr.ofBuffer []) DnsType.opt.code (max 512 packet.payloadsize)
    packet.optOption rrLen
  failWhen (fun c => c.leftLen < rrLen)
  let _ ← forSection packet .opt (dnsEncodeOpt packet)
  pure ()

/-- `_dns_encode_qd`.  In a question whose name starts with a hyphen the end of
the name is replaced by a pointer to offset 18. -/
def dnsEncodeQd (rrs : Nat) : Prog DnsFault Context Unit := do
  let (domain, qtype, qclass) ← dnsGetDomain packet rrs maxCnameLen
  dnsEncodeQrHead (CStr.ofBuffer domain) qtype qclass
  if (CStr.ofBuffer domain).bytes.head? = some 0x2D then do
    Prog.modify (fun c => { c with ptr := c.ptr - 7 })
    writeBytes [0xC0, 0x12]
    dnsWriteShort qtype
    dnsWriteShort qclass
  else pure ()

def dnsEncodeAn (rrs : Nat) : Prog DnsFault Context Unit := do
  let type ← orAbort .read (packet.rrsType rrs)
  match DnsType.ofCode type with
  | .a => dnsEncodeRaw packet rrs
  | .aaaa => dnsEncodeRaw packet rrs
  | .cname => dnsEncodeCname packet rrs
  | .ptr => dnsEncodeCname packet rrs
  | .soa => dnsEncodeSoa packet rrs
  | .srv => dnsEncodeSrv packet rrs
  | .https => dnsEncodeSvcparam packet rrs
  | .svcb => dnsEncodeSvcparam packet rrs
  | .ns => dnsEncodeRaw packet rrs
  | .opt => dnsEncodeRaw packet rrs
  | .other _ => dnsEncodeRaw packet rrs

/-- `_dns_encode_body`; it returns the head with the OPT record counted. -/
def dnsEncodeBody : Prog DnsFault Context Head := do
  let _ ← forSection packet .qd (dnsEncodeQd packet)
  let _ ← forSection packet .an (dnsEncodeAn packet)
  let _ ← forSection packet .ns (dnsEncodeAn packet)
  let _ ← forSection packet .nr (dnsEncodeAn packet)
  if 0 < packet.optcount ∨ 0 < packet.payloadsize then do
    dnsEncodeOpts packet
    pure { packet.head with nrcount := (packet.head.nrcount + 1) % 2 ^ 16 }
  else pure packet.head

/-- `dns_encode` into the buffer of the context; it returns the head that the
packet has afterwards. -/
def dnsEncode : Prog DnsFault Context Head := do
  dnsEncodeHead packet.head
  let head ← dnsEncodeBody packet
  dnsEncodeHeadCount head
  pure head

end

/-- The context of `dns_encode` for a buffer. -/
def encodeContext (buffer : Bytes) : Context where
  data := buffer
  maxsize := buffer.length
  ptr := 0
  namedict := []

end SmartDns.Dns
