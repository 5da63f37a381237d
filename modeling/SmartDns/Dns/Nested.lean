import SmartDns.Dns.Packet

/-!
# Records with inner structure

Records that are built step by step (`struct dns_rr_nested`), the SVCB and
HTTPS records built that way with their parameters, and the options of the
OPT record.

The packet stands at an even address, so a pointer into its memory is aligned
when its offset is even.
-/

namespace SmartDns.Dns

open Prog

/-! ## Building -/

/-- `struct dns_rr_nested`.  Of its context only the cursor and the size are
its own; the memory is that of the packet. -/
structure RrNested where
  ptr : Nat
  maxsize : Nat
  rrStart : Option Nat
  rrLenPtr : Option Nat
  rrHeadLen : Nat
  type : RrType
  rtype : Nat
deriving DecidableEq, Repr

/-- A packet with a record under construction. -/
structure Nesting where
  packet : Packet
  nested : RrNested
deriving DecidableEq, Repr

/-- The context of the record under construction. -/
def Nesting.context (n : Nesting) : Context where
  data := n.packet.data
  maxsize := n.nested.maxsize
  ptr := n.nested.ptr
  namedict := n.packet.namedict

def Nesting.store (n : Nesting) (c : Context) : Nesting where
  packet := n.packet.store c
  nested := { n.nested with ptr := c.ptr }

/-- Write into the record under construction. -/
def inNested {α : Type} (m : Prog DnsFault Context α) : Prog DnsFault Nesting α :=
  zoom Nesting.context Nesting.store m

/-- Work on the packet. -/
def onPacket {α : Type} (m : Prog DnsFault Packet α) : Prog DnsFault Nesting α :=
  zoom Nesting.packet (fun n p => { n with packet := p }) m

def dnsAddRrNestedStart (type : RrType) (rtype : Nat) (domain : CStr) (ttl : Nat) :
    Prog DnsFault Nesting Unit := do
  Prog.modify (fun n => { n with nested := ⟨0, 0, none, none, 0, type, rtype⟩ })
  onPacket dnsAddRrsStart
  Prog.modify (fun n =>
    { n with
      nested :=
        { n.nested with
          ptr := n.packet.context.ptr
          maxsize := n.packet.context.maxsize
          rrStart := some n.packet.context.ptr } })
  let len ← inNested (dnsAddRrHead domain rtype classIn ttl 0)
  Prog.modify (fun n =>
    { n with
      nested :=
        { n.nested with
          rrLenPtr := some (n.nested.ptr - 2)
          rrHeadLen := len % 2 ^ 16 } })

/-- Fill up to an even offset. -/
def writePadding : Prog DnsFault Context Unit := do
  let context ← Prog.get
  if context.ptr % 2 = 0 then pure ()
  else do
    failWhen (fun c => c.leftLen < 1)
    dnsWriteChar 0

def dnsAddRrNestedMemcpy (data : Bytes) : Prog DnsFault Context Unit := do
  failWhen (fun _ => data.length = 0)
  failWhen (fun c => c.leftLen < data.length)
  failWhen (fun c => c.ptr % 2 ≠ 0)
  writeBytes data
  writePadding

def dnsAddRrNestedEnd : Prog DnsFault Nesting Unit := do
  let n ← Prog.get
  match n.nested.rrStart, n.nested.rrLenPtr with
  | some rrStart, some rrLenPtr => do
      failWhen (fun n => n.context.leftLen < 2)
      let len := n.nested.ptr - rrStart
      if len ≤ 14 then Prog.modify (fun n => { n with nested := { n.nested with ptr := rrStart } })
      else do
        inNested (patch rrLenPtr (beBytes 2 (len - n.nested.rrHeadLen)))
        onPacket (dnsRrAddEnd n.nested.type n.nested.rtype len)
  | _, _ => Prog.fail

def dnsAddSvcbHttpsStart (type : RrType) (rtype : Nat) (domain : CStr) (ttl priority : Nat)
    (target : CStr) : Prog DnsFault Nesting Unit := do
  dnsAddRrNestedStart type rtype domain ttl
  let target := if target.bytes.head? = some dot then CStr.ofBuffer [] else target
  let targetLen := min target.strlen maxCnameLen + 1
  inNested do
    failWhen (fun c => c.leftLen < 2 + targetLen)
    dnsWriteShort priority
    writeBytes (safeStrncpy target targetLen)
    writePadding

def dnsSvcbAddRaw (key : Nat) (value : Bytes) : Prog DnsFault Context Unit := do
  failWhen (fun c => c.leftLen < 2 + value.length)
  dnsAddRrNestedMemcpy (leBytes 2 key)
  dnsAddRrNestedMemcpy (leBytes 2 value.length)
  dnsAddRrNestedMemcpy value

/-! ## Reading back -/

/-- The C string that stands at a place of a memory. -/
def strAt (data : Bytes) (pos : Nat) : Option CStr :=
  if 0 ∈ data.drop pos then some (CStr.ofBuffer (data.drop pos)) else none

def dnsGetRrNestedStart {σ : Type} (packet : Packet) (rrs : Nat) :
    Prog DnsFault σ (RrHead × Context) := do
  let context ← dnsInitContextByRrs packet rrs
  let (head, context) ← aside context (dnsGetRrHead maxCnameLen)
  failWhen (fun _ => head.qclass ≠ classIn)
  failWhen (fun _ => head.rrLen < 2)
  pure (head, context)

def dnsGetRrNestedNext {σ : Type} (packet : Packet) (rrs rrNested rrNestedLen : Nat) :
    Prog DnsFault σ (Option Nat) := do
  let len ← orAbort .read (packet.rrsLen rrs)
  let p := rrNested + rrNestedLen
  let p := if p % 2 = 0 then p else p + 1
  pure (if rrs + sizeofRrs + len ≤ p then none else some p)

/-- What `dns_svcparm_start` returns. -/
structure SvcparmStart where
  domain : Bytes
  ttl : Nat
  priority : Nat
  target : CStr
  param : Option Nat
deriving DecidableEq

def dnsSvcparmStart {σ : Type} (packet : Packet) (rrs targetSize : Nat) :
    Prog DnsFault σ SvcparmStart := do
  let (head, context) ← dnsGetRrNestedStart packet rrs
  failWhen (fun _ => head.qtype ≠ DnsType.https.code ∧ head.qtype ≠ DnsType.svcb.code)
  failWhen (fun _ => head.rrLen < 2)
  let (priority, context) ← aside context dnsReadShort
  failWhen (fun _ => head.rrLen ≤ 2)
  let string ← orAbort .read (strAt packet.data context.ptr)
  let len := min string.strlen (head.rrLen - 2)
  failWhen (fun _ => head.rrLen < 2 + len + 1)
  let data := context.ptr + len + 1
  let padding := data % 2
  pure
    { domain := head.domain
      ttl := head.ttl
      priority := priority
      target := copyStr string.bytes 0 targetSize
      param := if head.rrLen = 2 + len + 1 + padding then none else some (data + padding) }

/-- The key and the length of `struct dns_svcparam`. -/
def svcparamHead (packet : Packet) (param : Nat) : Option (Nat × Nat) := do
  let key ← readAt packet.data param 2
  let len ← readAt packet.data (param + 2) 2
  pure (leNat key, leNat len)

/-- `for (; param != NULL; param = dns_svcparm_next(rrs, param))`.  A parameter
takes at least four bytes of the packet. -/
def forSvcparams {σ : Type} (packet : Packet) (rrs : Nat)
    (body : Nat → Nat → Nat → Prog DnsFault σ Unit) :
    Nat → Option Nat → Prog DnsFault σ Unit
  | _, none => pure ()
  | 0, some _ => Prog.abort .hang
  | rounds + 1, some param => do
      let (key, len) ← orAbort .read (svcparamHead packet param)
      body param key len
      let next ← dnsGetRrNestedNext packet rrs param (4 + len)
      forSvcparams packet rrs body rounds next

/-- Note a parameter. -/
def collectSvcparam (packet : Packet) (param key len : Nat) :
    Prog DnsFault (List (Nat × Bytes)) Unit := do
  let value ← orAbort .read (readAt packet.data (param + 4) len)
  Prog.modify (fun params => params ++ [(key, value)])

/-- An SVCB or HTTPS record with its parameters, as `dns_svcparm_start` and
`dns_svcparm_next` enumerate them. -/
def dnsGetSvcb {σ : Type} (packet : Packet) (rrs : Nat) :
    Prog DnsFault σ (SvcparmStart × List (Nat × Bytes)) := do
  let start ← dnsSvcparmStart packet rrs maxCnameLen
  let (_, params) ← aside []
    (forSvcparams packet rrs (collectSvcparam packet) packet.data.length start.param)
  pure (start, params)

/-- The largest record data that is kept without being understood. -/
def maxRawLen : Nat := 1024

/-! ## Options -/

/-- `DNS_OPT_T_ECS`. -/
def optEcs : Nat := 8

/-- `DNS_OPT_T_COOKIE`. -/
def optCookie : Nat := 10

/-- `DNS_OPT_T_TCP_KEEPALIVE`. -/
def optTcpKeepalive : Nat := 11

/-- `DNS_MAX_OPT_LEN`. -/
def maxOptLen : Nat := 256

/-- `struct dns_opt_ecs`. -/
structure OptEcs where
  family : Nat
  sourcePrefix : Nat
  scopePrefix : Nat
  addr : Vector UInt8 rrAaaaLen
deriving DecidableEq

/-- The address bytes that a prefix covers. -/
def prefixBytes (sourcePrefix : Nat) : Nat :=
  sourcePrefix / 8 + if 0 < sourcePrefix % 8 then 1 else 0

/-- `struct dns_opt_ecs` in memory. -/
def OptEcs.image (ecs : OptEcs) : Bytes :=
  leBytes 2 ecs.family ++ [UInt8.ofNat ecs.sourcePrefix, UInt8.ofNat ecs.scopePrefix] ++
    ecs.addr.toList

def dnsAddOptEcs (ecs : OptEcs) : Prog DnsFault Packet Unit := do
  let len := 4 + prefixBytes ecs.sourcePrefix
  let data ← orAbort .read (readAt ecs.image 0 len)
  let raw ← intoBuffer maxOptLen (leBytes 2 optEcs ++ leBytes 2 len ++ data)
  dnsAddRaw .opt optEcs (CStr.ofBuffer []) 0 raw

/-- `_dns_add_opt_RAW`, which enters the length of an `unsigned short`. -/
def dnsAddOptRaw (code : Nat) (raw : Bytes) : Prog DnsFault Packet Unit := do
  let data ← intoBuffer maxOptLen (leBytes 2 code ++ leBytes 2 2 ++ raw)
  dnsAddRaw .opt code (CStr.ofBuffer []) 0 data

def dnsAddOptTcpKeepalive (timeout : Nat) : Prog DnsFault Packet Unit :=
  dnsAddOptRaw optTcpKeepalive (if 0 < timeout then beBytes 2 timeout else [])

def dnsSetOptOption (option : Nat) : Prog DnsFault Packet Unit :=
  Prog.modify (fun p => { p with optOption := option })

def dnsSetOptPayloadSize (payloadSize : Nat) : Prog DnsFault Packet Unit :=
  Prog.modify (fun p => { p with payloadsize := max 512 payloadSize % 2 ^ 16 })

end SmartDns.Dns
