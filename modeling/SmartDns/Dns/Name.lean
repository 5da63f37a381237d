import SmartDns.Lib.Prog
import SmartDns.Lib.Names

/-!
# Domain names in `dns.c`

`struct dns_context`, the readers and writers that move its cursor, the name
decoder and the name encoder with its dictionary of suffixes.

`context->data` is the memory behind the pointer, and `context->ptr` is an
offset into it.  A read or write outside of that memory is a fault, and so is
a write past the end of the buffer of a decoded name, or to run out of the rounds
of a loop whose end the code does not count.  `char` is signed.
-/

namespace SmartDns.Dns

open Prog

/-- What a run must never meet. -/
inductive DnsFault
  | read
  | write
  | overflow
  | hang
deriving DecidableEq, Repr

/-- `DNS_MAX_CNAME_LEN`. -/
def maxCnameLen : Nat := 256

/-- `DNS_PACKET_DICT_SIZE`. -/
def packetDictSize : Nat := 16

/-- `struct dns_packet_dict_item`. -/
structure DictItem where
  pos : Nat
  hash : UInt32
deriving DecidableEq, Repr

/-- `struct dns_context`.  The length of the dictionary is its `dict_count`. -/
structure Context where
  data : Bytes
  maxsize : Nat
  ptr : Nat
  namedict : List DictItem
deriving DecidableEq, Repr

/-- `_dns_left_len`. -/
def Context.leftLen (context : Context) : Int :=
  context.maxsize - context.ptr

/-! ## Readers and writers -/

/-- Copy `n` bytes from the cursor and move it. -/
def readBytes (n : Nat) : Prog DnsFault Context Bytes := do
  let context ← Prog.get
  let bs ← orAbort .read (readAt context.data context.ptr n)
  Prog.modify (fun c => { c with ptr := c.ptr + n })
  pure bs

def dnsReadChar : Prog DnsFault Context Nat := do
  let bs ← readBytes 1
  pure (beNat bs)

def dnsReadShort : Prog DnsFault Context Nat := do
  let bs ← readBytes 2
  pure (beNat bs)

def dnsReadInt : Prog DnsFault Context Nat := do
  let bs ← readBytes 4
  pure (beNat bs)

/-- Write bytes at a place and leave the cursor alone. -/
def patch (pos : Nat) (bs : Bytes) : Prog DnsFault Context Unit := do
  let context ← Prog.get
  let data ← orAbort .write (writeAt context.data pos bs)
  Prog.modify (fun c => { c with data := data })

/-- Move the cursor. -/
def advance (n : Nat) : Prog DnsFault Context Unit :=
  Prog.modify (fun c => { c with ptr := c.ptr + n })

/-- Write bytes at the cursor and move it. -/
def writeBytes (bs : Bytes) : Prog DnsFault Context Unit := do
  let context ← Prog.get
  patch context.ptr bs
  advance bs.length

def dnsWriteChar (value : Nat) : Prog DnsFault Context Unit :=
  writeBytes [UInt8.ofNat value]

def dnsWriteShort (value : Nat) : Prog DnsFault Context Unit :=
  writeBytes (beBytes 2 value)

def dnsWriteInt (value : Nat) : Prog DnsFault Context Unit :=
  writeBytes (beBytes 4 value)

/-! ## Decoding a name -/

/-- Write bytes into the buffer of a name, which has room for `size` bytes. -/
def storeName {σ : Type} (size outputLen : Nat) (output bs : Bytes) : Prog DnsFault σ Bytes :=
  if outputLen + bs.length ≤ size then pure (output ++ bs) else Prog.abort .overflow

/-- `if (is_compressed == 0) *domain_ptr = ptr`. -/
def moveUnless (isCompressed : Bool) (ptr : Nat) : Prog DnsFault Nat Unit :=
  if isCompressed then pure () else Prog.modify (fun _ => ptr)

/-- `memcpy(output, ptr, copy_len)`, when there is room at all. -/
def copyLabel (packet : Bytes) (packetSize size len ptr outputLen : Nat) (output : Bytes) :
    Prog DnsFault Nat Bytes :=
  if outputLen + 1 < size then
    let copyLen := if len + outputLen < size then len else size - 1 - outputLen
    if packetSize < ptr + copyLen then Prog.fail
    else do
      let bs ← orAbort .read (readAt packet ptr copyLen)
      storeName size outputLen output bs
  else pure output

/-- The loop of `_dns_get_domain_from_packet`.  The state is `*domain_ptr`. -/
def domainLoop (packet : Bytes) (packetSize size : Nat) :
    Nat → Nat → Bool → Nat → Bytes → Nat → Prog DnsFault Nat Bytes
  | 0, _, _, _, _, _ => Prog.abort .hang
  | rounds + 1, ptr, isCompressed, ptrJump, output, outputLen =>
    if packetSize ≤ ptr ∨ size ≤ outputLen + 1 ∨ 32 < ptrJump then Prog.fail
    else do
      let len ← orAbort .read packet[ptr]?
      if len = 0 then do
        let _ ← storeName size outputLen output [0]
        moveUnless isCompressed (ptr + 1)
        pure output
      else if 0xC0 ≤ len.toNat then
        if packetSize < ptr + 2 then Prog.fail
        else do
          let bs ← orAbort .read (readAt packet ptr 2)
          moveUnless isCompressed (ptr + 2)
          let offset := beNat bs &&& 0x3FFF
          if packetSize < offset then Prog.fail
          else domainLoop packet packetSize size rounds offset true (ptrJump + 1) output outputLen
      else do
        let separator := if 0 < outputLen then [dot] else []
        let output ← storeName size outputLen output separator
        let outputLen := outputLen + separator.length
        -- `ptr > packet + packet_size` was ruled out at the top of the loop
        let output ← copyLabel packet packetSize size len.toNat (ptr + 1) outputLen output
        domainLoop packet packetSize size rounds (ptr + 1 + len.toNat) isCompressed 0 output
          (outputLen + len.toNat)

/-- `_dns_get_domain_from_packet`.  A name of at most `size` bytes has fewer
than `size` labels, and at most 33 pointers stand in front of each. -/
def dnsGetDomainFromPacket (packet : Bytes) (packetSize size : Nat) :
    Prog DnsFault Nat Bytes := do
  let ptr ← Prog.get
  domainLoop packet packetSize size (34 * size + 34) ptr false 0 [] 0

def dnsDecodeDomain (size : Nat) : Prog DnsFault Context Bytes := do
  let context ← Prog.get
  zoom Context.ptr (fun c ptr => { c with ptr := ptr })
    (dnsGetDomainFromPacket context.data context.maxsize size)

/-! ## Encoding a name -/

/-- A `char` as an `unsigned int`. -/
def charValue (b : UInt8) : UInt32 :=
  if b < 128 then b.toUInt32 else b.toUInt32 - 256

def dictHash (s : Bytes) : UInt32 :=
  s.foldl (fun hashval b => charValue b + 31 * hashval) 0

def dnsAddDomainDict (hash : UInt32) (pos : Nat) : Prog DnsFault Context Unit := do
  failWhen (fun c => packetDictSize ≤ c.namedict.length)
  failWhen (fun _ => hash = 0)
  failWhen (fun c => c.maxsize ≤ pos)
  Prog.modify (fun c => { c with namedict := c.namedict ++ [⟨pos % 2 ^ 16, hash⟩] })

/-- `_dns_get_domain_offset`.  The first entry with the hash of the name
decides; the name at its place is decoded but not compared. -/
def dnsGetDomainOffset (domain : Bytes) : Prog DnsFault Context (Option Nat) :=
  if domain = [] then pure none
  else do
    let context ← Prog.get
    match context.namedict.find? (fun item => item.hash = dictHash domain) with
    | some item => do
        let check ← Prog.attempt (aside item.pos
          (dnsGetDomainFromPacket context.data context.maxsize maxCnameLen))
        pure (check.map (fun _ => item.pos))
    | none => do
        let _ ← Prog.attempt (dnsAddDomainDict (dictHash domain) (context.ptr - 1))
        pure none

/-- The end of `_dns_encode_domain`, behind its loop. -/
def encodeDomainEnd (ptrNum num totalLen : Nat) : Prog DnsFault Context Nat := do
  failWhen (fun c => c.leftLen < 1)
  patch ptrNum [UInt8.ofNat num]
  if 1 < totalLen then do
    writeBytes [0]
    failWhen (fun c => c.leftLen ≤ 0)
    pure (totalLen + 1)
  else do
    failWhen (fun c => c.leftLen ≤ 0)
    pure totalLen

/-- The loop of `_dns_encode_domain`. -/
def encodeDomainLoop : Bytes → Option Nat → Nat → Nat → Nat → Prog DnsFault Context Nat
  | [], _, ptrNum, num, totalLen => encodeDomainEnd ptrNum num totalLen
  | b :: domain, dictOffset, ptrNum, num, totalLen => do
      let context ← Prog.get
      if context.leftLen ≤ 1 then encodeDomainEnd ptrNum num totalLen
      else
        match dictOffset with
        | some offset => do
            failWhen (fun c => c.leftLen < 2)
            patch ptrNum (beBytes 2 (0xc000 ||| offset))
            advance 1
            pure (totalLen + 1)
        | none =>
          if b = dot then do
            patch ptrNum [UInt8.ofNat num]
            advance 1
            let dictOffset ← dnsGetDomainOffset domain
            encodeDomainLoop domain dictOffset context.ptr 0 (totalLen + 1)
          else do
            writeBytes [b]
            encodeDomainLoop domain none ptrNum (num + 1) (totalLen + 1)

def dnsEncodeDomain (domain : CStr) : Prog DnsFault Context Nat := do
  let context ← Prog.get
  advance 1
  let dictOffset ← dnsGetDomainOffset domain.bytes
  encodeDomainLoop domain.bytes dictOffset context.ptr 0 1

end SmartDns.Dns
