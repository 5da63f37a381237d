import Mathlib.Data.List.SplitLengths
import SmartDns.Cache.Head
import SmartDns.Lib.Memory

/-!
# The cache file

The structures of `dns_cache.h` as they lie in memory and in the file, on a
machine with eight-byte pointers, and the reader of `_dns_cache_read_record`.
A read delivers the bytes that are there, or fewer.
-/

namespace SmartDns.Cache

/-- `struct dns_cache_info` without the key, which the entry has. -/
structure CacheInfo where
  ttl : BitVec 32
  rcode : BitVec 32
  hitnum : BitVec 32
  speed : BitVec 32
  timeout : BitVec 32
  hitnumUpdateAdd : BitVec 32
  isVisited : BitVec 32
  insertTime : BitVec 64
  replaceTime : BitVec 64
deriving DecidableEq

/-- `MAGIC_NUMBER`, `MAGIC_CACHE_DATA` and `MAGIC_RECORD`. -/
def magicNumber : Nat := 0x6548634163536e44

@[inherit_doc magicNumber] def magicCacheData : Nat := 0x61546144

@[inherit_doc magicNumber] def magicRecord : Nat := 0x64526352

/-- The fields of `struct dns_cache_record`, with the gaps between them. -/
def recordLayout : List Nat := [4, 4, 256, 4, 32, 4, 4, 4, 4, 4, 4, 4, 4, 4, 8, 8]

/-- `struct dns_cache_data_head`: counter, size, magic. -/
def dataHeadLayout : List Nat := [4, 4, 8, 4, 4]

/-- `struct dns_cache_file`: magic, version, number of records. -/
def fileLayout : List Nat := [8, 32, 4, 4]

def sizeofRecord : Nat := recordLayout.sum

def sizeofDataHead : Nat := dataHeadLayout.sum

def sizeofFile : Nat := fileLayout.sum

/-- A record as it is read; `domain` and `dns_group_name` are cut at their last byte. -/
def parseRecord (bytes : Bytes) : Option (Nat × CacheKey × CacheInfo) :=
  match recordLayout.splitLengths bytes with
  | [magic, _, domain, qtype, group, flag, ttl, rcode, hitnum, speed, timeout, updateAdd,
      _, _, insertTime, replaceTime] =>
      some (leNat magic,
        { domain := CStr.ofBuffer (domain.take 255)
          qtype := leNat qtype
          dnsGroupName := CStr.ofBuffer (group.take 31)
          queryFlag := leNat flag },
        { ttl := BitVec.ofNat 32 (leNat ttl)
          rcode := BitVec.ofNat 32 (leNat rcode)
          hitnum := BitVec.ofNat 32 (leNat hitnum)
          speed := BitVec.ofNat 32 (leNat speed)
          timeout := BitVec.ofNat 32 (leNat timeout)
          hitnumUpdateAdd := BitVec.ofNat 32 (leNat updateAdd)
          -- an entry from a file counts as not visited
          isVisited := 0
          insertTime := BitVec.ofNat 64 (leNat insertTime)
          replaceTime := BitVec.ofNat 64 (leNat replaceTime) })
  | _ => none

def parseDataHead (bytes : Bytes) : Option (Nat × Nat) :=
  match dataHeadLayout.splitLengths bytes with
  | [_, _, size, magic, _] => some (leNat size, leNat magic)
  | _ => none

/-- The number of records, if magic and version are right. -/
def parseFile (bytes : Bytes) : Option Nat :=
  match fileLayout.splitLengths bytes with
  | [magic, version, number, _] =>
    if leNat magic = magicNumber ∧ (CStr.ofBuffer version).bytes = ascii "cache ver 1.3" then
      some (leNat number)
    else none
  | _ => none

/-- What a turn of the reader meets: how many bytes each read delivers at most, whether
memory can be had for the block and for the entry, the clock, and the time that
`_dns_cache_read_to_cache` computes for the timer from the rules of the group. -/
structure ReadTurn where
  recordLimit : Nat
  headLimit : Nat
  dataLimit : Nat
  blockAlloc : Bool
  entryAlloc : Bool
  now : BitVec 64
  timer : UInt64

/-- `read`: the bytes in front, if there are `n` of them within the limit. -/
def readExact (rest : Bytes) (n limit : Nat) : Option Bytes :=
  if (rest.take (min n limit)).length = n then some (rest.take n) else none

/-- A record, an end before the block is allocated, or an end while it is filled. -/
inductive RecordRead
  | record (k : CacheKey) (info : CacheInfo) (data rest : Bytes)
  | invalid
  | cut (size : Nat)

/-- A turn of `_dns_cache_read_record` up to the callback.  A negative size is a large
number here. -/
def readRecord (rest : Bytes) (turn : ReadTurn) : RecordRead :=
  match (readExact rest sizeofRecord turn.recordLimit).bind parseRecord,
      (readExact (rest.drop sizeofRecord) sizeofDataHead turn.headLimit).bind parseDataHead with
  | some (magic, k, info), some (size, dataMagic) =>
    let rest := rest.drop (sizeofRecord + sizeofDataHead)
    if magic ≠ magicRecord ∨ dataMagic ≠ magicCacheData ∨ size = 0 ∨ 1024 * 8 < size ∨
        rest.length < size ∨ turn.blockAlloc = false then
      .invalid
    else
      match readExact rest size turn.dataLimit with
      | some data => .record k info data (rest.drop size)
      | none => .cut size
  | _, _ => .invalid

/-- The checks of `_dns_cache_file_read`: the number of records. -/
def readFile (file : Bytes) (limit : Nat) : Option Nat :=
  match (readExact file sizeofFile limit).bind parseFile with
  | some number =>
    if (file.length - sizeofFile) / (sizeofRecord + sizeofDataHead + 1) % 2 ^ 32 < number then none
    else some number
  | none => none

end SmartDns.Cache
