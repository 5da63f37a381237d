import SmartDns.Lib.Bytes

/-!
# Removing an upstream server

A server is removed in two rounds: it is collected under the lock of the server list, then
taken out of its groups and of the list.  The first round returns at the first server it
finds, with the lock held, so that the second never has a server to take out.
-/

namespace SmartDns.Client

inductive ServerType
  | udp | tcp | tls | https | quic | http3 | mdns
deriving DecidableEq

structure DnsServerInfo where
  ip : CStr
  port : Int
  type : ServerType
  refcnt : Int

/-- The servers of the client: every `struct dns_server_info` by its pointer, those freed,
the server list with its counter and its lock, and the members of each group. -/
structure ServerTable where
  info : Nat → DnsServerInfo
  freed : List Nat := []
  dnsServerList : List Nat
  dnsServerNum : Int
  serverListLock : Bool := false
  groups : List (List Nat)

def hostnameLen : Nat := 128

/-- The check of the loop, with `strncmp` over `DNS_HOSTNAME_LEN` bytes. -/
def DnsServerInfo.is (ip : CStr) (port : Int) (type : ServerType) (server : DnsServerInfo) : Bool :=
  server.port = port ∧ server.type = type ∧
    server.ip.bytes.take hostnameLen = ip.bytes.take hostnameLen

namespace ServerTable

section

variable (s : ServerTable)

/-- `list_del_init` of a server that is in the list, with `_dns_server_dec_server_num`. -/
def unlink (p : Nat) : ServerTable :=
  if p ∈ s.dnsServerList then
    { s with
      dnsServerList := s.dnsServerList.erase p
      dnsServerNum := s.dnsServerNum - if (s.info p).type = .mdns then 0 else 1 }
  else s

def addRefcnt (p : Nat) (n : Int) : ServerTable :=
  { s with info := Function.update s.info p { s.info p with refcnt := (s.info p).refcnt + n } }

def dnsClientServerInfoGet (p : Nat) : ServerTable :=
  s.addRefcnt p 1

def dnsClientServerInfoRelease (p : Nat) : ServerTable :=
  let s := s.addRefcnt p (-1)
  if 0 < (s.info p).refcnt then s
  else { s.unlink p with freed := p :: s.freed }

/-- `_dns_client_remove_server_from_groups`: a member is released, then deleted. -/
def dnsClientRemoveServerFromGroups (p : Nat) : ServerTable :=
  let members := s.groups.flatten.filter (· = p)
  { members.foldl dnsClientServerInfoRelease s with groups := s.groups.map (·.filter (· ≠ p)) }

def dnsClientServerInfoRemove (p : Nat) : ServerTable :=
  (s.unlink p).dnsClientServerInfoRelease p

end

/-- The loop over `free_list`. -/
def removeAll (freeList : List Nat) (s : ServerTable) : ServerTable :=
  freeList.foldl (fun s p => ((s.dnsClientRemoveServerFromGroups p).dnsClientServerInfoRemove
    p).dnsClientServerInfoRelease p) s

/-- `_dns_client_server_remove`.  A caller that finds the lock held waits for ever. -/
def dnsClientServerRemove (s : ServerTable) (ip : CStr) (port : Int) (type : ServerType) :
    Option (ServerTable × Int) :=
  if s.serverListLock then none
  else match s.dnsServerList.find? fun p => (s.info p).is ip port type with
    | some p => some ({ s with serverListLock := true }.dnsClientServerInfoGet p, 0)
    | none => some (s.removeAll [], -1)

variable {s s' : ServerTable} {ip : CStr} {port : Int} {type : ServerType} {ret : Int}

/-- No server of the list or of a group has the address, port and type. -/
def Without (s : ServerTable) (ip : CStr) (port : Int) (type : ServerType) : Prop :=
  ∀ p, p ∈ s.dnsServerList ∨ p ∈ s.groups.flatten → (s.info p).is ip port type = false

/-- What a removal promises of the table it finds and the one it leaves. -/
structure Removed (ip : CStr) (port : Int) (type : ServerType) (s s' : ServerTable) (ret : Int) :
    Prop where
  gone : s'.Without ip port type
  list : s'.dnsServerList = s.dnsServerList.filter fun p => !(s.info p).is ip port type
  groups : s'.groups = s.groups.map (·.filter fun p => !(s.info p).is ip port type)
  others : ∀ p, (s.info p).is ip port type = false → s'.info p = s.info p
  counter : s'.dnsServerNum = s'.dnsServerList.length
  unlocked : s'.serverListLock = false
  success : ret = 0 ↔ ∃ p ∈ s.dnsServerList, (s.info p).is ip port type

theorem removed_refl (hlock : s.serverListLock = false) (h : s.Without ip port type)
    (hnum : s.dnsServerNum = s.dnsServerList.length) : Removed ip port type s s (-1) where
  gone := h
  list := by
    symm
    exact List.filter_eq_self.mpr fun p hp => by simp [h p (.inl hp)]
  groups := by
    have hkept : ∀ g ∈ s.groups, (g.filter fun p => !(s.info p).is ip port type) = g := by
      intro g hg
      refine List.filter_eq_self.mpr fun p hp => ?_
      simp [h p (.inr (List.mem_flatten.mpr ⟨g, hg, hp⟩))]
    rw [List.map_congr_left hkept, List.map_id']
  others _ _ := rfl
  counter := hnum
  unlocked := hlock
  success := by
    simp only [reduceCtorEq, false_iff]
    rintro ⟨p, hp, his⟩
    rw [h p (.inl hp)] at his
    cases his

/-- A call keeps its promise exactly when there was nothing to remove. -/
theorem server_removed_iff (h : s.dnsClientServerRemove ip port type = some (s', ret)) :
    Removed ip port type s s' ret ↔
      s.Without ip port type ∧ s.dnsServerNum = s.dnsServerList.length := by
  unfold dnsClientServerRemove at h
  split at h
  · cases h
  next hlock =>
  split at h
  next p hfind =>
    cases h
    have hmem := List.mem_of_find?_eq_some hfind
    have his : (s.info p).is ip port type = true := by simpa using List.find?_some hfind
    constructor
    · intro hremoved
      cases hremoved.unlocked
    · rintro ⟨hnone, -⟩
      rw [hnone p (.inl hmem)] at his
      cases his
  · cases h
    exact ⟨fun hremoved => ⟨hremoved.gone, hremoved.counter⟩,
      fun hnone => removed_refl (by simpa using hlock) hnone.1 hnone.2⟩

/-- One server, in the list and in one group. -/
def oneServer : ServerTable where
  info _ := ⟨.ofString "8.8.8.8", 53, .udp, 2⟩
  dnsServerList := [0]
  dnsServerNum := 1
  groups := [[0]]

theorem server_removed_iff_otherPort :
    Removed (.ofString "8.8.8.8") 5353 .udp oneServer oneServer (-1) :=
  (server_removed_iff rfl).mpr ⟨fun _ _ => rfl, rfl⟩

/-- The server stays where it was and the lock is held: the next call never returns. -/
theorem found_server_stays :
    ∃ s', oneServer.dnsClientServerRemove (.ofString "8.8.8.8") 53 .udp = some (s', 0) ∧
      ¬Removed (.ofString "8.8.8.8") 53 .udp oneServer s' 0 ∧ s'.dnsServerList = [0] ∧
      s'.groups = [[0]] ∧ s'.dnsClientServerRemove (.ofString "8.8.8.8") 53 .udp = none :=
  ⟨_, rfl, fun h => Bool.noConfusion h.unlocked, rfl, rfl, rfl⟩

end ServerTable

end SmartDns.Client
