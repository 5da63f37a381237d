import Mathlib
import SmartDns.Lib.Bytes

/-!
# Ping replies and the bytes that were received

A handler finds the session of a reply, and the time the request was sent at, in a datagram
that may be shorter than the request.  Behind it the buffers hold what they held before.  A
handler judges a datagram only by its bytes if the old contents make no difference.
-/

namespace SmartDns.Ping

/-- The offsets of `struct fast_ping_packet`, and the sizes the handlers check. -/
def msgOffset : Nat := 32

def packetSize : Nat := 56

def sizeofIcmp : Nat := 28

/-- `inpacket` and `recv_packet_buffer` in front of the receive. -/
structure OldBytes where
  inpacket : Nat → UInt8
  recvPacketBuffer : Nat → UInt8

/-- `inpacket` lies as the compiler has put it: `aligned` for the packet, or not. -/
structure PingConf where
  noUnprivilegedPing : Bool
  ident : Nat
  aligned : Bool

/-- A buffer behind the receive of a datagram. -/
def received (datagram : Bytes) (old : Nat → UInt8) (i : Nat) : UInt8 :=
  datagram[i]?.getD (old i)

def bytesAt (buffer : Nat → UInt8) (i n : Nat) : Bytes :=
  (List.range n).map fun k => buffer (i + k)

/-- A field of two bytes in the order of the host. -/
def shortAt (buffer : Nat → UInt8) (i : Nat) : Nat :=
  (buffer i).toNat + 256 * (buffer (i + 1)).toNat

section Handlers

variable (conf : PingConf) (old : OldBytes) (datagram : Bytes)

/-- The length of the IP header: a raw socket receives it. -/
def headerLen (inpacket : Nat → UInt8) : Nat :=
  if conf.noUnprivilegedPing then (inpacket 0).toNat % 16 * 4 else 0

/-- The ICMP packet, in place or copied. -/
def icmpBytes (j : Nat) : UInt8 :=
  let inpacket := received datagram old.inpacket
  let hlen := headerLen conf inpacket
  if conf.aligned ∧ ¬conf.noUnprivilegedPing ∨ j < min packetSize (datagram.length - hlen) then
    inpacket (hlen + j)
  else old.recvPacketBuffer j

def fastPingIcmpPacket : Option (Nat → UInt8) :=
  let inpacket := received datagram old.inpacket
  let packet := icmpBytes conf old datagram
  if conf.noUnprivilegedPing ∧ inpacket 9 ≠ 1 then none
  else if datagram.length < headerLen conf inpacket + sizeofIcmp then none
  else if packet 0 ≠ 0 then none
  else if shortAt packet 4 ≠ conf.ident ∧ conf.noUnprivilegedPing then none
  else some packet

def fastPingIcmp6Packet : Option (Nat → UInt8) :=
  let packet := received datagram old.inpacket
  if datagram.length < 8 then none
  else if packet 0 ≠ 129 then none
  else if datagram.length < 16 then none
  else if conf.noUnprivilegedPing ∧ shortAt packet 4 ≠ conf.ident then none
  else some packet

/-- The header checks of `_fast_ping_process_tcp_syn` at the TCP header: the number it
acknowledges. -/
def tcpSynAck (packet : Nat → UInt8) (start : Nat) : Option Bytes :=
  let doff := (packet (start + 12)).toNat / 16
  let flags := packet (start + 13)
  if doff < 5 ∨ datagram.length < start + doff * 4 then none
  else if flags &&& 0x12 = 0x12 ∨ flags &&& 0x14 = 0x14 then some (bytesAt packet (start + 8) 4)
  else none

end Handlers

inductive PingSocket
  | icmp | icmp6 | udp | tcpSyn | tcpSyn6

/-- The bytes by which a handler finds the session and computes the time, unless it ignores
the datagram: `struct fast_ping_packet_msg`, the id of a DNS head, or the source address and
the acknowledged number. -/
def PingSocket.process (conf : PingConf) (old : OldBytes) (datagram : Bytes) :
    PingSocket → Option Bytes
  | icmp => (fastPingIcmpPacket conf old datagram).map (bytesAt · msgOffset 24)
  | icmp6 => (fastPingIcmp6Packet conf old datagram).map (bytesAt · msgOffset 24)
  | udp => if datagram.length < 17 then none
    else some (bytesAt (received datagram old.inpacket) 0 2)
  | tcpSyn =>
    let packet := received datagram old.inpacket
    let ihl := (packet 0).toNat % 16
    if datagram.length < 40 ∨ ihl < 5 ∨ datagram.length < ihl * 4 + 20 then none
    else (tcpSynAck datagram packet (ihl * 4)).map (bytesAt packet 12 4 ++ ·)
  | tcpSyn6 => if datagram.length < 20 then none
    else tcpSynAck datagram (received datagram old.inpacket) 0

/-- The old contents of the buffers make no difference. -/
def PingSocket.Judged (socket : PingSocket) (conf : PingConf) (datagram : Bytes) : Prop :=
  ∀ old old', socket.process conf old datagram = socket.process conf old' datagram

/-- Buffers that held zeros. -/
def zeroBytes : OldBytes :=
  ⟨0, 0⟩

/-- A datagram that passes the checks has all bytes of the packet. -/
def PingSocket.Complete (conf : PingConf) (datagram : Bytes) : PingSocket → Prop
  | icmp => (fastPingIcmpPacket conf zeroBytes datagram).isSome →
    packetSize ≤ datagram.length - headerLen conf (received datagram 0)
  | icmp6 => (fastPingIcmp6Packet conf zeroBytes datagram).isSome → packetSize ≤ datagram.length
  | udp | tcpSyn | tcpSyn6 => True

variable {conf : PingConf} {old old' : OldBytes} {datagram : Bytes} {i j : Nat}

theorem received_eq {a b : Nat → UInt8} (h : i < datagram.length) :
    received datagram a i = received datagram b i := by
  simp [received, List.getElem?_eq_getElem h]

theorem bytesAt_congr {a b : Nat → UInt8} {n : Nat} (h : ∀ k < n, a (i + k) = b (i + k)) :
    bytesAt a i n = bytesAt b i n :=
  List.map_congr_left fun k hk => h k (List.mem_range.mp hk)

/-- A handler that passes a packet on, of which the first `len` bytes were received. -/
theorem judged_iff_of_packet {packet : OldBytes → Option (Nat → UInt8)}
    {bytes : OldBytes → Nat → UInt8} {len : Nat}
    (hpacket : ∀ old, packet old = if (packet zeroBytes).isSome then some (bytes old) else none)
    (hin : ∀ old old' j, j < len → j < packetSize → bytes old j = bytes old' j)
    (hout : ∀ j, len ≤ j → bytes zeroBytes j ≠ bytes ⟨1, 1⟩ j) :
    (∀ old old', (packet old).map (bytesAt · msgOffset 24) =
        (packet old').map (bytesAt · msgOffset 24)) ↔
      ((packet zeroBytes).isSome → packetSize ≤ len) := by
  constructor
  · intro h hsome
    by_contra hlen
    have hsame := h zeroBytes ⟨1, 1⟩
    rw [hpacket zeroBytes, hpacket ⟨1, 1⟩, if_pos hsome, if_pos hsome] at hsame
    have hlast := congrArg (fun bytes => (bytes.getD [])[23]?) hsame
    simp only [packetSize] at hlen
    refine hout 55 (by omega) ?_
    simpa [bytesAt, msgOffset] using hlast
  · intro h old old'
    rw [hpacket old, hpacket old']
    split
    next hsome =>
      have hlen := h hsome
      simp only [Option.map_some, Option.some.injEq]
      refine bytesAt_congr fun k hk => hin old old' _ ?_ ?_ <;>
        simp only [msgOffset, packetSize] at hlen ⊢ <;> omega
    · rfl

theorem headerLen_eq {a b : Nat → UInt8} (h : 0 < datagram.length) :
    headerLen conf (received datagram a) = headerLen conf (received datagram b) := by
  simp only [headerLen, @received_eq datagram 0 a b h]

/-- An empty datagram has no packet, whatever its header length is taken for. -/
theorem length_sub_headerLen (a : Nat → UInt8) :
    datagram.length - headerLen conf (received datagram a) =
      datagram.length - headerLen conf (received datagram 0) := by
  rcases Nat.eq_zero_or_pos datagram.length with hzero | hpos
  · omega
  · rw [@headerLen_eq conf datagram a 0 hpos]

theorem icmpBytes_eq (hj : j < datagram.length - headerLen conf (received datagram 0))
    (hsize : j < packetSize) :
    icmpBytes conf old datagram j =
      received datagram 0 (headerLen conf (received datagram 0) + j) := by
  have hlen : headerLen conf (received datagram old.inpacket) =
      headerLen conf (received datagram 0) := headerLen_eq (by omega)
  rw [icmpBytes, hlen, if_pos (.inr (by omega))]
  exact received_eq (by omega)

theorem fastPingIcmpPacket_eq (old : OldBytes) :
    fastPingIcmpPacket conf old datagram =
      if (fastPingIcmpPacket conf zeroBytes datagram).isSome then
        some (icmpBytes conf old datagram) else none := by
  by_cases hlen : datagram.length < headerLen conf (received datagram 0) + sizeofIcmp
  · have hshort : ∀ old, datagram.length < headerLen conf (received datagram old) + sizeofIcmp := by
      intro old
      have hrest := @length_sub_headerLen conf datagram old
      simp only [sizeofIcmp] at hlen ⊢
      omega
    simp [fastPingIcmpPacket, hshort]
  -- The checks read the first bytes, which have been received.
  · have hpos : sizeofIcmp ≤ datagram.length := by omega
    have hbytes : ∀ old j, j < sizeofIcmp → icmpBytes conf old datagram j = _ := fun old j hj =>
      icmpBytes_eq (by omega) (hj.trans (by decide))
    have hold : ∀ old i, i < sizeofIcmp → received datagram old i = received datagram 0 i :=
      fun old i hi => received_eq (hi.trans_le hpos)
    have hhead : ∀ old, headerLen conf (received datagram old) = _ := fun old =>
      headerLen_eq (b := 0) ((by decide : 0 < sizeofIcmp).trans_le hpos)
    simp only [fastPingIcmpPacket, shortAt, hhead, hbytes _ 0 (by decide), hbytes _ 4 (by decide),
      hbytes _ 5 (by decide), hold _ 9 (by decide), if_neg hlen]
    split_ifs <;> simp_all

theorem fastPingIcmp6Packet_eq (old : OldBytes) :
    fastPingIcmp6Packet conf old datagram =
      if (fastPingIcmp6Packet conf zeroBytes datagram).isSome then
        some (received datagram old.inpacket) else none := by
  by_cases hlen : datagram.length < 16
  · simp [fastPingIcmp6Packet, hlen]
  · have hold : ∀ old i, i < 16 → received datagram old i = received datagram 0 i :=
      fun old i hi => received_eq (by omega)
    simp only [fastPingIcmp6Packet, shortAt, hold _ 0 (by decide), hold _ 4 (by decide),
      hold _ 5 (by decide), if_neg hlen]
    split_ifs <;> simp_all

theorem udp_judged : PingSocket.udp.Judged conf datagram := by
  intro old old'
  simp only [PingSocket.process]
  split
  · rfl
  · exact congrArg some (bytesAt_congr fun k hk => received_eq (by omega))

theorem tcpSynAck_eq {a b : Nat → UInt8} (h : i + 20 ≤ datagram.length) :
    tcpSynAck datagram (received datagram a) i = tcpSynAck datagram (received datagram b) i := by
  have hin : ∀ k < 20, received datagram a (i + k) = received datagram b (i + k) :=
    fun k hk => received_eq (by omega)
  have hack : bytesAt (received datagram a) (i + 8) 4 = bytesAt (received datagram b) (i + 8) 4 :=
    bytesAt_congr fun k hk => received_eq (by omega)
  simp only [tcpSynAck, hin 12 (by decide), hin 13 (by decide), hack]

theorem tcpSyn_judged : PingSocket.tcpSyn.Judged conf datagram := by
  intro old old'
  by_cases hlen : datagram.length < 40
  · simp [PingSocket.process, hlen]
  · have hin : ∀ k < 40, received datagram old.inpacket k = received datagram old'.inpacket k :=
      fun k hk => received_eq (by omega)
    simp only [PingSocket.process, hin 0 (by decide)]
    split
    · rfl
    · rw [tcpSynAck_eq (b := old'.inpacket) (by omega), bytesAt_congr fun k hk => hin _ (by omega)]

theorem tcpSyn6_judged : PingSocket.tcpSyn6.Judged conf datagram := by
  intro old old'
  simp only [PingSocket.process]
  split
  · rfl
  · exact tcpSynAck_eq (by omega)

/-- Every byte a handler goes by was received exactly if no echo reply that passes the checks
is shorter than the packet that was sent. -/
theorem judged_iff_complete (socket : PingSocket) (conf : PingConf) (datagram : Bytes) :
    socket.Judged conf datagram ↔ socket.Complete conf datagram := by
  cases socket with
  | icmp =>
    refine judged_iff_of_packet fastPingIcmpPacket_eq (fun old old' j hj hsize => ?_) fun j hj => ?_
    · rw [icmpBytes_eq hj hsize, icmpBytes_eq hj hsize]
    · simp only [icmpBytes, length_sub_headerLen, Nat.not_lt.mpr (min_le_of_right_le hj), or_false]
      split
      next h =>
        have hj' : datagram.length ≤ j := by simpa [headerLen, h.2] using hj
        simp [headerLen, h.2, received, List.getElem?_eq_none hj', zeroBytes]
      · simp [zeroBytes]
  | icmp6 =>
    refine judged_iff_of_packet fastPingIcmp6Packet_eq (fun old old' j hj _ => received_eq hj)
      fun j hj => ?_
    simp [received, List.getElem?_eq_none hj, zeroBytes]
  | udp => exact iff_of_true udp_judged trivial
  | tcpSyn => exact iff_of_true tcpSyn_judged trivial
  | tcpSyn6 => exact iff_of_true tcpSyn6_judged trivial

/-- An echo reply of 28 bytes passes, and what the buffer held is taken for the session. -/
theorem short_reply_accepted : ¬PingSocket.icmp.Judged ⟨false, 0, true⟩ (List.replicate 28 0) :=
  fun h => absurd (h zeroBytes ⟨1, 1⟩) (by decide)

end SmartDns.Ping
