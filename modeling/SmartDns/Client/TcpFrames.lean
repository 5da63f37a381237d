import SmartDns.Lib.Framing
import SmartDns.Lib.Runs

/-!
# Messages from an upstream TCP server

`_dns_client_process_tcp` appends what it receives to `recv_buff` and
`_dns_client_process_tcp_buff` takes the length-prefixed messages out of it.
Behind a message that is taken out, the loop looks at the next length as soon as
a single byte of it is there; the other byte is then whatever the buffer held
before, and a length that seems to be zero closes the connection.

The buffer is modelled with all its bytes, the stale ones included.
-/

namespace SmartDns.Client

open Framing List

variable {chunk message rest tail : Bytes} {s : ServerInfo} {b : RecvBuff} {messages : List Bytes}

def dnsTcpBuffer : Nat := 32 * 1024

def dnsInPacksize : Nat := 512 * 8

/-- `recv_buff`: the array, and how much of it is in use. -/
structure RecvBuff where
  data : Bytes
  len : Nat
  size : data.length = dnsTcpBuffer
  fits : len ≤ dnsTcpBuffer

namespace RecvBuff

variable (b : RecvBuff)

/-- The bytes in use. -/
def content : Bytes :=
  b.data.take b.len

theorem length_content : b.content.length = b.len := by
  rw [content, length_take, b.size, Nat.min_eq_left b.fits]

theorem received_size (h : b.len + chunk.length ≤ dnsTcpBuffer) :
    (b.data.take b.len ++ chunk ++ b.data.drop (b.len + chunk.length)).length = dnsTcpBuffer := by
  have hsize := b.size
  simp only [length_append, length_take, length_drop]
  omega

/-- `recv` behind the bytes in use, for a result that has room there. -/
def received (chunk : Bytes) (h : b.len + chunk.length ≤ dnsTcpBuffer) :
    RecvBuff where
  data := b.data.take b.len ++ chunk ++ b.data.drop (b.len + chunk.length)
  len := b.len + chunk.length
  size := b.received_size h
  fits := h

theorem consumed_size (len : Nat) :
    ((b.data.drop len).take (b.len - len) ++ b.data.drop (b.len - len)).length = dnsTcpBuffer := by
  have hsize := b.size
  have hfits := b.fits
  simp only [length_append, length_take, length_drop]
  omega

/-- `recv_buff.len -= len` with the `memmove` of the rest to the front. -/
def consumed (len : Nat) : RecvBuff where
  data := (b.data.drop len).take (b.len - len) ++ b.data.drop (b.len - len)
  len := b.len - len
  size := b.consumed_size len
  fits := (Nat.sub_le _ _).trans b.fits

end RecvBuff

/-- The receiving side of `dns_server_info`, with the messages that the handler
has been given so far. -/
structure ServerInfo where
  recvBuff : RecvBuff
  handled : List Bytes := []
  /-- The connection was dropped. -/
  closed : Bool := false

variable (dnsClientRecv : Bytes → Int)

/-- `_dns_client_process_tcp_buff` on a TCP or TLS connection.  Every turn of
the loop takes bytes out of the buffer, so `len + 1` turns are enough. -/
def dnsClientProcessTcpBuff : (turns : Nat) → ServerInfo → ServerInfo × Int
  | 0, s => (s, 0)
  | turns + 1, s =>
    let len := announced s.recvBuff.data
    if len = 0 ∨ dnsInPacksize ≤ len then (s, -1)
    else if s.recvBuff.len < len + 2 then (s, 0)
    else
      let packet := (s.recvBuff.data.drop 2).take len
      let s := { s with handled := s.handled ++ [packet] }
      if dnsClientRecv packet ≠ 0 then (s, -1)
      else
        let s := { s with recvBuff := s.recvBuff.consumed (len + 2) }
        if 0 < s.recvBuff.len then dnsClientProcessTcpBuff turns s else (s, 0)

/-- `_dns_client_process_tcp` on a receive result.  A result that has no room
does not occur: `recv` is asked for no more than there is room for. -/
def dnsClientProcessTcp (s : ServerInfo) (chunk : Bytes) : ServerInfo :=
  if h : s.closed = false ∧ s.recvBuff.len + chunk.length ≤ dnsTcpBuffer then
    let s := { s with recvBuff := s.recvBuff.received chunk h.2 }
    if s.recvBuff.len ≤ 2 then s
    else
      let r := dnsClientProcessTcpBuff dnsClientRecv (s.recvBuff.len + 1) s
      if r.2 ≠ 0 then { r.1 with closed := true } else r.1
  else s

/-- A receive result of at least one byte, which has room in the buffer of a
connection that is still open. -/
def Receives (s : ServerInfo) (chunk : Bytes) : Prop :=
  chunk ≠ [] ∧ (s.closed = false → s.recvBuff.len + chunk.length ≤ dnsTcpBuffer)

/-- A message that the framing can carry and the handler accepts. -/
def Accepted (message : Bytes) : Prop :=
  1 ≤ message.length ∧ message.length ≤ 4095 ∧ dnsClientRecv message = 0

/-! ## The buffer -/

namespace RecvBuff

theorem content_received (b : RecvBuff) (h : b.len + chunk.length ≤ dnsTcpBuffer) :
    (b.received chunk h).content = b.content ++ chunk := by
  have hlen : (b.data.take b.len ++ chunk).length = b.len + chunk.length := by
    rw [length_append, ← content, length_content]
  rw [content, received]
  simp only
  rw [← hlen, take_left, content]

theorem content_consumed (b : RecvBuff) (len : Nat) :
    (b.consumed len).content = b.content.drop len := by
  have hlen : ((b.data.drop len).take (b.len - len)).length = b.len - len := by
    have hsize := b.size
    have hfits := b.fits
    simp only [length_take, length_drop]
    omega
  rw [content, consumed]
  rw [take_append_of_le_length hlen.ge, take_take, min_self, content, drop_take]

/-- What the loop reads in front of the end of the buffered bytes. -/
theorem getD_content (b : RecvBuff) {i : Nat} (h : i < b.len) :
    b.data.getD i 0 = b.content.getD i 0 := by
  rw [content, getD_eq_getElem?_getD, getD_eq_getElem?_getD, getElem?_take_of_lt h]

/-- A single byte that is left over stands in front of a stale one. -/
theorem consumed_stale (b : RecvBuff) {len : Nat} (h : b.len - len = 1) :
    (b.consumed len).data.getD 1 0 = b.data.getD 1 0 := by
  have hlen : ((b.data.drop len).take 1).length = 1 := by
    have hsize := b.size
    have hfits := b.fits
    simp only [length_take, length_drop]
    omega
  rw [consumed]
  simp only
  rw [h, getD_eq_getElem?_getD, getElem?_append_right hlen.le, hlen, Nat.sub_self,
    getElem?_drop, Nat.add_zero, ← getD_eq_getElem?_getD]

end RecvBuff

/-! ## One call -/

/-- What the loop leaves of a piece of a stream. -/
structure Leaves (s : ServerInfo) (todo : List Bytes) (r : ServerInfo × Int)
    (done left : List Bytes) :
    Prop where
  split : todo = done ++ left
  handled : r.1.handled = s.handled ++ done
  content : s.recvBuff.content = frames done ++ r.1.recvBuff.content
  incomplete : Incomplete r.1.recvBuff.content left
  closed : r.1.closed = s.closed
  /-- The loop fails on a single byte of a length that seems to be zero. -/
  failed : r.2 ≠ 0 ↔ r.1.recvBuff.len = 1 ∧ announced r.1.recvBuff.data = 0
  /-- The byte behind that single one belongs to the last length that was read. -/
  stale : r.1.recvBuff.len = 1 → (done = [] ∧ r = (s, r.2)) ∨
    ∃ earlier last, done = earlier ++ [last] ∧
      r.1.recvBuff.data.getD 1 0 = UInt8.ofNat last.length

theorem announced_stream (hmessage : message.length < 65536) (hlen : 2 ≤ s.recvBuff.len)
    (hstream : s.recvBuff.content ++ rest = frame message ++ tail) :
    announced s.recvBuff.data = message.length := by
  have hread : ∀ i < 2, s.recvBuff.data.getD i 0 = (frame message ++ tail).getD i 0 := by
    intro i hi
    rw [s.recvBuff.getD_content (by omega), ← hstream, getD_eq_getElem?_getD,
      getD_eq_getElem?_getD, getElem?_append_left]
    rw [s.recvBuff.length_content]
    omega
  rw [announced, hread 0 (by omega), hread 1 (by omega), ← announced, announced_frame hmessage]

/-- The first message of the stream, when all of it is buffered. -/
theorem frame_of_stream
    (hlen : message.length + 2 ≤ b.len) (hstream : b.content ++ rest = frame message ++ tail) :
    ∃ after, b.content = frame message ++ after ∧ after ++ rest = tail := by
  have hinit : frame message <+: b.content := by
    refine prefix_of_prefix_length_le ⟨tail, rfl⟩ ⟨rest, hstream⟩ ?_
    rw [length_frame, b.length_content]
    exact hlen
  obtain ⟨after, hafter⟩ := hinit
  refine ⟨after, hafter.symm, ?_⟩
  rw [← hafter, append_assoc] at hstream
  exact append_cancel_left hstream

theorem packet_of_content {after : Bytes} (hcontent : b.content = frame message ++ after) :
    (b.data.drop 2).take message.length = message := by
  have hdata : b.data = lengthPrefix message.length ++
    (message ++ (after ++ b.data.drop b.len)) := by
    rw [← append_assoc message, ← append_assoc, ← append_assoc, ← frame, ← hcontent,
      RecvBuff.content, take_append_drop]
  rw [hdata, ← length_lengthPrefix message.length, drop_left, take_left]

theorem first_byte (hlen : 0 < b.len) (hstream : b.content ++ rest = frame message ++ tail) :
    b.data.getD 0 0 = UInt8.ofNat (message.length / 256) := by
  rw [b.getD_content hlen]
  have hcontent := b.length_content
  cases hb : b.content with
  | nil =>
    rw [hb, length_nil] at hcontent
    omega
  | cons c bs =>
    rw [hb, frame, lengthPrefix] at hstream
    simp only [cons_append, List.cons.injEq] at hstream
    rw [getD_cons_zero, hstream.1]

theorem single_leaves
    {turns : Nat} {todo : List Bytes} (hlen : s.recvBuff.len = 1) (hmax : message.length ≤ 4095)
    (hstream : s.recvBuff.content ++ rest = frame message ++ frames todo) :
    Leaves s (message :: todo) (dnsClientProcessTcpBuff dnsClientRecv (turns + 1) s) []
      (message :: todo) := by
  have hhi := first_byte (by omega) hstream
  have hbound : announced s.recvBuff.data < dnsInPacksize := by
    rw [announced, hhi, ntohs, UInt8.toNat_ofNat', dnsInPacksize]
    have := (s.recvBuff.data.getD 1 0).toNat_lt
    omega
  have hincomplete : Incomplete s.recvBuff.content (message :: todo) := by
    rw [Incomplete, s.recvBuff.length_content, length_frame]
    omega
  rw [dnsClientProcessTcpBuff]
  by_cases hzero : announced s.recvBuff.data = 0
  · simp only [hzero, true_or, if_true]
    exact ⟨rfl, by simp, by simp, hincomplete, rfl, by simp [hlen, hzero], fun _ => .inl ⟨rfl, rfl⟩⟩
  have hvalid : ¬ (announced s.recvBuff.data = 0 ∨ dnsInPacksize ≤ announced s.recvBuff.data) := by
    omega
  have hwait : s.recvBuff.len < announced s.recvBuff.data + 2 := by omega
  simp only [if_neg hvalid, if_pos hwait]
  exact ⟨rfl, by simp, by simp, hincomplete, rfl, by simp [hzero], fun _ => .inl ⟨rfl, rfl⟩⟩

theorem dnsClientProcessTcpBuff_leaves {turns : Nat} {todo : List Bytes} (hpos : 0 < s.recvBuff.len)
    (hturns : s.recvBuff.len < turns) (hstream : s.recvBuff.content ++ rest = frames todo)
    (haccepted : ∀ message ∈ todo, Accepted dnsClientRecv message) :
    ∃ done left, Leaves s todo (dnsClientProcessTcpBuff dnsClientRecv turns s) done left := by
  induction turns generalizing s todo with
  | zero => omega
  | succ turns ih =>
  cases todo with
  | nil =>
    have := congrArg List.length hstream
    rw [length_append, s.recvBuff.length_content] at this
    simp only [frames_nil, length_nil] at this
    omega
  | cons message todo =>
  obtain ⟨hone, hmax, haccept⟩ := haccepted message mem_cons_self
  have hrest : ∀ m ∈ todo, Accepted dnsClientRecv m :=
    fun m hm => haccepted m (mem_cons_of_mem _ hm)
  rw [frames_cons] at hstream
  rcases Nat.lt_or_ge 1 s.recvBuff.len with htwo | hsingle
  · have hannounced := announced_stream (by omega) htwo hstream
    have hvalid : ¬ (message.length = 0 ∨ dnsInPacksize ≤ message.length) := by
      rw [dnsInPacksize]
      omega
    rw [dnsClientProcessTcpBuff]
    simp only [hannounced, if_neg hvalid]
    split
    next hwait =>
      refine ⟨[], message :: todo, rfl, by simp, by simp, ?_, rfl, ?_, ?_⟩
      · rw [Incomplete, s.recvBuff.length_content, length_frame]
        exact hwait
      · exact ⟨fun h => absurd rfl h, fun h => absurd h.1 htwo.ne'⟩
      · exact fun hlen => absurd hlen htwo.ne'
    next hwhole =>
    obtain ⟨after, hafter, hleft⟩ := frame_of_stream (by omega) hstream
    have hpacket := packet_of_content hafter
    simp only [hpacket, haccept, ne_eq, not_true_eq_false, if_false]
    have hcontent : (s.recvBuff.consumed (message.length + 2)).content = after := by
      rw [RecvBuff.content_consumed, hafter, ← length_frame, drop_left]
    split
    next hmore =>
      obtain ⟨done, left, h⟩ := @ih { s with
          handled := s.handled ++ [message]
          recvBuff := s.recvBuff.consumed (message.length + 2) }
        todo hmore (by simp only [RecvBuff.consumed]; omega)
        (by rw [hcontent, hleft]) hrest
      refine ⟨message :: done, left, ?_, ?_, ?_, h.incomplete, h.closed, h.failed, ?_⟩
      · rw [h.split, cons_append]
      · rw [h.handled, append_assoc, singleton_append]
      · have hsub := h.content
        rw [hcontent] at hsub
        rw [hafter, hsub, frames_cons, append_assoc]
      intro hlen
      rcases h.stale hlen with ⟨rfl, hsame⟩ | ⟨earlier, last, rfl, hlast⟩
      · refine .inr ⟨[], message, rfl, ?_⟩
        rw [hsame] at hlen ⊢
        rw [RecvBuff.consumed_stale _ hlen, s.recvBuff.getD_content (by omega), hafter]
        rfl
      · exact .inr ⟨message :: earlier, last, rfl, hlast⟩
    next hempty =>
    have hnil : after = [] := by
      rw [← length_eq_zero_iff, ← hcontent, RecvBuff.length_content]
      omega
    refine ⟨[message], todo, rfl, rfl, ?_, ?_, rfl, ?_, ?_⟩
    · rw [hafter, hcontent, hnil]
      simp
    · rw [hcontent, hnil]
      cases todo with
      | nil => rfl
      | cons m todo => simp [Incomplete]
    · exact ⟨fun h => absurd rfl h, fun h => absurd h.1.ge hempty⟩
    · exact fun hlen => absurd hlen.ge hempty
  · have hlen : s.recvBuff.len = 1 := by omega
    refine ⟨[], message :: todo, ?_⟩
    exact single_leaves dnsClientRecv hlen hmax hstream

/-! ## The stream -/

/-- A receive result that ends one byte behind a message of which it contains a
part, where the length of the message is a multiple of 256 and the next one is
shorter than 256. -/
def BadEnd (messages : List Bytes) (consumed chunk : Bytes) : Prop :=
  ∃ earlier last next later, messages = earlier ++ [last] ++ next :: later ∧
    consumed.length < (frames (earlier ++ [last])).length ∧
    (consumed ++ chunk).length = (frames (earlier ++ [last])).length + 1 ∧
    last.length % 256 = 0 ∧ next.length < 256

/-- Some receive result of the cut ends like that. -/
def BadCut (messages chunks : List Bytes) : Prop :=
  ∃ before chunk after, chunks = before ++ chunk :: after ∧
    BadEnd messages before.flatten chunk

/-- The connection after some bytes of the stream: the whole messages have been
handled and the rest is in the buffer. -/
def Holds (messages : List Bytes) (consumed : Bytes) (s : ServerInfo) : Prop :=
  s.closed = false ∧ ∃ left, messages = s.handled ++ left ∧
    consumed = frames s.handled ++ s.recvBuff.content ∧ Incomplete s.recvBuff.content left

theorem BadEnd.unique
    {done left : List Bytes} {consumed content : Bytes} (h : BadEnd messages consumed chunk)
    (hsplit : messages = done ++ left) (hbytes : consumed ++ chunk = frames done ++ content)
    (hincomplete : Incomplete content left) :
    ∃ earlier last next later, done = earlier ++ [last] ∧ left = next :: later ∧
      content.length = 1 ∧ consumed.length < (frames done).length ∧
      last.length % 256 = 0 ∧ next.length < 256 := by
  obtain ⟨earlier, last, next, later, hmessages, hstart, hend, hlast, hnext⟩ := h
  have hsingle : Incomplete [0] (next :: later) := by simp [Incomplete]
  have hlen : (frames done ++ content).length = (frames (earlier ++ [last]) ++ [0]).length := by
    rw [← hbytes, hend, length_append, length_singleton]
  obtain ⟨rfl, rfl⟩ := frames_unique (hsplit.symm.trans hmessages) hincomplete hsingle hlen
  refine ⟨earlier, last, next, later, rfl, rfl, ?_, hstart, hlast, hnext⟩
  rw [length_append, length_append, length_singleton] at hlen
  omega

theorem announced_eq_zero_iff (bytes : Bytes) :
    announced bytes = 0 ↔ (bytes.getD 0 0).toNat = 0 ∧ (bytes.getD 1 0).toNat = 0 := by
  rw [announced, ntohs]
  omega

/-- One receive result: the connection goes on, or it was cut badly. -/
theorem dnsClientProcessTcp_step
    {consumed : Bytes} (hholds : Holds messages consumed s) (hreceives : Receives s chunk)
    (hstream : consumed ++ chunk ++ rest = frames messages)
    (haccepted : ∀ message ∈ messages, Accepted dnsClientRecv message) :
    (Holds messages (consumed ++ chunk) (dnsClientProcessTcp dnsClientRecv s chunk) ∧
        ¬ BadEnd messages consumed chunk) ∨
      ((dnsClientProcessTcp dnsClientRecv s chunk).closed = true ∧
        BadEnd messages consumed chunk) := by
  obtain ⟨hopen, left, hsplit, hconsumed, hincomplete⟩ := hholds
  obtain ⟨hchunk, hroom⟩ := hreceives
  have hleft : s.recvBuff.content ++ chunk ++ rest = frames left := by
    rw [hconsumed, hsplit, frames_append, append_assoc, append_assoc] at hstream
    rw [append_assoc]
    exact append_cancel_left hstream
  rw [dnsClientProcessTcp, dif_pos ⟨hopen, hroom hopen⟩]
  dsimp only
  set b := s.recvBuff.received chunk (hroom hopen) with hb
  have hcontent : b.content = s.recvBuff.content ++ chunk := s.recvBuff.content_received _
  have hbytes : consumed ++ chunk = frames s.handled ++ b.content := by
    rw [hcontent, hconsumed, append_assoc]
  split
  next hwait =>
    -- two bytes are less than a message
    left
    have hshort : Incomplete b.content left := by
      cases left with
      | nil =>
        rw [← hcontent, frames_nil, append_eq_nil_iff] at hleft
        exact hleft.1
      | cons message left =>
        have hone := (haccepted message (by rw [hsplit]; simp)).1
        rw [Incomplete, b.length_content, length_frame]
        omega
    refine ⟨⟨hopen, left, hsplit, hbytes, hshort⟩, ?_⟩
    intro hbad
    obtain ⟨-, -, -, -, -, -, -, hstart, -, -⟩ := hbad.unique hsplit hbytes hshort
    rw [hconsumed, length_append] at hstart
    omega
  next hgo =>
  have hturns : b.len < b.len + 1 := Nat.lt_succ_self _
  obtain ⟨done, left', h⟩ :=
    @dnsClientProcessTcpBuff_leaves rest { s with recvBuff := b } dnsClientRecv (b.len + 1) left
      (by change 0 < b.len; omega) hturns (by rw [← hleft, ← hcontent])
      (fun m hm => haccepted m (by rw [hsplit]; exact mem_append_right _ hm))
  generalize dnsClientProcessTcpBuff dnsClientRecv (b.len + 1) { s with recvBuff := b } = r at h
  have hall : messages = r.1.handled ++ left' := by
    rw [h.handled, append_assoc, ← h.split, hsplit]
  have hwhole : consumed ++ chunk = frames r.1.handled ++ r.1.recvBuff.content := by
    rw [hbytes, h.handled, frames_append, append_assoc, ← h.content]
  have hsub : r.1.recvBuff.content ++ rest = frames left' := by
    rw [hwhole, hall, frames_append, append_assoc] at hstream
    exact append_cancel_left hstream
  split
  next hfailed =>
    right
    refine ⟨rfl, ?_⟩
    obtain ⟨hone, hzero⟩ := h.failed.mp hfailed
    obtain ⟨hhi, hlo⟩ := (announced_eq_zero_iff _).mp hzero
    rcases h.stale hone with ⟨-, hsame⟩ | ⟨earlier, last, rfl, hlast⟩
    · rw [hsame] at hone
      exact absurd (hone.le.trans one_le_two) hgo
    obtain ⟨next, later, rfl⟩ : ∃ next later, left' = next :: later := by
      cases left' with
      | nil =>
        have hnil : r.1.recvBuff.content = [] := h.incomplete
        rw [← r.1.recvBuff.length_content, hnil, length_nil] at hone
        omega
      | cons next later => exact ⟨next, later, rfl⟩
    have hmax := (haccepted next (by rw [hall]; simp)).2.1
    rw [first_byte (by omega) hsub, UInt8.toNat_ofNat'] at hhi
    rw [hlast, UInt8.toNat_ofNat'] at hlo
    refine ⟨s.handled ++ earlier, last, next, later, ?_, ?_, ?_, by omega, by omega⟩
    · rw [hall, h.handled, ← append_assoc]
    · -- the first message of the call was not whole before it
      rw [h.split] at hincomplete
      have hfirst := hincomplete.lt_frames (by simp)
      rw [hconsumed, append_assoc, frames_append, length_append, length_append]
      omega
    · rw [hwhole, h.handled, ← append_assoc, length_append, r.1.recvBuff.length_content, hone]
  next hok =>
  left
  refine ⟨⟨h.closed.trans hopen, left', hall, hwhole, h.incomplete⟩, ?_⟩
  intro hbad
  obtain ⟨earlier, last, next, later, hdone, rfl, hone, hstart, hlast, hnext⟩ :=
    hbad.unique hall hwhole h.incomplete
  rw [r.1.recvBuff.length_content] at hone
  apply hok
  refine h.failed.mpr ⟨hone, (announced_eq_zero_iff _).mpr ⟨?_, ?_⟩⟩
  · rw [first_byte (by omega) hsub, UInt8.toNat_ofNat']
    omega
  rcases h.stale hone with ⟨rfl, -⟩ | ⟨earlier', last', rfl, hlast'⟩
  · rw [hconsumed, h.handled, append_nil, length_append] at hstart
    simp only at hstart
    omega
  rw [h.handled, ← append_assoc] at hdone
  obtain ⟨-, hsame⟩ := append_inj' hdone rfl
  rw [List.cons.injEq] at hsame
  rw [hlast', hsame.1, UInt8.toNat_ofNat']
  omega

theorem dnsClientProcessTcp_closed (h : s.closed = true) (chunks : List Bytes) :
    run (dnsClientProcessTcp dnsClientRecv) s chunks = s := by
  induction chunks with
  | nil => rfl
  | cons chunk chunks ih =>
    have hsame : dnsClientProcessTcp dnsClientRecv s chunk = s := by
      rw [dnsClientProcessTcp, dif_neg]
      simp [h]
    rw [run_cons, hsame, ih]

/-- Over a whole stream the connection stays open exactly when no receive result
ends badly, and then every message has been handled. -/
theorem receive_stream {chunks : List Bytes} {consumed : Bytes} (hholds : Holds messages consumed s)
    (hreceives : Admissible (dnsClientProcessTcp dnsClientRecv) Receives s chunks)
    (hstream : consumed ++ chunks.flatten = frames messages)
    (haccepted : ∀ message ∈ messages, Accepted dnsClientRecv message) :
    ((run (dnsClientProcessTcp dnsClientRecv) s chunks).closed = false ∧
        (run (dnsClientProcessTcp dnsClientRecv) s chunks).handled = messages) ↔
      ∀ before chunk after, chunks = before ++ chunk :: after →
        ¬ BadEnd messages (consumed ++ before.flatten) chunk := by
  induction chunks generalizing consumed s with
  | nil =>
    obtain ⟨hopen, left, hsplit, hconsumed, hincomplete⟩ := hholds
    have hdone : s.handled = messages := by
      rw [flatten_nil, append_nil, hconsumed, hsplit, frames_append] at hstream
      have hleft := append_cancel_left hstream
      cases left with
      | nil => rw [hsplit, append_nil]
      | cons message left =>
        rw [hleft, frames_cons, Incomplete, length_append] at hincomplete
        omega
    refine ⟨fun _ before chunk after h => ?_, fun _ => ⟨hopen, hdone⟩⟩
    simp at h
  | cons chunk chunks ih =>
  rw [flatten_cons, ← append_assoc] at hstream
  rw [run_cons]
  rcases dnsClientProcessTcp_step dnsClientRecv hholds hreceives.1 hstream haccepted with
    ⟨hnext, hgood⟩ | ⟨hclosed, hbad⟩
  · rw [ih hnext hreceives.2 hstream]
    constructor
    · intro h before c after heq
      cases before with
      | nil =>
        rw [nil_append, List.cons.injEq] at heq
        rw [← heq.1, flatten_nil, append_nil]
        exact hgood
      | cons b before =>
        rw [cons_append, List.cons.injEq] at heq
        rw [← heq.1, flatten_cons, ← append_assoc]
        exact h before c after heq.2
    · intro h before c after heq
      have := h (chunk :: before) c after (by rw [heq, cons_append])
      rwa [flatten_cons, ← append_assoc] at this
  · rw [dnsClientProcessTcp_closed dnsClientRecv hclosed, hclosed]
    refine ⟨fun h => absurd h.1 Bool.noConfusion, fun h => ?_⟩
    have := h [] chunk chunks rfl
    rw [flatten_nil, append_nil] at this
    exact absurd hbad this

/-- A connection on which nothing has been received, whatever the array holds. -/
def connected (data : Bytes) (hsize : data.length = dnsTcpBuffer) : ServerInfo where
  recvBuff := ⟨data, 0, hsize, Nat.zero_le _⟩

theorem connected_holds {data : Bytes} (hsize : data.length = dnsTcpBuffer)
    (messages : List Bytes) : Holds messages [] (connected data hsize) := by
  refine ⟨rfl, messages, rfl, rfl, ?_⟩
  cases messages with
  | nil => rfl
  | cons message messages => exact Nat.lt_of_lt_of_eq (Nat.succ_pos _) (length_frame message).symm

/-- **The messages of a stream are handled, all and in order, and the connection
stays open, exactly when no receive result ends one byte behind a message whose
length is a multiple of 256 and in front of a message shorter than 256.** -/
theorem messages_handled_iff {data : Bytes} (hsize : data.length = dnsTcpBuffer)
    {messages chunks : List Bytes} (haccepted : ∀ message ∈ messages,
    Accepted dnsClientRecv message) (hcut : chunks.flatten = frames messages)
    (hreceives : Admissible (dnsClientProcessTcp dnsClientRecv) Receives (connected data hsize)
      chunks) :
    ((run (dnsClientProcessTcp dnsClientRecv) (connected data hsize) chunks).closed = false ∧
        (run (dnsClientProcessTcp dnsClientRecv) (connected data hsize) chunks).handled =
          messages) ↔
      ¬ BadCut messages chunks := by
  rw [receive_stream dnsClientRecv (connected_holds hsize messages) hreceives hcut haccepted]
  constructor
  · rintro h ⟨before, chunk, after, heq, hbad⟩
    exact h before chunk after heq hbad
  · intro h before chunk after heq hbad
    exact h ⟨before, chunk, after, heq, hbad⟩

/-- A handler that accepts everything. -/
def acceptAll : Bytes → Int :=
  fun _ => 0

def zeros : Bytes :=
  List.replicate dnsTcpBuffer 0

theorem length_zeros : zeros.length = dnsTcpBuffer :=
  length_replicate

theorem accepted_acceptAll
    (h : messages.all (fun m => decide (1 ≤ m.length ∧ m.length ≤ 4095)) = true) :
    ∀ message ∈ messages, Accepted acceptAll message := by
  intro message hmem
  have := all_eq_true.mp h message hmem
  rw [decide_eq_true_eq] at this
  exact ⟨this.1, this.2, rfl⟩

theorem messages_handled_iff_cutLength :
    (run (dnsClientProcessTcp acceptAll) (connected zeros length_zeros) [[0, 1], [7]]).closed =
        false ∧
      (run (dnsClientProcessTcp acceptAll) (connected zeros length_zeros)
        [[0, 1], [7]]).handled = [[7]] := by
  refine (@messages_handled_iff acceptAll _ length_zeros [[7]] [[0, 1], [7]]
    (accepted_acceptAll rfl) rfl ?_).mpr ?_
  · refine ⟨⟨by simp, fun _ => ?_⟩, ⟨by simp, fun _ => ?_⟩, trivial⟩
    · simp [connected, dnsTcpBuffer]
    · simp [dnsClientProcessTcp, connected, RecvBuff.received, dnsTcpBuffer]
  · rintro ⟨-, -, -, -, earlier, last, next, later, hmessages, -⟩
    have hlength := congrArg List.length hmessages
    simp only [length_append, length_cons, length_nil] at hlength
    omega

def message256 : Bytes :=
  List.replicate 256 0

@[simp] theorem length_message256 : message256.length = 256 :=
  length_replicate

/-- Behind a message of 256 bytes a single byte of the next length closes the
connection. -/
theorem singleByte_closes :
    [frame message256 ++ [0], [1, 5]].flatten = frames [message256, [5]] ∧
      (run (dnsClientProcessTcp acceptAll) (connected zeros length_zeros)
        [frame message256 ++ [0], [1, 5]]).closed = true := by
  refine ⟨by simp [frame, lengthPrefix], ?_⟩
  have hbad : BadEnd [message256, [5]] [] (frame message256 ++ [0]) :=
    ⟨[], message256, [5], [], rfl, by simp, by simp, by simp, by simp⟩
  have hreceives : Receives (connected zeros length_zeros) (frame message256 ++ [0]) :=
    ⟨by simp [frame, lengthPrefix], fun _ => by simp [connected, dnsTcpBuffer]⟩
  have hstream : [] ++ (frame message256 ++ [0]) ++ [1, 5] = frames [message256, [5]] := by
    simp [frame, lengthPrefix]
  rcases dnsClientProcessTcp_step acceptAll (connected_holds length_zeros [message256, [5]])
      hreceives hstream (accepted_acceptAll (by simp)) with ⟨-, hgood⟩ | ⟨hclosed, -⟩
  · exact absurd hbad hgood
  · rw [run_cons, dnsClientProcessTcp_closed acceptAll hclosed]
    exact hclosed

end SmartDns.Client
