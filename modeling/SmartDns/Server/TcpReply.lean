import SmartDns.Lib.Bytes
import SmartDns.Lib.Runs

/-!
# Replies to a TCP or TLS client

`_dns_server_reply_tcp` hands a reply to the socket and keeps what the socket does
not take in `sndbuff`; `_dns_server_tcp_send` sends the buffer when the socket is
writable.  The stream that a client sees is what the socket took, followed by what
is still buffered.
-/

namespace SmartDns.Server

open List

variable {c : TcpClient}

def dnsConnBuffSize : Nat := 4096

def dnsInPacksize : Nat := 512 * 8

def recvErrorAgain : Int := 1

def recvErrorFail : Int := -1

/-- The type of a client connection, as far as sending is concerned. -/
inductive ConnType
  | tcp
  | tls
deriving DecidableEq

/-- One answer of the socket: it takes up to `n` bytes, it would block, or it
fails. -/
inductive SendAnswer
  | sent (n : Nat)
  | again
  | error
deriving DecidableEq

/-- The result of a send: a length, or an error with `errno` `EAGAIN` or another. -/
inductive SendResult
  | count (n : Nat)
  | again
  | error
deriving DecidableEq

/-- `sndbuff`: the first `size` bytes of the buffer. -/
structure SendBuffer where
  bytes : Bytes
  fits : bytes.length ≤ dnsConnBuffSize

namespace SendBuffer

def empty : SendBuffer := ⟨[], Nat.zero_le _⟩

/-- The `memcpy` behind the buffered bytes, when there is room. -/
def append (b : SendBuffer) (data : Bytes) : Option SendBuffer :=
  if h : b.bytes.length + data.length ≤ dnsConnBuffSize then
    some ⟨b.bytes ++ data, by rwa [List.length_append]⟩
  else none

/-- `sndbuff.size -= len`, which drops bytes from the end. -/
def shrink (b : SendBuffer) (len : Nat) : SendBuffer :=
  ⟨b.bytes.take (b.bytes.length - len), (List.length_take_le' _ _).trans b.fits⟩

end SendBuffer

/-- A client connection, with the answers that its socket is going to give. -/
structure TcpClient where
  type : ConnType
  sndbuff : SendBuffer := .empty
  sslWantWrite : Bool := false
  /-- The connection was closed and is no longer polled. -/
  closed : Bool := false
  socket : List SendAnswer := []
  /-- The bytes that the socket has taken. -/
  accepted : Bytes := []

/-- `send`, or `SSL_write` for a TLS client. -/
def socketSend (c : TcpClient) (data : Bytes) : TcpClient × SendResult :=
  match c.socket with
  | [] => (c, .again)
  | .again :: socket => ({ c with socket := socket }, .again)
  | .error :: socket => ({ c with socket := socket }, .error)
  | .sent n :: socket =>
    ({ c with socket := socket, accepted := c.accepted ++ data.take n },
      .count (min n data.length))

def dnsServerTcpSocketSend (c : TcpClient) (data : Bytes) : TcpClient × SendResult :=
  match c.type with
  | .tcp => socketSend c data
  | .tls => socketSend { c with sslWantWrite := false } data

def dnsServerReplyTcpToBuffer (c : TcpClient) (packet : Bytes) : TcpClient × Int :=
  match c.sndbuff.append packet with
  | none => (c, -1)
  | some sndbuff => ({ c with sndbuff := sndbuff }, if c.closed then -1 else 0)

/-- The length of a reply in network order, followed by the reply. -/
def inpacket (packet : Bytes) : Bytes :=
  UInt8.ofNat (packet.length >>> 8) :: UInt8.ofNat packet.length :: packet

def dnsServerReplyTcp (c : TcpClient) (packet : Bytes) : TcpClient × Int :=
  if dnsInPacksize - 2 < packet.length then (c, -1)
  else
    match dnsServerTcpSocketSend c (inpacket packet) with
    | (c, .again) => dnsServerReplyTcpToBuffer c (inpacket packet)
    | (c, .error) => (c, -1)
    | (c, .count sendLen) =>
      if sendLen < (inpacket packet).length then
        dnsServerReplyTcpToBuffer c ((inpacket packet).drop sendLen)
      else (c, 0)

def dnsServerTlsWantWrite (c : TcpClient) : Bool :=
  c.type == .tls && c.sslWantWrite

/--
The loop of `_dns_server_tcp_send`; `some` is a return value.  Every turn but the
last one shortens the buffer, so its length is enough fuel.
-/
def tcpSendLoop : (fuel : Nat) → TcpClient → TcpClient × Option Int
  | 0, c => (c, none)
  | fuel + 1, c =>
    if 0 < c.sndbuff.bytes.length || dnsServerTlsWantWrite c then
      match dnsServerTcpSocketSend c c.sndbuff.bytes with
      | (c, .again) => (c, some recvErrorAgain)
      | (c, .error) => (c, some recvErrorFail)
      | (c, .count 0) => (c, none)
      | (c, .count len) => tcpSendLoop fuel { c with sndbuff := c.sndbuff.shrink len }
    else (c, none)

section

variable (c : TcpClient)

def dnsServerTcpSend : TcpClient × Int :=
  match tcpSendLoop (c.sndbuff.bytes.length + 1) c with
  | (c, some ret) => (c, ret)
  | (c, none) => (c, 0)

/-- `_dns_server_process_tcp` on an event with `EPOLLOUT`: any result but 0, the
one for `EAGAIN` included, closes the connection. -/
def dnsServerProcessTcp : TcpClient :=
  match dnsServerTcpSend c with
  | (c, ret) => if ret ≠ 0 then { c with closed := true } else c

/-- A reply is given, the socket is writable, or the reading side of a TLS client
wants to write. -/
inductive TcpEvent
  | reply (packet : Bytes)
  | writable
  | wantWrite

/-- The effect of one event.  A closed connection is not polled. -/
def step : TcpEvent → TcpClient
  | .reply packet => (dnsServerReplyTcp c packet).1
  | .writable => if c.closed then c else dnsServerProcessTcp c
  | .wantWrite => { c with sslWantWrite := true }

/-! ### The byte stream -/

def observeReplies (_ : TcpClient) : TcpEvent → List Bytes → List Bytes
  | .reply packet, replies => replies ++ [packet]
  | _, replies => replies

/-- What the client has been sent or is going to be sent. -/
def TcpClient.stream : Bytes :=
  c.accepted ++ c.sndbuff.bytes

/-- How many bytes the socket takes at the next send. -/
def TcpClient.takes : Nat :=
  match c.socket with
  | .sent n :: _ => n
  | _ => 0

def TcpClient.healthy : Prop :=
  c.socket.head? ≠ some .error

/-- The reply is not refused: it is small enough, and what the socket leaves of it
fits behind the buffered bytes. -/
def TcpClient.hasRoom (packet : Bytes) : Prop :=
  packet.length ≤ dnsInPacksize - 2 ∧
    c.sndbuff.bytes.length + ((inpacket packet).length - c.takes) ≤ dnsConnBuffSize

/--
The events that keep the order: a reply is given when nothing is buffered or the
socket takes nothing, and a writable socket takes all of the buffer or nothing.
-/
def orderly : TcpEvent → Prop
  | .reply packet => c.healthy ∧ c.hasRoom packet ∧ (c.sndbuff.bytes = [] ∨ c.takes = 0)
  | .writable => c.healthy ∧ (c.sndbuff.bytes.length ≤ c.takes ∨ c.takes = 0)
  | .wantWrite => True

end

/-! ### One send -/

structure Sends (c : TcpClient) (data : Bytes) (r : TcpClient × SendResult) : Prop where
  sndbuff : r.1.sndbuff = c.sndbuff
  accepted : r.1.accepted = c.accepted ++ data.take c.takes
  idle : dnsServerTlsWantWrite r.1 = false
  result : (r.2 = .again ∧ c.takes = 0) ∨ r.2 = .count (min c.takes data.length)

theorem socketSend_sends (h : c.healthy) (hidle : dnsServerTlsWantWrite c = false) (data : Bytes) :
    Sends c data (socketSend c data) := by
  obtain ⟨type, sndbuff, sslWantWrite, closed, socket, accepted⟩ := c
  cases socket with
  | nil => exact ⟨rfl, (append_nil _).symm, hidle, .inl ⟨rfl, rfl⟩⟩
  | cons answer socket =>
    cases answer with
    | error => exact absurd rfl h
    | again => exact ⟨rfl, (append_nil _).symm, hidle, .inl ⟨rfl, rfl⟩⟩
    | sent n => exact ⟨rfl, rfl, hidle, .inr rfl⟩

theorem dnsServerTcpSocketSend_sends (h : c.healthy) (data : Bytes) :
    Sends c data (dnsServerTcpSocketSend c data) := by
  obtain ⟨type, sndbuff, sslWantWrite, closed, socket, accepted⟩ := c
  cases type with
  | tcp => exact socketSend_sends h rfl data
  | tls =>
    obtain ⟨hsndbuff, haccepted, hidle, hresult⟩ := socketSend_sends
      (c := ⟨.tls, sndbuff, false, closed, socket, accepted⟩) h rfl data
    exact ⟨hsndbuff, haccepted, hidle, hresult⟩

/-! ### Replies -/

theorem dnsServerReplyTcpToBuffer_stream
    {packet : Bytes} (hroom : c.sndbuff.bytes.length + packet.length ≤ dnsConnBuffSize) :
    (dnsServerReplyTcpToBuffer c packet).1.stream = c.stream ++ packet := by
  simp [dnsServerReplyTcpToBuffer, SendBuffer.append, dif_pos hroom, TcpClient.stream]

theorem dnsServerReplyTcp_stream {packet : Bytes} (hhealthy : c.healthy) (hroom : c.hasRoom packet)
    (horder : c.sndbuff.bytes = [] ∨ c.takes = 0) :
    (dnsServerReplyTcp c packet).1.stream = c.stream ++ inpacket packet := by
  have hsends := dnsServerTcpSocketSend_sends hhealthy (inpacket packet)
  have hpos : 0 < (inpacket packet).length := Nat.succ_pos _
  obtain ⟨hsize, hroom⟩ := hroom
  rw [dnsServerReplyTcp, if_neg (Nat.not_lt.mpr hsize)]
  generalize inpacket packet = data at hsends hpos hroom ⊢
  generalize dnsServerTcpSocketSend c data = r at hsends ⊢
  obtain ⟨c₁, result⟩ := r
  obtain ⟨hsndbuff, haccepted, -, hresult⟩ := hsends
  dsimp only at hsndbuff haccepted hresult
  -- the part that the socket took is in the stream in front of the buffer
  have hstream : c₁.stream = c.accepted ++ data.take c.takes ++ c.sndbuff.bytes := by
    rw [TcpClient.stream, haccepted, hsndbuff]
  rcases hresult with ⟨rfl, htakes⟩ | rfl
  · rw [htakes, Nat.sub_zero] at hroom
    rw [htakes, take_zero, append_nil] at hstream
    dsimp only
    rw [dnsServerReplyTcpToBuffer_stream (hsndbuff ▸ hroom), hstream]
    rfl
  dsimp only
  split
  next hshort =>
    have htakes : min c.takes data.length = c.takes := by omega
    rw [htakes, dnsServerReplyTcpToBuffer_stream, hstream]
    · rcases horder with hempty | hzero
      · rw [TcpClient.stream, hempty, append_nil, append_nil, append_assoc, take_append_drop]
      · rw [hzero, take_zero, append_nil, drop_zero]
        rfl
    · rw [hsndbuff, length_drop]
      exact hroom
  next hfull =>
    have htakes : data.length ≤ c.takes := by omega
    have hempty : c.sndbuff.bytes = [] := horder.resolve_right (by omega)
    rw [hstream, TcpClient.stream, hempty, take_of_length_le htakes, append_nil, append_nil]

/-! ### Writable sockets -/

theorem tcpSendLoop_idle
    (fuel : Nat) (hempty : c.sndbuff.bytes = []) (hidle : dnsServerTlsWantWrite c = false) :
    tcpSendLoop fuel c = (c, none) := by
  cases fuel with
  | zero => rfl
  | succ fuel => simp [tcpSendLoop, hempty, hidle]

theorem tcpSendLoop_stream
    (fuel : Nat) (hhealthy : c.healthy) (horder : c.sndbuff.bytes.length ≤ c.takes ∨ c.takes = 0) :
    (tcpSendLoop fuel c).1.stream = c.stream := by
  cases fuel with
  | zero => rfl
  | succ fuel =>
  have hsends := dnsServerTcpSocketSend_sends hhealthy c.sndbuff.bytes
  rw [tcpSendLoop]
  split
  · generalize dnsServerTcpSocketSend c c.sndbuff.bytes = r at hsends ⊢
    obtain ⟨c₁, result⟩ := r
    obtain ⟨hsndbuff, haccepted, hidle, hresult⟩ := hsends
    rcases hresult with ⟨rfl, htakes⟩ | hcount
    · dsimp only
      rw [TcpClient.stream, haccepted, hsndbuff, htakes, take_zero, append_nil]
      rfl
    generalize hlen : min c.takes c.sndbuff.bytes.length = len at hcount
    subst hcount
    cases len with
    | zero =>
      have hnone : c.sndbuff.bytes.take c.takes = [] := by
        rw [take_eq_nil_iff, ← length_eq_zero_iff]
        omega
      change c₁.stream = c.stream
      rw [TcpClient.stream, haccepted, hsndbuff, hnone, append_nil]
      rfl
    | succ len =>
      -- the socket took something, hence everything
      have hall : c.sndbuff.bytes.length ≤ c.takes := horder.resolve_right (by omega)
      have hrest : (c₁.sndbuff.shrink (len + 1)).bytes = [] := by
        rw [SendBuffer.shrink, hsndbuff, take_eq_nil_iff]
        omega
      have hloop := tcpSendLoop_idle
        (c := { c₁ with sndbuff := c₁.sndbuff.shrink (len + 1) }) fuel hrest hidle
      change (tcpSendLoop fuel { c₁ with sndbuff := c₁.sndbuff.shrink (len + 1) }).1.stream =
        c.stream
      rw [hloop, TcpClient.stream, haccepted, hrest, take_of_length_le hall, append_nil]
      rfl
  · rfl

theorem dnsServerProcessTcp_stream
    (hhealthy : c.healthy) (horder : c.sndbuff.bytes.length ≤ c.takes ∨ c.takes = 0) :
    (dnsServerProcessTcp c).stream = c.stream := by
  have hloop := tcpSendLoop_stream (c.sndbuff.bytes.length + 1) hhealthy horder
  rw [dnsServerProcessTcp, dnsServerTcpSend]
  generalize tcpSendLoop (c.sndbuff.bytes.length + 1) c = r at hloop ⊢
  obtain ⟨c₁, ret⟩ := r
  rw [← hloop]
  cases ret with
  | none => rfl
  | some ret =>
    dsimp only
    split <;> rfl

/-! ### Whole runs -/

theorem step_stream
    {e : TcpEvent} {replies : List Bytes} (hstream : c.stream = replies.flatMap inpacket)
    (hok : orderly c e) :
    (step c e).stream = (observeReplies c e replies).flatMap inpacket := by
  cases e with
  | reply packet =>
    obtain ⟨hhealthy, hroom, horder⟩ := hok
    rw [step, dnsServerReplyTcp_stream hhealthy hroom horder, hstream, observeReplies,
      flatMap_append, flatMap_singleton]
  | writable =>
    rw [step, observeReplies, ← hstream]
    · split
      · rfl
      · exact dnsServerProcessTcp_stream hok.1 hok.2
    · nofun
  | wantWrite => exact hstream

def newClient (type : ConnType) (socket : List SendAnswer) : TcpClient where
  type := type
  socket := socket

/--
**The replies form a byte stream.**  In every run whose events keep the order, the
bytes that the socket took, followed by those still buffered, are the replies in
order, each with its length in front.
-/
theorem replies_stream (type : ConnType) (socket : List SendAnswer) (events : List TcpEvent)
    (hok : Admissible step orderly (newClient type socket) events) :
    (run step (newClient type socket) events).stream =
      (observed step observeReplies (newClient type socket) [] events).flatMap inpacket :=
  observed_invariant step observeReplies
    (fun c replies => c.stream = replies.flatMap inpacket) (fun _ _ _ h hok => step_stream h hok)
    rfl hok

/-- The first reply is sent in two parts, and the second one is buffered. -/
theorem replies_stream_twoParts :
    (run step (newClient .tcp [.sent 2, .sent 1, .again])
        [.reply [7], .writable, .reply [8]]).stream =
      (observed step observeReplies (newClient .tcp [.sent 2, .sent 1, .again]) []
        [.reply [7], .writable, .reply [8]]).flatMap inpacket :=
  replies_stream .tcp [.sent 2, .sent 1, .again] [.reply [7], .writable, .reply [8]]
    ⟨⟨nofun, ⟨by decide, by decide⟩, .inl rfl⟩, ⟨nofun, .inl (by decide)⟩,
      ⟨nofun, ⟨by decide, by decide⟩, .inl rfl⟩, trivial⟩

/-- A reply overtakes one that is still buffered, and a buffer that is sent in two
parts repeats its start and loses its end. -/
theorem replies_corrupted :
    (run step (newClient .tcp [.again, .sent 3]) [.reply [7], .reply [8]]).stream ≠
        (observed step observeReplies (newClient .tcp [.again, .sent 3]) []
          [.reply [7], .reply [8]]).flatMap inpacket ∧
      (run step (newClient .tcp [.again, .sent 1, .sent 2]) [.reply [7], .writable]).stream ≠
        (observed step observeReplies (newClient .tcp [.again, .sent 1, .sent 2]) []
          [.reply [7], .writable]).flatMap inpacket := by
  constructor <;> decide

end SmartDns.Server
