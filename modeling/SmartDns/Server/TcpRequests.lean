import SmartDns.Lib.Framing
import SmartDns.Server.TcpReply

/-!
# Requests of a TCP or TLS client

`_dns_server_tcp_process_requests` fills `recvbuff` from the socket and hands the
length-prefixed requests in it to `_dns_server_recv`.  A request has to fit in
the buffer together with its length; the test on the announced length lets one
length through for which it does not.

The socket is a tape of answers; an empty tape answers `EAGAIN`.
-/

namespace SmartDns.Server

open Framing List

variable {stream : Bytes} {c : TcpReader}

def recvErrorClose : Int := -2

def recvErrorInvalidPacket : Int := -3

/-- One answer of the socket: bytes that have arrived, none of them at the end of
the stream, or an error by its `errno`.  A read that has no room for all the
bytes leaves the rest to the next one. -/
inductive RecvAnswer
  | data (bytes : Bytes)
  | again
  | connReset
  | timedOut
  | failed
deriving DecidableEq

/-- What `_dns_server_recv` returns. -/
inductive RecvReturn
  | ok
  | fail
  | invalidPacket
deriving DecidableEq

def RecvReturn.code : RecvReturn → Int
  | ok => 0
  | fail => recvErrorFail
  | invalidPacket => recvErrorInvalidPacket

/-- `recvbuff`: the first `size` bytes of the buffer. -/
structure RecvBuffer where
  bytes : Bytes
  fits : bytes.length ≤ dnsConnBuffSize

open RecvBuffer

namespace RecvBuffer

def empty : RecvBuffer := ⟨[], Nat.zero_le _⟩

section

variable (b : RecvBuffer)

/-- The room behind the buffered bytes. -/
def room : Nat :=
  dnsConnBuffSize - b.bytes.length

theorem append_fits (data : Bytes) : (b.bytes ++ data.take b.room).length ≤ dnsConnBuffSize := by
  have hfits := b.fits
  rw [length_append, length_take, room]
  omega

/-- `recv` behind the buffered bytes. -/
def append (data : Bytes) : RecvBuffer :=
  ⟨b.bytes ++ data.take b.room, b.append_fits data⟩

theorem drop_fits (n : Nat) : (b.bytes.drop n).length ≤ dnsConnBuffSize := by
  rw [length_drop]
  exact (Nat.sub_le _ _).trans b.fits

/-- The `memmove` of what has not been processed to the front. -/
def drop (n : Nat) : RecvBuffer :=
  ⟨b.bytes.drop n, b.drop_fits n⟩

def full : Prop :=
  b.bytes.length = dnsConnBuffSize

end

instance (b : RecvBuffer) : Decidable b.full :=
  inferInstanceAs (Decidable (_ = _))

end RecvBuffer

structure TcpReader where
  recvbuff : RecvBuffer := .empty
  socket : List RecvAnswer
  /-- The requests that `_dns_server_recv` has been given. -/
  handed : List Bytes := []
  /-- How many bytes have been taken out of the buffer. -/
  proceeded : Nat := 0
  closed : Bool := false

/-- `_dns_server_tcp_recv`: receive until the buffer is full or the socket has
no more. -/
def dnsServerTcpRecv : RecvBuffer → List RecvAnswer → RecvBuffer × List RecvAnswer × Int
  | b, [] => if b.full then (b, [], 0) else (b, [], recvErrorAgain)
  | b, answer :: socket =>
    if b.full then (b, answer :: socket, 0)
    else
      match answer with
      | .again => (b, socket, recvErrorAgain)
      | .connReset => (b, socket, recvErrorClose)
      | .timedOut => (b, socket, recvErrorClose)
      | .failed => (b, socket, recvErrorFail)
      | .data bytes =>
        if bytes = [] then (b, socket, recvErrorClose)
        else if bytes.length ≤ b.room then dnsServerTcpRecv (b.append bytes) socket
        else (b.append bytes, .data (bytes.drop b.room) :: socket, 0)

variable (dnsServerRecv : Nat → Bytes → RecvReturn)

/-- The loop of `_dns_server_tcp_process_one_request` on a TCP or TLS connection:
how much it has processed, what it has handed over and what it returns.  Every
turn processes at least the two bytes of a length. -/
def requestLoop (buf : Bytes) : (turns : Nat) → Nat → List Bytes → Nat × List Bytes × Int
  | 0, proceedLen, handed => (proceedLen, handed, recvErrorFail)
  | turns + 1, proceedLen, handed =>
    let rest := buf.drop proceedLen
    if rest.length ≤ 2 then (proceedLen, handed, recvErrorAgain)
    else
      let requestLen := announced rest
      if dnsConnBuffSize ≤ requestLen then (proceedLen, handed, recvErrorFail)
      else if rest.length - 2 < requestLen then (proceedLen, handed, recvErrorAgain)
      else
        let request := (rest.drop 2).take requestLen
        let ret := (dnsServerRecv handed.length request).code
        if ret ≠ 0 then (proceedLen, handed ++ [request], ret)
        else requestLoop buf turns (proceedLen + (2 + requestLen)) (handed ++ [request])

/-- `_dns_server_tcp_process_one_request`: an error leaves the buffer as it is. -/
def dnsServerTcpProcessOneRequest (c : TcpReader) : TcpReader × Int :=
  let r := requestLoop dnsServerRecv c.recvbuff.bytes (c.recvbuff.bytes.length + 1) 0 c.handed
  if r.2.2 = recvErrorAgain then
    ({ c with
        recvbuff := c.recvbuff.drop r.1, handed := r.2.1, proceeded := c.proceeded + r.1 }, r.2.2)
  else ({ c with handed := r.2.1 }, r.2.2)

/-- The connection after `_dns_server_tcp_recv`. -/
def TcpReader.received (c : TcpReader) : TcpReader :=
  { c with
    recvbuff := (dnsServerTcpRecv c.recvbuff c.socket).1
    socket := (dnsServerTcpRecv c.recvbuff c.socket).2.1 }

/-- The loop of `_dns_server_tcp_process_requests`. -/
def processRequestsLoop : (turns : Nat) → (isEof : Bool) → TcpReader → TcpReader × Int
  | 0, _, c => (c, 0)
  | turns + 1, isEof, c =>
    let recvRet := (dnsServerTcpRecv c.recvbuff c.socket).2.2
    let c := c.received
    if recvRet = recvErrorClose then (c, recvErrorClose)
    else if recvRet < 0 ∧ c.recvbuff.bytes = [] then (c, recvErrorFail)
    else
      let isEof := isEof || decide (recvRet < 0)
      let r := dnsServerTcpProcessOneRequest dnsServerRecv c
      if r.2 < 0 then (r.1, recvErrorFail)
      else if r.2 = recvErrorAgain ∧ isEof = true then (r.1, recvErrorFail)
      else if recvRet = recvErrorAgain ∧ r.2 = recvErrorAgain then (r.1, 0)
      else processRequestsLoop turns isEof r.1

def dnsServerTcpProcessRequests (c : TcpReader) : TcpReader × Int :=
  processRequestsLoop dnsServerRecv 32 false c

/-- `_dns_server_process_tcp` on a readable socket: a failed call closes the
connection. -/
def dnsServerProcessReadable (c : TcpReader) : TcpReader :=
  if c.closed then c
  else
    let r := dnsServerTcpProcessRequests dnsServerRecv c
    if r.2 ≠ 0 then { r.1 with closed := true } else r.1

def readable (n : Nat) (socket : List RecvAnswer) : TcpReader :=
  (dnsServerProcessReadable dnsServerRecv)^[n] { socket }

def tapeBytes : List RecvAnswer → Bytes
  | [] => []
  | .data bytes :: socket => bytes ++ tapeBytes socket
  | .again :: socket => tapeBytes socket
  | .connReset :: socket => tapeBytes socket
  | .timedOut :: socket => tapeBytes socket
  | .failed :: socket => tapeBytes socket

/-- The front of the buffer announces a request that the buffer cannot hold, but
not one that is refused. -/
def TcpReader.stuck (c : TcpReader) : Prop :=
  c.recvbuff.full ∧ announced c.recvbuff.bytes = dnsConnBuffSize - 1

/-! ## Receiving -/

theorem RecvBuffer.append_whole {b : RecvBuffer} {data : Bytes} (h : data.length ≤ b.room) :
    (b.append data).bytes = b.bytes ++ data :=
  congrArg (b.bytes ++ ·) (take_of_length_le h)

theorem dnsServerTcpRecv_bytes (b : RecvBuffer) (socket : List RecvAnswer) :
    (dnsServerTcpRecv b socket).1.bytes ++ tapeBytes (dnsServerTcpRecv b socket).2.1 =
      b.bytes ++ tapeBytes socket := by
  induction socket generalizing b with
  | nil =>
    rw [dnsServerTcpRecv]
    split
    · rfl
    · rfl
  | cons answer socket ih =>
  rw [dnsServerTcpRecv.eq_def]
  dsimp only
  split
  · rfl
  · cases answer with
    | again => rfl
    | connReset => rfl
    | timedOut => rfl
    | failed => rfl
    | data bytes =>
      dsimp only
      split
      next hnil => rw [hnil, tapeBytes, nil_append]
      split
      next hfits => rw [ih, append_whole hfits, tapeBytes, append_assoc]
      · rw [append, tapeBytes, tapeBytes, append_assoc,
          ← append_assoc (bytes.take b.room), take_append_drop]

theorem dnsServerTcpRecv_full {b : RecvBuffer} (h : b.full) (socket : List RecvAnswer) :
    dnsServerTcpRecv b socket = (b, socket, 0) := by
  cases socket with
  | nil => rw [dnsServerTcpRecv, if_pos h]
  | cons answer socket => exact if_pos h

/-! ## One pass over the buffer -/

/-- The front of the buffer is not a whole request. -/
def Waiting (bytes : Bytes) : Prop :=
  bytes.length ≤ 2 ∨ (bytes.length - 2 < announced bytes ∧ announced bytes < dnsConnBuffSize)

/-- What a pass makes of the bytes in front of it: it hands over whole requests
and stops in front of one that is not whole, or it fails. -/
def Passes (rest : Bytes) (handed : List Bytes) (p : Nat) (r : Nat × List Bytes × Int) : Prop :=
  ∃ done, r.2.1 = handed ++ done ∧
    ((r.2.2 = recvErrorAgain ∧ r.1 = p + (frames done).length ∧
        rest = frames done ++ rest.drop (frames done).length ∧
        Waiting (rest.drop (frames done).length)) ∨
      (r.2.2 < 0 ∧ frames done <+: rest))

theorem recvErrorFail_neg : recvErrorFail < 0 := by decide

theorem RecvReturn.code_neg {ret : RecvReturn} (h : ret.code ≠ 0) : ret.code < 0 := by
  cases ret with
  | ok => exact absurd rfl h
  | fail => decide
  | invalidPacket => decide

theorem requestLoop_passes (buf : Bytes) (turns p : Nat) (handed : List Bytes)
    (hturns : (buf.drop p).length < turns) :
    Passes (buf.drop p) handed p (requestLoop dnsServerRecv buf turns p handed) := by
  induction turns generalizing p handed with
  | zero => omega
  | succ turns ih =>
  rw [requestLoop]
  dsimp only
  split
  next hshort => exact ⟨[], by simp, .inl ⟨rfl, by simp, by simp, .inl (by simpa using hshort)⟩⟩
  next hlong =>
  split
  · exact ⟨[], by simp, .inr ⟨recvErrorFail_neg, nil_prefix⟩⟩
  next hvalid =>
  split
  next hwait =>
    refine ⟨[], by simp, .inl ⟨rfl, by simp, by simp, .inr ?_⟩⟩
    exact ⟨hwait, Nat.lt_of_not_le hvalid⟩
  next hwhole =>
  have hsplit := @eq_frame_append (buf.drop p) (by omega) (by omega)
  have hlen : (frame (((buf.drop p).drop 2).take (announced (buf.drop p)))).length =
      2 + announced (buf.drop p) := by
    rw [length_frame, length_take, length_drop, Nat.min_eq_left (by omega)]
    omega
  generalize hrequest : ((buf.drop p).drop 2).take (announced (buf.drop p)) = request
    at hsplit hlen ⊢
  split
  next hret =>
    refine ⟨[request], rfl, .inr ⟨RecvReturn.code_neg hret, ?_⟩⟩
    rw [frames_cons, frames_nil, append_nil]
    exact ⟨_, hsplit.symm⟩
  rw [drop_drop] at hsplit
  have hshorter : (buf.drop (p + (2 + announced (buf.drop p)))).length < turns := by
    rw [length_drop] at hturns hlong ⊢
    omega
  obtain ⟨done, hhanded, h⟩ :=
    ih (p + (2 + announced (buf.drop p))) (handed ++ [request]) hshorter
  refine ⟨request :: done, ?_, ?_⟩
  · rw [hhanded, append_assoc, singleton_append]
  have hframes : frames (request :: done) = frame request ++ frames done :=
    frames_cons request done
  have hdrop : (buf.drop p).drop (frames (request :: done)).length =
      (buf.drop (p + (2 + announced (buf.drop p)))).drop (frames done).length := by
    rw [drop_drop, drop_drop, hframes, length_append, hlen, Nat.add_assoc p]
  rcases h with ⟨hagain, hp, hrest, hwait⟩ | ⟨hneg, hfront⟩
  · refine .inl ⟨hagain, ?_, ?_, ?_⟩
    · rw [hp, hframes, length_append, hlen]
      omega
    · rw [hdrop, hframes, append_assoc, ← hrest]
      exact hsplit
    · rw [hdrop]
      exact hwait
  · refine .inr ⟨hneg, ?_⟩
    rw [hframes, hsplit]
    exact (prefix_append_right_inj _).mpr hfront

/-! ## One call -/

/-- The bytes that have arrived so far are the requests that were handed over,
what is buffered and what the socket still has. -/
structure Accounts (stream : Bytes) (c : TcpReader) : Prop where
  bytes : stream = frames c.handed ++ (c.recvbuff.bytes ++ tapeBytes c.socket)
  proceeded : c.proceeded = (frames c.handed).length

theorem Accounts.recv (h : Accounts stream c) : Accounts stream c.received := by
  refine ⟨?_, h.proceeded⟩
  simp only [TcpReader.received]
  rw [dnsServerTcpRecv_bytes]
  exact h.bytes

/-- A pass over the buffer keeps the account, or it fails with nothing handed
over that does not stand at the front of the stream. -/
theorem dnsServerTcpProcessOneRequest_accounts (h : Accounts stream c) :
    ((dnsServerTcpProcessOneRequest dnsServerRecv c).2 = recvErrorAgain ∧
        Accounts stream (dnsServerTcpProcessOneRequest dnsServerRecv c).1 ∧
        Waiting (dnsServerTcpProcessOneRequest dnsServerRecv c).1.recvbuff.bytes) ∨
      ((dnsServerTcpProcessOneRequest dnsServerRecv c).2 < 0 ∧
        frames (dnsServerTcpProcessOneRequest dnsServerRecv c).1.handed <+: stream) := by
  obtain ⟨done, hhanded, hpass⟩ := requestLoop_passes dnsServerRecv c.recvbuff.bytes
    (c.recvbuff.bytes.length + 1) 0 c.handed (Nat.lt_succ_self _)
  rw [dnsServerTcpProcessOneRequest]
  rw [drop_zero] at hpass
  rcases hpass with ⟨hagain, hp, hrest, hwait⟩ | ⟨hneg, hfront⟩
  · rw [Nat.zero_add] at hp
    rw [if_pos hagain]
    refine .inl ⟨hagain, ⟨?_, ?_⟩, ?_⟩
    · simp only [RecvBuffer.drop]
      rw [hhanded, hp, frames_append, append_assoc, ← append_assoc (frames done), ← hrest]
      exact h.bytes
    · simp only
      rw [hhanded, hp, frames_append, length_append, h.proceeded]
    · simp only [RecvBuffer.drop]
      rw [hp]
      exact hwait
  · have hne : (requestLoop dnsServerRecv c.recvbuff.bytes (c.recvbuff.bytes.length + 1) 0
        c.handed).2.2 ≠ recvErrorAgain := by
      intro heq
      rw [heq] at hneg
      exact absurd hneg (by decide)
    rw [if_neg hne]
    refine .inr ⟨hneg, ?_⟩
    simp only
    rw [hhanded, frames_append, h.bytes]
    exact (prefix_append_right_inj _).mpr (hfront.trans (prefix_append _ _))

/-- The requests that a call hands over stand at the front of the stream, and
after a call that succeeds every whole one has been handed over. -/
structure HandsExactly (stream : Bytes) (r : TcpReader × Int) : Prop where
  front : frames r.1.handed <+: stream
  account : r.2 = 0 → Accounts stream r.1
  waiting : r.2 = 0 → Waiting r.1.recvbuff.bytes

theorem HandsExactly.failed {ret : Int} (hfront : frames c.handed <+: stream) (hret : ret < 0) :
    HandsExactly stream (c, ret) :=
  ⟨hfront, fun h => absurd h hret.ne, fun h => absurd h hret.ne⟩

theorem processRequestsLoop_handsExactly (turns : Nat) (isEof : Bool) (h : Accounts stream c)
    (hwait : turns = 0 → Waiting c.recvbuff.bytes) :
    HandsExactly stream (processRequestsLoop dnsServerRecv turns isEof c) := by
  induction turns generalizing isEof c with
  | zero => exact ⟨⟨_, h.bytes.symm⟩, fun _ => h, fun _ => hwait rfl⟩
  | succ turns ih =>
  have hrecv := h.recv
  rw [processRequestsLoop]
  dsimp only
  have hfront : frames c.received.handed <+: stream := ⟨_, hrecv.bytes.symm⟩
  split
  · exact HandsExactly.failed hfront (by decide)
  split
  · exact HandsExactly.failed hfront recvErrorFail_neg
  rcases dnsServerTcpProcessOneRequest_accounts dnsServerRecv hrecv with
    ⟨hagain, haccounts, hwaiting⟩ | ⟨hneg, hfront⟩
  · have hpos : ¬ recvErrorAgain < 0 := by decide
    have hdone : frames (dnsServerTcpProcessOneRequest dnsServerRecv c.received).1.handed <+:
        stream := ⟨_, haccounts.bytes.symm⟩
    rw [hagain, if_neg hpos]
    split
    · exact HandsExactly.failed hdone recvErrorFail_neg
    split
    · exact ⟨hdone, fun _ => haccounts, fun _ => hwaiting⟩
    · exact ih _ haccounts (fun _ => hwaiting)
  · rw [if_pos hneg]
    exact HandsExactly.failed hfront recvErrorFail_neg

/-! ## Progress -/

theorem dnsServerTcpProcessOneRequest_proceeded (c : TcpReader) :
    c.proceeded ≤ (dnsServerTcpProcessOneRequest dnsServerRecv c).1.proceeded := by
  rw [dnsServerTcpProcessOneRequest]
  split
  · exact Nat.le_add_right _ _
  · exact Nat.le_refl _

theorem processRequestsLoop_proceeded (turns : Nat) (isEof : Bool) (c : TcpReader) :
    c.proceeded ≤ (processRequestsLoop dnsServerRecv turns isEof c).1.proceeded := by
  induction turns generalizing isEof c with
  | zero => exact Nat.le_refl _
  | succ turns ih =>
  rw [processRequestsLoop]
  dsimp only
  have hsame : c.received.proceeded = c.proceeded := rfl
  have hone := dnsServerTcpProcessOneRequest_proceeded dnsServerRecv c.received
  split
  · exact hsame.ge
  split
  · exact hsame.ge
  split
  · exact hsame.ge.trans hone
  split
  · exact hsame.ge.trans hone
  split
  · exact hsame.ge.trans hone
  · exact (hsame.ge.trans hone).trans (ih _ _)

/-- A pass over a full buffer fails or takes a request out of it, unless the
request at its front cannot be held. -/
theorem dnsServerTcpProcessOneRequest_progress (hfull : c.recvbuff.full) (hfree : ¬ c.stuck) :
    (dnsServerTcpProcessOneRequest dnsServerRecv c).2 < 0 ∨
      c.proceeded < (dnsServerTcpProcessOneRequest dnsServerRecv c).1.proceeded := by
  obtain ⟨done, hhanded, hpass⟩ := requestLoop_passes dnsServerRecv c.recvbuff.bytes
    (c.recvbuff.bytes.length + 1) 0 c.handed (Nat.lt_succ_self _)
  rw [dnsServerTcpProcessOneRequest]
  rw [drop_zero] at hpass
  rcases hpass with ⟨hagain, hp, hrest, hwait⟩ | ⟨hneg, hfront⟩
  · right
    rw [if_pos hagain]
    simp only
    rw [hp, Nat.zero_add]
    cases done with
    | nil =>
      rw [frames_nil, length_nil, drop_zero] at hwait
      exfalso
      apply hfree
      refine ⟨hfull, ?_⟩
      rw [full, dnsConnBuffSize] at hfull
      rw [Waiting, dnsConnBuffSize] at hwait
      rw [dnsConnBuffSize]
      omega
    | cons request done =>
      rw [frames_cons, length_append, length_frame]
      omega
  · left
    split
    · exact hneg
    · exact hneg

theorem dnsServerTcpProcessOneRequest_stuck (h : c.stuck) :
    dnsServerTcpProcessOneRequest dnsServerRecv c = (c, recvErrorAgain) := by
  obtain ⟨hfull, hannounced⟩ := h
  rw [full, dnsConnBuffSize] at hfull
  have hloop : requestLoop dnsServerRecv c.recvbuff.bytes (c.recvbuff.bytes.length + 1) 0 c.handed =
      (0, c.handed, recvErrorAgain) := by
    rw [requestLoop]
    simp only [drop_zero, hannounced, hfull, dnsConnBuffSize]
    rfl
  rw [dnsServerTcpProcessOneRequest, hloop]
  rfl

/-- A stuck connection stays as it is, and the call reports success. -/
theorem processRequestsLoop_stuck (h : c.stuck) (turns : Nat) :
    processRequestsLoop dnsServerRecv turns false c = (c, 0) := by
  induction turns with
  | zero => rfl
  | succ turns ih =>
    have hsame : c.received = c := by rw [TcpReader.received, dnsServerTcpRecv_full h.1]
    rw [processRequestsLoop, dnsServerTcpRecv_full h.1, hsame,
      dnsServerTcpProcessOneRequest_stuck _ h]
    exact ih

/-- A call on a full buffer that is not stuck fails or takes a request out of it. -/
theorem processRequestsLoop_progress
    (hfull : c.recvbuff.full) (hfree : ¬ c.stuck) (turns : Nat) (isEof : Bool) :
    (processRequestsLoop dnsServerRecv (turns + 1) isEof c).2 ≠ 0 ∨
      c.proceeded < (processRequestsLoop dnsServerRecv (turns + 1) isEof c).1.proceeded := by
  have hsame : c.received = c := by rw [TcpReader.received, dnsServerTcpRecv_full hfull]
  have hzero : ¬ (0 : Int) < 0 := by decide
  rw [processRequestsLoop, dnsServerTcpRecv_full hfull, hsame]
  dsimp only
  rw [if_neg (by decide), if_neg (fun h => hzero h.1)]
  rcases dnsServerTcpProcessOneRequest_progress dnsServerRecv hfull hfree with hneg | hmore
  · rw [if_pos hneg]
    exact .inl recvErrorFail_neg.ne
  split
  · exact .inl recvErrorFail_neg.ne
  split
  · exact .inl recvErrorFail_neg.ne
  split
  · exact .inr hmore
  · exact .inr (Nat.lt_of_lt_of_le hmore (processRequestsLoop_proceeded ..))

theorem readable_succ (n : Nat) (socket : List RecvAnswer) :
    readable dnsServerRecv (n + 1) socket =
      dnsServerProcessReadable dnsServerRecv (readable dnsServerRecv n socket) :=
  Function.iterate_succ_apply' _ _ _

theorem dnsServerProcessReadable_open (hopen : c.closed = false) :
    dnsServerProcessReadable dnsServerRecv c =
      if (dnsServerTcpProcessRequests dnsServerRecv c).2 ≠ 0 then
        { (dnsServerTcpProcessRequests dnsServerRecv c).1 with closed := true }
      else (dnsServerTcpProcessRequests dnsServerRecv c).1 := by
  rw [dnsServerProcessReadable, hopen, if_neg Bool.false_ne_true]

theorem dnsServerProcessReadable_handsExactly (hopen : c.closed = false) (h : Accounts stream c) :
    frames (dnsServerProcessReadable dnsServerRecv c).handed <+: stream ∧
      ((dnsServerProcessReadable dnsServerRecv c).closed = false →
        Accounts stream (dnsServerProcessReadable dnsServerRecv c) ∧
          Waiting (dnsServerProcessReadable dnsServerRecv c).recvbuff.bytes) := by
  have hcall : HandsExactly stream (dnsServerTcpProcessRequests dnsServerRecv c) :=
    processRequestsLoop_handsExactly dnsServerRecv 32 false h (fun h0 => absurd h0 (by decide))
  rw [dnsServerProcessReadable_open _ hopen]
  split
  · exact ⟨hcall.front, fun h0 => absurd h0 (by simp)⟩
  next hok =>
  rw [not_not] at hok
  exact ⟨hcall.front, fun _ => ⟨hcall.account hok, hcall.waiting hok⟩⟩

theorem readable_accounts (socket : List RecvAnswer) (n : Nat)
    (hopen : (readable dnsServerRecv n socket).closed = false) :
    Accounts (tapeBytes socket) (readable dnsServerRecv n socket) := by
  induction n with
  | zero => exact ⟨rfl, rfl⟩
  | succ n ih =>
  rw [readable_succ] at hopen ⊢
  cases hbefore : (readable dnsServerRecv n socket).closed with
  | true =>
    rw [dnsServerProcessReadable, hbefore, if_pos rfl, hbefore] at hopen
    exact absurd hopen (by decide)
  | false =>
    exact ((dnsServerProcessReadable_handsExactly dnsServerRecv hbefore (ih hbefore)).2 hopen).1

/-- **A call that finds the buffer full makes progress or closes the connection,
and the requests that were handed over are those at the front of the stream,
exactly when the buffer does not announce a request of 4095 bytes.** -/
theorem requests_progress_iff (socket : List RecvAnswer) (n : Nat)
    (hopen : (readable dnsServerRecv n socket).closed = false) :
    ((readable dnsServerRecv n socket).recvbuff.full →
        (readable dnsServerRecv (n + 1) socket).closed = true ∨
          (readable dnsServerRecv n socket).proceeded <
            (readable dnsServerRecv (n + 1) socket).proceeded) ∧
      (frames (readable dnsServerRecv (n + 1) socket).handed <+: tapeBytes socket ∧
        ((readable dnsServerRecv (n + 1) socket).closed = false →
          Accounts (tapeBytes socket) (readable dnsServerRecv (n + 1) socket) ∧
            Waiting (readable dnsServerRecv (n + 1) socket).recvbuff.bytes)) ↔
    ¬ (readable dnsServerRecv n socket).stuck := by
  rw [readable_succ]
  have hexact := dnsServerProcessReadable_handsExactly dnsServerRecv hopen
    (readable_accounts dnsServerRecv socket n hopen)
  generalize readable dnsServerRecv n socket = c at *
  constructor
  · rintro ⟨hprogress, -⟩ hstuck
    have hcall : dnsServerTcpProcessRequests dnsServerRecv c = (c, 0) :=
      processRequestsLoop_stuck dnsServerRecv hstuck 32
    have hsame : dnsServerProcessReadable dnsServerRecv c = c := by
      rw [dnsServerProcessReadable_open _ hopen, hcall]
      rfl
    rw [hsame] at hprogress
    rcases hprogress hstuck.1 with hclosed | hless
    · rw [hopen] at hclosed
      exact absurd hclosed (by decide)
    · exact absurd hless (Nat.lt_irrefl _)
  · intro hfree
    refine ⟨fun hfull => ?_, hexact⟩
    rw [dnsServerProcessReadable_open _ hopen]
    rcases processRequestsLoop_progress dnsServerRecv hfull hfree 31 false with hfailed | hmore
    · rw [dnsServerTcpProcessRequests, if_pos hfailed]
      exact .inl rfl
    · right
      split
      · exact hmore
      · exact hmore

/-- A server that accepts every request. -/
def recvOk : Nat → Bytes → RecvReturn :=
  fun _ _ => .ok

/-- A request and the beginning of the next one. -/
def requestAndHalf : List RecvAnswer :=
  [.data [0, 1, 9, 0, 2, 5]]

theorem requests_progress_iff_requestAndHalf :
    let c := readable recvOk 2 requestAndHalf
    c.handed = [[9]] ∧ Accounts (tapeBytes requestAndHalf) c ∧ Waiting c.recvbuff.bytes := by
  have h := (requests_progress_iff recvOk requestAndHalf 1 (by decide)).mpr
    fun hstuck => absurd hstuck.2 (by decide)
  exact ⟨by decide, h.2.2 (by decide)⟩

/-- A buffer that announces a request of 4095 bytes is received and stays. -/
theorem readable_stuck {big : Bytes} (hlen : big.length = dnsConnBuffSize)
    (hannounced : announced big = dnsConnBuffSize - 1) (n : Nat) :
    readable dnsServerRecv (n + 1) [.data big] = { recvbuff := ⟨big, hlen.le⟩, socket := [] } := by
  have hfull : full ⟨big, hlen.le⟩ := hlen
  have hrecv : dnsServerTcpRecv .empty [.data big] = (⟨big, hlen.le⟩, [], 0) := by
    have happend : empty.append big = ⟨big, hlen.le⟩ := by
      rw [append, mk.injEq]
      exact take_of_length_le hlen.le
    have hne : big ≠ [] := ne_nil_of_length_pos (by rw [hlen]; decide)
    have hroom : big.length ≤ empty.room := hlen.le
    rw [dnsServerTcpRecv.eq_def]
    dsimp only
    rw [if_neg (by decide), if_neg hne, if_pos hroom, happend, dnsServerTcpRecv_full hfull]
  have hstuck : TcpReader.stuck { recvbuff := ⟨big, hlen.le⟩, socket := [] } := ⟨hfull, hannounced⟩
  induction n with
  | zero =>
    have hreceived : TcpReader.received { socket := [.data big] } =
        { recvbuff := ⟨big, hlen.le⟩, socket := [] } := by
      rw [TcpReader.received, hrecv]
    have hcall : dnsServerTcpProcessRequests dnsServerRecv { socket := [.data big] } =
        ({ recvbuff := ⟨big, hlen.le⟩, socket := [] }, 0) := by
      have hzero : ¬ (0 : Int) < 0 := by decide
      rw [dnsServerTcpProcessRequests, processRequestsLoop, hreceived, hrecv,
        dnsServerTcpProcessOneRequest_stuck _ hstuck]
      dsimp only
      exact processRequestsLoop_stuck dnsServerRecv hstuck 31
    have hstart : readable dnsServerRecv 0 [.data big] = { socket := [.data big] } := rfl
    rw [readable_succ, hstart, dnsServerProcessReadable_open _ rfl, hcall]
    rfl
  | succ n ih =>
    rw [readable_succ, ih, dnsServerProcessReadable_open _ rfl, dnsServerTcpProcessRequests,
      processRequestsLoop_stuck dnsServerRecv hstuck 32]
    rfl

/-- A request of 4095 bytes, as far as the buffer can hold it. -/
def oversized : Bytes :=
  lengthPrefix 4095 ++ List.replicate 4094 0

theorem length_oversized : oversized.length = dnsConnBuffSize := by
  rw [oversized, length_append, length_lengthPrefix, length_replicate]
  rfl

/--
A client that announces 4095 bytes: the second call finds the buffer full,
consumes nothing and does not close the connection.
-/
theorem oversized_stuck :
    (readable recvOk 1 [.data oversized]).recvbuff.full ∧
      (readable recvOk 2 [.data oversized]).proceeded = 0 ∧
      (readable recvOk 2 [.data oversized]).closed = false := by
  have hannounced : announced oversized = dnsConnBuffSize - 1 :=
    announced_lengthPrefix (by decide) _
  rw [readable_stuck recvOk length_oversized hannounced 0,
    readable_stuck recvOk length_oversized hannounced 1]
  exact ⟨length_oversized, rfl, rfl⟩

end SmartDns.Server
