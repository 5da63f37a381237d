import SmartDns.Client.TcpFrames
import SmartDns.Http3.Head

/-!
# Requests queued on an HTTPS connection

Queries that arrive before the protocol of an HTTPS connection is known are
queued as streams.  When the server has chosen HTTP/1.1, a writable event
flushes the send buffer and then formats and writes the queued requests
(`_dns_client_process_https_streams`).  A request whose write is cut short moves
to the send buffer, but it also stays in the queue.
-/

namespace SmartDns.Client

open List

open Http3 (decimal)

/-- What the transport answers to a write. -/
inductive WriteAnswer
  | wrote (n : Nat)
  | again
  | failed
deriving DecidableEq

def httpsRequest (path httphost : CStr) (packet : Bytes) : Bytes :=
  ascii "POST " ++ path.bytes ++ ascii " HTTP/1.1\r\n" ++
    ascii "Host: " ++ httphost.bytes ++ ascii "\r\n" ++
    ascii "User-Agent: smartdns\r\n" ++
    ascii "Content-Type: application/dns-message\r\n" ++
    ascii "Accept: application/dns-message\r\n" ++
    ascii "Content-Length: " ++ decimal packet.length ++ ascii "\r\n" ++
    ascii "\r\n" ++ packet

/-- How formatting a request ends. -/
inductive Formatted
  | packet (bytes : Bytes)
  | invalid
  /-- The message is copied over the end of the output buffer. -/
  | overrun

/-- `_dns_client_format_https_packet`.  It compares the message and the header
with the size of the output, but not the two together. -/
def dnsClientFormatHttpsPacket (path httphost : CStr) (packet : Bytes) (outpacketMax : Nat) :
    Formatted :=
  let http := httpsRequest path httphost packet
  if outpacketMax - 2 < packet.length then .invalid
  else if outpacketMax ≤ http.length - packet.length then .invalid
  else if outpacketMax < http.length then .overrun
  else .packet http

def dnsClientSendDataToBuffer (sendBuff packet : Bytes) : Option Bytes :=
  if dnsTcpBuffer - sendBuff.length < packet.length then none else some (sendBuff ++ packet)

inductive Status
  | opened
  | closed
  /-- The stack was overwritten. -/
  | crashed
deriving DecidableEq

/-- The sending side of `dns_server_info`. -/
structure HttpsServer where
  path : CStr
  httphost : CStr
  /-- `conn_stream_list`, with the `send_buff` of each stream. -/
  streams : List Bytes
  sendBuff : Bytes
  /-- What a repeated write has to offer again, or zero. -/
  sslWriteLen : Nat
  taken : Bytes
  status : Status
  retry : sslWriteLen ≤ sendBuff.length

/-- A writable event: `ssl_want_write` as the reads have left it, and the
answers to the write of the send buffer and to those of the requests. -/
structure Writable where
  wantWrite : Bool
  flush : WriteAnswer
  sends : List WriteAnswer

/-- The transport does not fail. -/
def Writable.NoHardError (e : Writable) : Prop :=
  e.flush ≠ .failed ∧ .failed ∉ e.sends

instance (e : Writable) : Decidable e.NoHardError :=
  inferInstanceAs (Decidable (_ ∧ _))

namespace HttpsServer

variable (s : HttpsServer)

/-- The error path of `_dns_client_process_tcp`, which also drops the streams. -/
def close (status : Status) : HttpsServer :=
  { s with streams := [], sendBuff := [], sslWriteLen := 0, status := status, retry := le_rfl }

/-- The loop of `_dns_client_process_https_streams`: what is written and
buffered, the streams that stay, and how the loop ends. -/
def processHttpsStreams : List Bytes → List WriteAnswer → Bytes × Bytes × List Bytes × Status
  | [], _ => ([], [], [], .opened)
  | stream :: streams, sends =>
    if stream = [] then
      let (written, buffered, rest, status) := processHttpsStreams streams sends
      (written, buffered, stream :: rest, status)
    else
      match dnsClientFormatHttpsPacket s.path s.httphost stream dnsInPacksize with
      | .invalid => ([], [], [], .closed)
      | .overrun => ([], [], [], .crashed)
      | .packet http =>
        match sends.headD .again with
        | .failed => ([], [], [], .closed)
        | .again =>
          match dnsClientSendDataToBuffer [] http with
          | none => ([], [], [], .closed)
          | some buffered => ([], buffered, stream :: streams, .opened)
        | .wrote n =>
          if n < http.length then
            match dnsClientSendDataToBuffer [] (http.drop n) with
            | none => (http.take n, [], [], .closed)
            | some buffered => (http.take n, buffered, stream :: streams, .opened)
          else
            let (written, buffered, rest, status) := processHttpsStreams streams sends.tail
            (http ++ written, buffered, rest, status)

/-- `_dns_client_process_https_streams`, on an empty send buffer. -/
def sendStreams (taken : Bytes) (sends : List WriteAnswer) : HttpsServer :=
  let (written, buffered, streams, status) := s.processHttpsStreams s.streams sends
  if status = .opened then
    { s with
      streams := streams, sendBuff := buffered, sslWriteLen := 0
      taken := taken ++ written, retry := Nat.zero_le _ }
  else { s.close status with taken := taken ++ written }

/-- How much `_dns_client_socket_send` offers to the transport. -/
def writeLen : Nat :=
  if 0 < s.sslWriteLen then s.sslWriteLen else s.sendBuff.length

theorem writeLen_le : s.writeLen ≤ s.sendBuff.length := by
  have hretry := s.retry
  unfold writeLen
  split <;> omega

/-- The writable half of `_dns_client_process_tcp`. -/
def processTcp (e : Writable) : HttpsServer :=
  if s.status ≠ .opened then s
  else if s.sendBuff = [] ∧ e.wantWrite = false then s.sendStreams s.taken e.sends
  else
    match e.flush with
    | .failed => s.close .closed
    | .again => { s with sslWriteLen := s.writeLen, retry := s.writeLen_le }
    | .wrote n =>
      let len := min n s.writeLen
      let taken := s.taken ++ s.sendBuff.take len
      if s.sendBuff.drop len = [] then s.sendStreams taken e.sends
      else
        { s with
          sendBuff := s.sendBuff.drop len, sslWriteLen := 0, taken := taken
          retry := Nat.zero_le _ }

/-! ## What is still to be sent -/

/-- The requests of a queue; a stream without data is passed over. -/
def requests (streams : List Bytes) : Bytes :=
  (streams.filter (· ≠ [])).flatMap (httpsRequest s.path s.httphost)

/-- The bytes that were handed out, or are still to be. -/
def bytes : Bytes :=
  s.taken ++ s.sendBuff ++ s.requests s.streams

/-- The bytes of the start of a run and each request of its queue are there once,
in their order: taken by the transport, in the send buffer, or still queued. -/
def SentOnce (start s : HttpsServer) : Prop :=
  s.status = .opened ∧ s.path = start.path ∧ s.httphost = start.httphost ∧ s.bytes = start.bytes

/-- Every request has room in the output buffer and is written whole. -/
def AllWritten : List Bytes → List WriteAnswer → Prop
  | [], _ => True
  | stream :: streams, sends =>
    if stream = [] then AllWritten streams sends
    else
      (httpsRequest s.path s.httphost stream).length ≤ dnsInPacksize ∧
        (∃ n, sends.headD .again = .wrote n ∧ (httpsRequest s.path s.httphost stream).length ≤ n) ∧
        AllWritten streams sends.tail

/-- The event gets behind the send buffer. -/
def Flushed (e : Writable) : Prop :=
  s.sendBuff = [] ∧ e.wantWrite = false ∨
    ∃ n, e.flush = .wrote n ∧ s.sendBuff.length ≤ min n s.writeLen

/-- The event does not touch the queue, or it empties it. -/
def WritesWhole (e : Writable) : Prop :=
  s.Flushed e → s.AllWritten s.streams e.sends

@[simp] theorem requests_cons {stream : Bytes} (h : stream ≠ []) (streams : List Bytes) :
    s.requests (stream :: streams) =
      httpsRequest s.path s.httphost stream ++ s.requests streams := by
  simp [requests, h]

@[simp] theorem requests_skip (streams : List Bytes) :
    s.requests ([] :: streams) = s.requests streams := by
  simp [requests]

theorem length_httpsRequest (path httphost : CStr) (packet : Bytes) :
    packet.length + 2 < (httpsRequest path httphost packet).length := by
  have hpost : (ascii "POST ").length = 5 := by decide
  simp only [httpsRequest, length_append, hpost]
  omega

theorem httpsRequest_ne_nil (path httphost : CStr) (packet : Bytes) :
    httpsRequest path httphost packet ≠ [] := by
  have hlong := length_httpsRequest path httphost packet
  exact ne_nil_of_length_pos (by omega)

theorem dnsClientSendDataToBuffer_eq {packet : Bytes} (h : packet.length ≤ dnsInPacksize) :
    dnsClientSendDataToBuffer [] packet = some packet := by
  have hsizes : dnsInPacksize ≤ dnsTcpBuffer := by decide
  rw [dnsClientSendDataToBuffer, if_neg (by simp only [length_nil]; omega), nil_append]

/-- **The loop.**  The requests come out once exactly when each of them is
written whole. -/
theorem processHttpsStreams_iff
    {streams : List Bytes} {sends : List WriteAnswer} {written buffered : Bytes}
    {rest : List Bytes} {status : Status}
    (heq : s.processHttpsStreams streams sends = (written, buffered, rest, status)) :
    status = .opened ∧ written ++ buffered ++ s.requests rest = s.requests streams ↔
      s.AllWritten streams sends := by
  induction streams generalizing sends written buffered rest status with
  | nil =>
    cases heq
    simp [AllWritten, requests]
  | cons stream streams ih =>
  rw [processHttpsStreams] at heq
  rw [AllWritten]
  by_cases hne : stream = []
  · rw [if_pos hne] at heq ⊢
    cases heq
    subst hne
    simpa using ih rfl
  rw [if_neg hne] at heq ⊢
  by_cases hfits : (httpsRequest s.path s.httphost stream).length ≤ dnsInPacksize
  · have hlong := length_httpsRequest s.path s.httphost stream
    have hpos := length_pos_iff.mpr hne
    rw [dnsClientFormatHttpsPacket, if_neg (by omega), if_neg (by omega), if_neg (by omega)] at heq
    have hdrop : ∀ n, dnsClientSendDataToBuffer []
        ((httpsRequest s.path s.httphost stream).drop n) =
          some ((httpsRequest s.path s.httphost stream).drop n) := by
      intro n
      refine dnsClientSendDataToBuffer_eq (le_trans ?_ hfits)
      rw [length_drop]
      omega
    -- the answer to the write of this request decides
    cases hanswer : sends.headD .again with
    | failed =>
      simp only [hanswer] at heq
      cases heq
      simp
    | again =>
      simp only [hanswer, dnsClientSendDataToBuffer_eq hfits] at heq
      cases heq
      -- the request is in the buffer and in the queue
      simp [httpsRequest_ne_nil]
    | wrote n =>
      simp only [hanswer] at heq
      split_ifs at heq with hshort
      · rw [hdrop n] at heq
        cases heq
        rw [take_append_drop]
        simp [httpsRequest_ne_nil, Nat.not_le.mpr hshort]
      · cases heq
        have hfull := Nat.le_of_not_lt hshort
        simp only [requests_cons s hne, append_assoc, append_cancel_left_eq]
        rw [← append_assoc, ih rfl]
        simp [hfits, hfull]
  · have hstatus : status ≠ .opened := by
      split at heq
      · cases heq
        nofun
      · cases heq
        nofun
      next http hformat =>
        simp only [dnsClientFormatHttpsPacket] at hformat
        split_ifs at hformat with _ _ hle
        exact absurd (Nat.le_of_not_lt hle) hfits
    simp [hstatus, hfits]

theorem sendStreams_sentOnce {taken : Bytes} {sends : List WriteAnswer} {start : HttpsServer}
    (hpath : s.path = start.path) (hhost : s.httphost = start.httphost) (hopen : s.status = .opened)
    (hbytes : taken ++ s.requests s.streams = start.bytes) :
    SentOnce start (s.sendStreams taken sends) ↔ s.AllWritten s.streams sends := by
  rw [sendStreams]
  obtain ⟨written, buffered, rest, status, heq⟩ :
      ∃ w b r st, s.processHttpsStreams s.streams sends = (w, b, r, st) := ⟨_, _, _, _, rfl⟩
  rw [← s.processHttpsStreams_iff heq]
  simp only [heq]
  by_cases hstatus : status = .opened
  · simp only [SentOnce, bytes, hopen, hstatus, true_and]
    rw [bytes] at hbytes
    rw [← hbytes]
    simp [hpath, hhost, requests]
  · simp [SentOnce, close, hstatus]

/-- **One event.** -/
theorem processTcp_sentOnce
    {start s : HttpsServer} {e : Writable} (h : SentOnce start s) (he : e.NoHardError) :
    SentOnce start (s.processTcp e) ↔ s.WritesWhole e := by
  obtain ⟨hopen, hpath, hhost, hbytes⟩ := h
  rw [processTcp, if_neg (not_not_intro hopen), WritesWhole, Flushed]
  by_cases hempty : s.sendBuff = [] ∧ e.wantWrite = false
  · rw [if_pos hempty, s.sendStreams_sentOnce hpath hhost hopen]
    · simp [hempty]
    · rw [← hbytes, bytes, hempty.1, append_nil]
  rw [if_neg hempty]
  cases hflush : e.flush with
  | failed => exact absurd hflush he.1
  | again =>
    simp only [hempty, false_or]
    refine iff_of_true ⟨hopen, hpath, hhost, hbytes⟩ ?_
    rintro ⟨n, hn, -⟩
    cases hn
  | wrote n =>
  simp only [hempty, false_or, WriteAnswer.wrote.injEq, exists_eq_left']
  by_cases hall : s.sendBuff.length ≤ min n s.writeLen
  · rw [if_pos (drop_eq_nil_of_le hall), s.sendStreams_sentOnce hpath hhost hopen]
    · simp [hall]
    · rw [take_of_length_le hall]
      exact hbytes
  · rw [if_neg (by rw [drop_eq_nil_iff]; exact hall)]
    refine iff_of_true ⟨hopen, hpath, hhost, ?_⟩ (fun h => absurd h hall)
    rw [← hbytes]
    simp only [bytes, append_assoc, append_cancel_left_eq]
    rw [← append_assoc, take_append_drop]
    rfl

/-- **Queued requests are sent once.** -/
theorem requests_sent_once_iff
    {s : HttpsServer} (hopen : s.status = .opened) {events : List Writable}
    (hevents : ∀ e ∈ events, e.NoHardError) :
    (∀ seen, seen <+: events → SentOnce s (run processTcp s seen)) ↔
      Admissible processTcp WritesWhole s events := by
  exact holds_throughout_iff processTcp (fun _ _ h he => processTcp_sentOnce h he)
    ⟨hopen, rfl, rfl, rfl⟩ hevents

/-- A connection with one queued request. -/
def oneQueued : HttpsServer where
  path := CStr.ofString "/dns-query"
  httphost := CStr.ofString "dns"
  streams := [[1, 2, 3]]
  sendBuff := []
  sslWriteLen := 0
  taken := []
  status := .opened
  retry := le_rfl

/-- The transport takes whatever it is given. -/
def takesAll : Writable where
  wantWrite := false
  flush := .wrote 4096
  sends := [.wrote 4096, .wrote 4096]

/-- The transport takes nothing for now. -/
def blocked : Writable where
  wantWrite := false
  flush := .again
  sends := [.again]

/-- Two requests behind a send buffer that takes two events to flush. -/
def twoQueued : HttpsServer :=
  { oneQueued with streams := [[1, 2, 3], [4]], sendBuff := [7, 8], retry := Nat.zero_le _ }

def takesOne : Writable :=
  { blocked with flush := .wrote 1 }

theorem requests_sent_once_iff_partialFlush :
    SentOnce twoQueued (run processTcp twoQueued [takesOne, takesAll]) := by
  have hok : Admissible processTcp WritesWhole twoQueued [takesOne, takesAll] := by
    refine ⟨fun h => absurd h (by simp [Flushed, twoQueued, takesOne]), fun _ => ?_, trivial⟩
    exact ⟨by decide +kernel, ⟨4096, rfl, by decide +kernel⟩,
      by decide +kernel, ⟨4096, rfl, by decide +kernel⟩, trivial⟩
  exact (requests_sent_once_iff rfl (by decide)).mpr hok _ prefix_rfl

/-- The write of the only request would block, and the next event writes it
twice. -/
theorem request_sent_twice :
    (run processTcp oneQueued [blocked, takesAll]).taken =
        httpsRequest oneQueued.path oneQueued.httphost [1, 2, 3] ++
          httpsRequest oneQueued.path oneQueued.httphost [1, 2, 3] ∧
      ¬ SentOnce oneQueued (run processTcp oneQueued [blocked, takesAll]) := by
  refine ⟨by decide +kernel, ?_⟩
  rintro ⟨-, -, -, hbytes⟩
  exact absurd (congrArg List.length hbytes) (by decide +kernel)

end HttpsServer

end SmartDns.Client
