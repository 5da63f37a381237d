import SmartDns.Client.TcpFrames

/-!
# Messages on a QUIC stream

`_dns_client_process_quic_stream_read` collects a length-prefixed message in the
buffer of a stream.  When the message is complete, the handler is given all the
bytes that are buffered behind the length, not as many as the length announces.
-/

namespace SmartDns.Client

open Framing List

/-- What a receive call returns. -/
inductive QuicRecv
  | data (bytes : Bytes)
  | again
  | eof
  | failed

/-- `struct dns_conn_stream` with its query attached, the messages that the
handler was given, and whether the stream was taken off the list of its server. -/
structure QuicStream where
  recvBuff : Bytes := []
  recvDone : Bool := false
  handled : List Bytes := []
  dropped : Bool := false

/-- The id of the query is written over the one of a message. -/
def withId (sid : Nat) (message : Bytes) : Bytes :=
  (lengthPrefix sid ++ message.drop 2).take message.length

section Stream

variable (dnsClientRecv : Bytes → Int) (sid : Nat)

/-- `_dns_client_process_quic_stream_read` behind a receive call of a DNS over
QUIC server.  The loop goes on to the next call, and a `stream_ret` above zero
leaves that call to the next poll. -/
def quicReceived (s : QuicStream) : QuicStream :=
  if s.recvBuff.length < 2 then s
  else
    let msgLen := announced s.recvBuff
    if msgLen = 0 ∨ dnsInPacksize ≤ msgLen then s
    else if s.recvBuff.length - 2 < msgLen then s
    else
      let packet := withId sid (s.recvBuff.drop 2)
      { s with
        recvBuff := s.recvBuff.take 2 ++ packet
        handled := s.handled ++ [packet]
        dropped := dnsClientRecv packet = 0 }

/-- A turn of the loop, for a stream that is still on the list. -/
def quicTurn (s : QuicStream) (recv : QuicRecv) : QuicStream :=
  if s.dropped then s
  else if dnsTcpBuffer ≤ s.recvBuff.length then { s with dropped := true }
  else
    match recv with
    | .data bytes => quicReceived dnsClientRecv sid { s with recvBuff := s.recvBuff ++ bytes }
    | .eof => { s with recvDone := true, dropped := true }
    | .again | .failed => s

/-- The receive results deliver a content, which the peer may then end. -/
inductive QuicCut : List QuicRecv → Bytes → Prop
  | nil : QuicCut [] []
  | eof : QuicCut [.eof] []
  | again {recvs : List QuicRecv} {content : Bytes} :
      QuicCut recvs content → QuicCut (.again :: recvs) content
  | data {recvs : List QuicRecv} {content chunk : Bytes} :
      chunk ≠ [] → QuicCut recvs content → QuicCut (.data chunk :: recvs) (chunk ++ content)

def delivered : List QuicRecv → Bytes
  | [] => []
  | .data bytes :: recvs => bytes ++ delivered recvs
  | _ :: recvs => delivered recvs

@[simp] theorem length_withId (message : Bytes) : (withId sid message).length = message.length := by
  simp only [withId, length_take, length_append, length_lengthPrefix, length_drop]
  omega

variable {dnsClientRecv sid}
variable {s : QuicStream} {message tail content : Bytes} {recvs : List QuicRecv}

theorem run_dropped (h : s.dropped = true) : run (quicTurn dnsClientRecv sid) s recvs = s := by
  induction recvs with
  | nil => rfl
  | cons recv recvs ih =>
    have hturn : quicTurn dnsClientRecv sid s recv = s := if_pos h
    rw [run_cons, hturn, ih]

theorem quicTurn_handled (s : QuicStream) (recv : QuicRecv) :
    s.handled <+: (quicTurn dnsClientRecv sid s recv).handled := by
  unfold quicTurn quicReceived
  dsimp only
  repeat' split
  all_goals first
    | exact prefix_rfl
    | exact prefix_append _ _

theorem run_handled (s : QuicStream) (recvs : List QuicRecv) :
    s.handled <+: (run (quicTurn dnsClientRecv sid) s recvs).handled := by
  induction recvs generalizing s with
  | nil => exact prefix_rfl
  | cons recv recvs ih => exact (quicTurn_handled s recv).trans (ih _)

theorem quicReceived_incomplete (hmessage : message.length ≤ 4095)
    (hinit : s.recvBuff <+: frame message ++ tail)
    (hpart : s.recvBuff.length < message.length + 2) :
    quicReceived dnsClientRecv sid s = s := by
  unfold quicReceived
  split
  · rfl
  next htwo =>
  have hlen : announced s.recvBuff = message.length := by
    obtain ⟨rest, hrest⟩ := hinit
    rw [← announced_frame (by omega) tail, ← hrest, announced, announced]
    rcases hbuff : s.recvBuff with _ | ⟨a, _ | ⟨b, more⟩⟩
    · simp [hbuff] at htwo
    · simp [hbuff] at htwo
    · rfl
  dsimp only
  split
  · rfl
  · rw [if_pos (by omega)]

/-- A complete message is given to the handler with all that follows it. -/
theorem quicReceived_complete {after : Bytes} (hmin : 1 ≤ message.length)
    (hmessage : message.length ≤ 4095) (hbuff : s.recvBuff = frame message ++ after)
    (hnone : s.handled = []) :
    (quicReceived dnsClientRecv sid s).handled = [withId sid (message ++ after)] ∧
      (quicReceived dnsClientRecv sid s).dropped =
        decide (dnsClientRecv (withId sid (message ++ after)) = 0) := by
  have hdrop : s.recvBuff.drop 2 = message ++ after := by
    rw [hbuff, frame, append_assoc]
    rfl
  have hlen : s.recvBuff.length = message.length + 2 + after.length := by
    rw [hbuff, length_append, length_frame]
  have hannounced : announced s.recvBuff = message.length := by
    rw [hbuff, announced_frame (by omega)]
  rw [quicReceived, if_neg (by omega)]
  rw [hannounced, if_neg (by simp only [dnsInPacksize]; omega), if_neg (by omega), hdrop, hnone]
  exact ⟨rfl, rfl⟩

theorem exists_prefix_cons {b : Bytes} {recv : QuicRecv} {whole : Bytes}
    (hlen : b.length < whole.length) :
    (∃ seen, seen <+: recv :: recvs ∧ b ++ delivered seen = whole) ↔
      ∃ seen, seen <+: recvs ∧ b ++ delivered (recv :: seen) = whole := by
  constructor
  · rintro ⟨seen, hseen, heq⟩
    cases seen with
    | nil =>
      rw [delivered, append_nil] at heq
      exact absurd (congrArg List.length heq) hlen.ne
    | cons r seen =>
      obtain ⟨rfl, htail⟩ := cons_prefix_cons.mp hseen
      exact ⟨seen, htail, heq⟩
  · rintro ⟨seen, hseen, heq⟩
    exact ⟨recv :: seen, cons_prefix_cons.mpr ⟨rfl, hseen⟩, heq⟩

/-- The run from a stream that waits for the rest of its message. -/
theorem run_waiting_iff (hmin : 12 ≤ message.length) (hmessage : message.length ≤ 4095)
    (haccepts : dnsClientRecv (withId sid message) = 0) (hcut : QuicCut recvs content)
    (hnew : s.dropped = false ∧ s.handled = []) (hpart : s.recvBuff.length < (frame message).length)
    (hcontent : s.recvBuff ++ content = frame message ++ tail)
    (hfits : (s.recvBuff ++ content).length ≤ dnsTcpBuffer) :
    (run (quicTurn dnsClientRecv sid) s recvs).handled = [withId sid message] ↔
      ∃ seen, seen <+: recvs ∧ s.recvBuff ++ delivered seen = frame message := by
  have hroom : ¬dnsTcpBuffer ≤ s.recvBuff.length := by
    have hwhole := congrArg List.length hcontent
    rw [length_frame] at hpart
    simp only [dnsTcpBuffer]
    omega
  induction hcut generalizing s with
  | nil | eof =>
    have hwhole := congrArg List.length hcontent
    simp only [length_append, length_nil] at hwhole
    omega
  | again _ ih =>
    rw [exists_prefix_cons hpart, run_cons, quicTurn, if_neg (by simp [hnew.1]), if_neg hroom]
    exact ih hnew hpart hcontent hfits hroom
  | @data recvs content chunk hchunk _ ih =>
  rw [exists_prefix_cons hpart, run_cons, quicTurn, if_neg (by simp [hnew.1]), if_neg hroom]
  simp only [delivered, ← append_assoc] at hcontent hfits ⊢
  have hinit : s.recvBuff ++ chunk <+: frame message ++ tail := ⟨content, hcontent⟩
  by_cases hmore : (s.recvBuff ++ chunk).length < (frame message).length
  · rw [quicReceived_incomplete hmessage hinit (by rwa [length_frame] at hmore)]
    refine ih hnew hmore hcontent hfits ?_
    rw [length_frame] at hmore
    simp only [dnsTcpBuffer]
    omega
  -- the message is complete: what else is in the buffer goes along with it
  obtain ⟨after, hafter⟩ := prefix_of_prefix_length_le ⟨tail, rfl⟩ hinit (not_lt.mp hmore)
  obtain ⟨hhandled, hdropped⟩ := @quicReceived_complete dnsClientRecv sid
    { s with recvBuff := s.recvBuff ++ chunk } message after
      (by omega) hmessage hafter.symm hnew.2
  cases after with
  | nil =>
    rw [append_nil] at hafter hhandled hdropped
    rw [run_dropped (by rw [hdropped, haccepts, decide_eq_true rfl]), hhandled]
    refine ⟨fun _ => ⟨[], nil_prefix, ?_⟩, fun _ => rfl⟩
    rw [delivered, append_nil, hafter]
  | cons b after =>
  constructor
  · intro hexact
    obtain ⟨later, hlater⟩ := @run_handled dnsClientRecv sid
      (quicReceived dnsClientRecv sid { s with recvBuff := s.recvBuff ++ chunk }) recvs
    rw [hhandled, hexact, singleton_append, List.cons.injEq] at hlater
    have hlen := congrArg List.length hlater.1
    rw [length_withId, length_withId, length_append, length_cons] at hlen
    omega
  · rintro ⟨seen, -, hseen⟩
    have hlen := congrArg List.length hseen
    rw [← hafter, length_append, length_append, length_cons] at hlen
    omega

end Stream

/-- **The handler is given exactly the message when a receive result ends with it.** -/
theorem quic_message_exact_iff (dnsClientRecv : Bytes → Int) (sid : Nat) {message tail : Bytes}
    {recvs : List QuicRecv} (hmin : 12 ≤ message.length) (hmax : message.length ≤ 4095)
    (hcut : QuicCut recvs (frame message ++ tail))
    (hfits : (frame message ++ tail).length ≤ dnsTcpBuffer)
    (haccepts : dnsClientRecv (withId sid message) = 0) :
    (run (quicTurn dnsClientRecv sid) {} recvs).handled = [withId sid message] ↔
      ∃ seen, seen <+: recvs ∧ delivered seen = frame message :=
  run_waiting_iff (s := {}) hmin hmax haccepts hcut ⟨rfl, rfl⟩
    (by rw [length_frame]; exact Nat.succ_pos _) rfl hfits

/-- A message of twelve bytes. -/
def quicMessage : Bytes :=
  [0, 0, 1, 0, 0, 1, 0, 0, 0, 0, 0, 0]

/-- The message arrives in two pieces. -/
def quicPieces : List QuicRecv :=
  [.data ((frame quicMessage).take 5), .again, .data ((frame quicMessage).drop 5)]

theorem quic_message_exact_twoPieces :
    (run (quicTurn (fun _ => 0) 7) {} quicPieces).handled = [withId 7 quicMessage] := by
  have hcut : QuicCut quicPieces (frame quicMessage ++ []) :=
    .data (by decide) (.again (.data (by decide) .nil))
  exact (quic_message_exact_iff _ 7 (by decide) (by decide) hcut (by decide) rfl).mpr
    ⟨quicPieces, prefix_rfl, by decide⟩

/-- One byte behind the message reaches the handler with it. -/
theorem trailing_byte_handled :
    (run (quicTurn (fun _ => 0) 7) {} [.data (frame quicMessage ++ [255])]).handled =
        [withId 7 (quicMessage ++ [255])] ∧
      withId 7 (quicMessage ++ [255]) ≠ withId 7 quicMessage := by
  decide

end SmartDns.Client
