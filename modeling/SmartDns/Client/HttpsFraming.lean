import SmartDns.Client.HttpsStreams
import SmartDns.Http3.Setup

/-!
# HTTP messages in their buffers

`_dns_server_reply_https` and `_dns_client_format_https_packet` print a header
into a buffer and copy the DNS message behind it.  The message is compared with
the size of the buffer before the header is there and the header is compared
with it afterwards, but never the two together.
-/

namespace SmartDns.Client

open List

open Http3 (decimal)

/-- A copy of bytes to a place in a buffer. -/
structure Copy where
  pos : Nat
  bytes : Bytes

def Copy.Inside (size : Nat) (c : Copy) : Prop :=
  c.pos + c.bytes.length ≤ size

/-- What `snprintf` writes, the text cut to the size and its NUL. -/
def snprintf (size : Nat) (text : Bytes) : List Copy :=
  if size = 0 then [] else [⟨0, text.take (size - 1) ++ [0]⟩]

/-- What is done to the buffer, and the text in it unless an error is reported. -/
structure Framed where
  copies : List Copy
  text : Option Bytes

/-- Nothing is written outside of the buffer, and a text that is reported is in it. -/
def Framed.InBuffer (size : Nat) (f : Framed) : Prop :=
  (∀ c ∈ f.copies, c.Inside size) ∧ ∀ text ∈ f.text, text.length ≤ size

/-- The two functions: the message is accepted, the header printed, the message
copied behind it. -/
def formatHttp (accepted : Bool) (size : Nat) (header packet : Bytes) : Framed :=
  if accepted = false then ⟨[], none⟩
  else if size ≤ header.length then ⟨snprintf size header, none⟩
  else ⟨snprintf size header ++ [⟨header.length, packet⟩], some (header ++ packet)⟩

def httpsReplyHeader (len : Nat) : Bytes :=
  ascii "HTTP/1.1 200 OK\r\n" ++ ascii "Content-Type: application/dns-message\r\n" ++
    ascii "Content-Length: " ++ decimal len ++ ascii "\r\n" ++ ascii "\r\n"

/-- `_dns_server_reply_https`, up to the send. -/
def dnsServerReplyHttps (packet : Bytes) : Framed :=
  formatHttp (packet.length ≤ dnsInPacksize) dnsInPacksize (httpsReplyHeader packet.length) packet

/-- The header of a request with a DNS message. -/
def httpsRequestHeader (path httphost : CStr) (len : Nat) : Bytes :=
  ascii "POST " ++ path.bytes ++ ascii " HTTP/1.1\r\n" ++ ascii "Host: " ++ httphost.bytes ++
    ascii "\r\n" ++ ascii "User-Agent: smartdns\r\n" ++
    ascii "Content-Type: application/dns-message\r\n" ++
    ascii "Accept: application/dns-message\r\n" ++ ascii "Content-Length: " ++ decimal len ++
    ascii "\r\n" ++ ascii "\r\n"

/-- `_dns_client_format_https_packet`, with what it does to `outpacket`. -/
def formatHttpsPacket (path httphost : CStr) (packet : Bytes) (outpacketMax : Nat) : Framed :=
  formatHttp (packet.length + 2 ≤ outpacketMax) outpacketMax
    (httpsRequestHeader path httphost packet.length) packet

theorem snprintf_inside {size : Nat} {text : Bytes} {c : Copy} (h : c ∈ snprintf size text) :
    c.Inside size := by
  unfold snprintf at h
  split at h
  · cases h
  next hpos =>
  obtain rfl := mem_singleton.mp h
  simp only [Copy.Inside, length_append, length_take, length_singleton]
  omega

theorem formatHttp_inBuffer_iff (accepted : Bool) (size : Nat) (header packet : Bytes) :
    (formatHttp accepted size header packet).InBuffer size ↔
      (accepted = true → header.length < size → header.length + packet.length ≤ size) := by
  unfold formatHttp Framed.InBuffer
  split
  next hno => simp [hno]
  next hyes =>
  split
  next hlong =>
    refine ⟨fun _ _ hshort => absurd hlong (Nat.not_le.mpr hshort), fun _ => ⟨?_, by simp⟩⟩
    exact fun c => snprintf_inside
  next hshort =>
  constructor
  · rintro ⟨hcopies, -⟩ - -
    exact hcopies ⟨header.length, packet⟩ (by simp)
  intro hfits
  have hboth := hfits (by simpa using hyes) (Nat.not_le.mp hshort)
  refine ⟨fun c hc => ?_, by simpa using hboth⟩
  rcases mem_append.mp hc with hc | hc
  · exact snprintf_inside hc
  · obtain rfl := mem_singleton.mp hc
    exact hboth

theorem httpsRequest_eq (path httphost : CStr) (packet : Bytes) :
    httpsRequest path httphost packet =
      httpsRequestHeader path httphost packet.length ++ packet := by
  simp [httpsRequest, httpsRequestHeader]

/-- The request that a stream overruns its buffer with is the one that is not in it. -/
theorem dnsClientFormatHttpsPacket_overrun_iff
    (path httphost : CStr) (packet : Bytes) (outpacketMax : Nat) :
    dnsClientFormatHttpsPacket path httphost packet outpacketMax = .overrun ↔
      ¬(formatHttpsPacket path httphost packet outpacketMax).InBuffer outpacketMax := by
  have hsome : 0 < (httpsRequestHeader path httphost packet.length).length := by
    simp [httpsRequestHeader, ascii]
  rw [formatHttpsPacket, formatHttp_inBuffer_iff, dnsClientFormatHttpsPacket, httpsRequest_eq]
  simp only [length_append, Nat.add_sub_cancel, decide_eq_true_eq]
  repeat' split
  all_goals
    simp only [reduceCtorEq, true_iff, false_iff, not_not]
    omega

/-- **Framing stays in the buffer exactly when header and message fit together.** -/
theorem https_framing_in_buffer_iff (packet : Bytes) (path httphost : CStr) (outpacketMax : Nat) :
    ((dnsServerReplyHttps packet).InBuffer dnsInPacksize ↔
      (packet.length ≤ dnsInPacksize → (httpsReplyHeader packet.length).length < dnsInPacksize →
        (httpsReplyHeader packet.length).length + packet.length ≤ dnsInPacksize)) ∧
    ((formatHttpsPacket path httphost packet outpacketMax).InBuffer outpacketMax ↔
      (packet.length + 2 ≤ outpacketMax →
        (httpsRequestHeader path httphost packet.length).length < outpacketMax →
        (httpsRequestHeader path httphost packet.length).length + packet.length ≤
          outpacketMax)) := by
  constructor
  · rw [dnsServerReplyHttps, formatHttp_inBuffer_iff, decide_eq_true_iff]
  · rw [formatHttpsPacket, formatHttp_inBuffer_iff, decide_eq_true_iff]

/-- A reply stays in the buffer unless it has between 4017 and 4096 bytes. -/
theorem https_reply_in_buffer_iff (packet : Bytes) :
    (dnsServerReplyHttps packet).InBuffer dnsInPacksize ↔
      packet.length ≤ 4016 ∨ 4096 < packet.length := by
  have hheader : (httpsReplyHeader packet.length).length = 76 + (decimal packet.length).length := by
    simp [httpsReplyHeader, ascii]
    omega
  have hthree := @Http3.length_decimal_le_iff packet.length 3 (by decide)
  have hfour := @Http3.length_decimal_le_iff packet.length 4 (by decide)
  rw [dnsServerReplyHttps, formatHttp_inBuffer_iff, decide_eq_true_iff, hheader]
  simp only [dnsInPacksize]
  omega

/-- A reply that fills the packet buffer is copied over the end of the other one. -/
theorem full_reply_overruns :
    ¬(dnsServerReplyHttps (List.replicate dnsInPacksize 0)).InBuffer dnsInPacksize := by
  have hheader : (httpsReplyHeader dnsInPacksize).length = 80 := by decide
  rw [dnsServerReplyHttps, formatHttp_inBuffer_iff, length_replicate, hheader]
  decide

end SmartDns.Client
