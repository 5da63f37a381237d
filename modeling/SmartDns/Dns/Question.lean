import SmartDns.Dns.NameRuns
import SmartDns.Dns.Chains
import SmartDns.Dns.OptSegments

/-!
# One question

A packet with one question is encoded and decoded again.  The question passes
through `_dns_encode_domain` three times, into the packet, into the message and
into the decoded packet, each time with an empty dictionary.

`_dns_encode_qd` replaces the end of a name that starts with a hyphen by a
pointer to offset 18.
-/

namespace SmartDns

open Prog List

variable {W : Image UInt8} {j qtype qclass : Nat} {type : RrType} {m : Bytes} {n : DomainName}
  {p : Packet}

/-- How many bytes a name takes without compression. -/
def DomainName.wireLength (n : DomainName) : Nat :=
  (dotted n.labels).length + 1

theorem length_dotted_le (ls : List Label) : (dotted ls).length ≤ (text ls).length + 1 := by
  cases ls with
  | nil => simp [dotted]
  | cons l ls => simp [dotted, text]

theorem length_text_le (ls : List Label) : (text ls).length ≤ (dotted ls).length := by
  cases ls with
  | nil => simp [text]
  | cons l ls => simp [dotted, text]

theorem SpeltAt.le_dotted
    {T : Nat → List Label → Prop} {i : Nat} {ls : List Label} (h : SpeltAt T W i ls j) :
    j ≤ i + (dotted ls).length + 1 := by
  induction h with
  | root _ => simp [dotted]
  | label _ _ ih =>
    simp only [dotted, Label.length_wire, length_cons, length_append] at ih ⊢
    omega
  | @pointer i t l ls _ _ =>
    simp only [dotted, length_cons, length_append]
    omega

namespace Dns

open Image (At ofList)

/-! ## A question in memory -/

/-- The question stands at `i`, and its bytes there end in front of `j`. -/
def QuestionAt (W : Image UInt8) (i : Nat) (ls : List Label) (qtype qclass j : Nat) : Prop :=
  ∃ k, NameAt W i ls k ∧ At W k (beBytes 2 qtype ++ beBytes 2 qclass) ∧ j = k + 4

theorem QuestionAt.mono {W' : Image UInt8} {i : Nat} {ls : List Label}
    (h : QuestionAt W i ls qtype qclass j) (hle : Image.Le W W') :
    QuestionAt W' i ls qtype qclass j := by
  obtain ⟨k, hname, hnumbers, rfl⟩ := h
  exact ⟨k, hname.mono hle, hnumbers.mono hle, rfl⟩

section Context

variable {c : Context}

theorem wp_dnsAddQrHead
    (qtype qclass : Nat) (hsize : c.maxsize ≤ c.data.length) (hdict : c.namedict = [])
    (hdiff : SuffixesDiffer n.labels) (hroom : c.ptr + n.wireLength + 4 ≤ c.maxsize) :
    wp (dnsAddQrHead n.toCStr qtype qclass)
      (fun len c' => Context.Frame c.ptr c c' ∧ c'.ptr = c.ptr + len ∧ len ≤ n.wireLength + 4 ∧
        QuestionAt (writtenImage c'.data c.ptr c'.ptr) c.ptr n.labels qtype qclass c'.ptr)
      (fun _ => False) c := by
  have htext := length_text_le n.labels
  simp only [DomainName.wireLength] at hroom ⊢
  have hspelt := dnsEncodeDomain_spelt (T := fun _ _ => False) (n := n) hsize
    (fun _ _ h => h.elim) (by simp [hdict]) hdiff (by simp only [Context.leftLen]; omega)
  have hstep := wp_and hspelt ((Writing.refl hsize le_rfl).encodeDomain_or_stuck n.toCStr)
  simp only [dnsAddQrHead, wp_bind]
  refine wp_mono hstep ?_ ?_
  · rintro len c₁ ⟨⟨hname, -⟩, hwriting, hptr, -, -⟩
    have hle := hname.le_dotted
    have hlen := hwriting.frame.length
    have hmax := hwriting.frame.maxsize
    refine wp_failWhen_leftLen (by omega) ?_
    have hboth : c₁.ptr + (beBytes 2 qtype ++ beBytes 2 qclass).length ≤ c₁.data.length := by
      simp
      omega
    refine wp_writeBytes (by rw [length_beBytes]; omega) ?_
    refine wp_writeBytes_append _ hboth ?_
    have hframe := Context.Frame.overwrite (c := c₁) c₁.ptr (beBytes 2 qtype ++ beBytes 2 qclass)
      (c₁.ptr + (beBytes 2 qtype ++ beBytes 2 qclass).length) hboth le_rfl
    refine ⟨hwriting.frame.trans (hframe.mono hwriting.start), by simp; omega, by omega, c₁.ptr, ?_,
      ?_, by simp⟩
    · -- the name stands in front of the two numbers and was not touched again
      refine (hname.nameAt (G := fun _ => none) (fun _ _ h => h.elim) ?_ (fun _ _ h => by cases h))
      intro k a hk
      have hkin : c.ptr ≤ k ∧ k < c₁.ptr := by
        by_contra hout
        rw [writtenImage, Image.cover, if_neg hout] at hk
        cases hk
      rw [writtenImage, Image.cover, if_pos hkin] at hk
      rw [writtenImage, Image.cover, if_pos ⟨hkin.1, Nat.lt_add_right _ hkin.2⟩,
        hframe.below k hkin.2]
      exact hk
    · exact at_writtenImage (Image.at_overwrite hboth) (by omega) (by simp)
  · rintro c₁ ⟨-, hstuck⟩
    have := hstuck.full
    simp only [DomainName.toCStr_bytes] at this
    omega

theorem dnsGetQrHead_questionAt (hle : Image.Le W (ofList c.data)) (hW : W.Below c.maxsize)
    (hquestion : QuestionAt W c.ptr n.labels qtype qclass j) (hqtype : qtype < 2 ^ 16)
    (hqclass : qclass < 2 ^ 16) :
    dnsGetQrHead maxCnameLen c = .done (text n.labels, qtype, qclass) { c with ptr := j } := by
  obtain ⟨k, hname, hnumbers, rfl⟩ := hquestion
  have hfits := n.fits
  have hread := dnsGetDomainFromPacket_nameAt hle hW hname
    (show (text n.labels).length + 1 < maxCnameLen by simp only [maxCnameLen]; omega)
  obtain ⟨htype, hclass⟩ := Image.at_append.mp hnumbers
  rw [length_beBytes] at hclass
  have hend : k + 4 ≤ c.maxsize := by
    by_contra hlt
    have hcell := hclass 1 _ rfl
    rw [hW (k + 2 + 1) (by omega)] at hcell
    cases hcell
  refine wp.eq_done ?_
  simp only [dnsGetQrHead, dnsDecodeDomain, wp_bind, wp_get, wp_zoom]
  refine wp_of_done hread ?_
  refine wp_failWhen_leftLen (by simp only; omega) ?_
  simp only [dnsReadShort, wp_bind]
  refine wp_readBytes_at (htype.mono hle) (length_beBytes _ _) ?_
  refine wp_readBytes_at (hclass.mono hle) (length_beBytes _ _) ?_
  rw [wp_pure, wp_pure, beNat_beBytes, beNat_beBytes,
    Nat.mod_eq_of_lt (by simpa using hqtype), Nat.mod_eq_of_lt (by simpa using hqclass)]
  exact ⟨rfl, rfl⟩

end Context

/-! ## A packet with one question -/

/-- A packet without records. -/
structure Blank (p : Packet) : Prop where
  start : ∀ type, p.start type = rrEnd
  count : ∀ type, p.count type = 0
  payloadsize : p.payloadsize = 0
  len : p.len = 0
  namedict : p.namedict = []
  data : p.data.length + sizeofPacket = p.size

/-- What `dns_packet_init` makes of a packet. -/
def Packet.init (p : Packet) (size : Nat) (head : Head) : Packet where
  addr := p.addr
  head := head.withoutCounts
  questions := rrEnd
  answers := rrEnd
  nameservers := rrEnd
  additional := rrEnd
  optcount := 0
  optional := rrEnd
  payloadsize := 0
  optOption := 0
  namedict := []
  size := size
  len := 0
  data := List.replicate (size - sizeofPacket) 0

theorem wp_dnsPacketInit
    {Q : Unit → Packet → Prop} {E : Packet → Prop} {size : Nat} {head : Head}
    (hsize : sizeofPacket ≤ size) (hQ : Q () (p.init size head)) :
    wp (dnsPacketInit size head) Q E p := by
  simp only [dnsPacketInit, wp_bind, wp_failWhen, wp_modify]
  exact ⟨fun hsmall => by omega, fun _ => hQ⟩

theorem blank_init (p : Packet) (head : Head) {size : Nat} (hsize : sizeofPacket ≤ size) :
    Blank (p.init size head) where
  start type := by cases type <;> rfl
  count type := by cases type <;> rfl
  payloadsize := rfl
  len := rfl
  namedict := rfl
  data := by
    simp only [Packet.init, length_replicate]
    omega

/-- The packet after a head with no records but questions was taken over. -/
theorem Blank.withHead (h : Blank p) {head : Head}
    (han : head.ancount = 0) (hns : head.nscount = 0) (hnr : head.nrcount = 0) :
    Blank (({ p with head := head } : Packet).setCount 0 .qd) := by
  refine ⟨h.start, ?_, h.payloadsize, h.len, h.namedict, h.data⟩
  intro type
  cases type with
  | qd => rfl
  | an => exact han
  | ns => exact hns
  | nr => exact hnr
  | opt => exact h.count .opt

/-- A packet whose only record is a question. -/
structure OneQuestion (p : Packet) (n : DomainName) (qtype qclass : Nat) : Prop where
  start : ∀ type, p.start type = if type = .qd then 0 else rrEnd
  count : ∀ type, p.count type = if type = .qd then 1 else 0
  payloadsize : p.payloadsize = 0
  next : p.rrsNext 0 = some rrEnd
  question : ∃ len, p.rrsLen 0 = some len ∧ ∃ W, Image.Le W (ofList p.data) ∧
    W.Below (sizeofRrs + len) ∧
    QuestionAt W sizeofRrs n.labels qtype qclass (sizeofRrs + len)

theorem wp_dnsAddDomain (hp : Blank p) (hdiff : SuffixesDiffer n.labels)
    (hroom : sizeofPacket + sizeofRrs + n.wireLength + 4 ≤ p.size) :
    wp (dnsAddDomain n.toCStr qtype qclass)
      (fun _ p' => OneQuestion p' n qtype qclass) (fun _ => False) p := by
  have hlen := hp.len
  have hdata := hp.data
  have hshort := length_dotted_le n.labels
  have hfits := n.fits
  simp only [DomainName.wireLength, sizeofPacket, sizeofRrs] at hroom hdata
  simp only [dnsAddDomain, dnsAddRrsStart, inPacket, wp_bind, wp_failWhen, wp_zoom]
  refine ⟨fun hfull => ?_, fun _ => ?_⟩
  · simp only [sizeofRrs] at hfull
    omega
  have hwrite := wp_dnsAddQrHead (c := p.context) (n := n) qtype qclass
    (by simp only [Packet.context, sizeofPacket]; omega) hp.namedict hdiff
    (by simp only [Packet.context, DomainName.wireLength, sizeofPacket, sizeofRrs]; omega)
  refine wp_post hwrite ?_
  rintro len c' ⟨hframe, hptr, hle, hquestion⟩
  simp only [DomainName.wireLength] at hle
  have hstart : p.context.ptr = sizeofRrs := by simp only [Packet.context, hlen, Nat.zero_add]
  rw [hptr, hstart] at hquestion
  have hlength : c'.data.length = p.data.length := hframe.length
  have hchains : Chains (p.store c') [] := ⟨.nil, by simp, hp.start⟩
  refine wp_dnsRrAddEnd hchains (by simp only [Packet.store, sizeofPacket]; omega)
    (by simp only [Packet.store]; omega)
    (fun hfull => by simp only [Packet.store, sizeofPacket, sizeofRrs] at hfull; omega) ?_
  intro _
  have hlink : (p.store c').link [] .qd = (p.store c').setStart 0 .qd := by
    simp [Packet.link, nodesOf, Packet.store, hlen]
  rw [hlink]
  have hzero : ((p.store c').setStart 0 .qd).len = 0 := hlen
  have hin : ((p.store c').setStart 0 .qd).len + sizeofRrs ≤
      ((p.store c').setStart 0 .qd).data.length := by
    rw [hzero, setStart_data, Packet.store, sizeofRrs, hlength]
    omega
  obtain ⟨hnext, hrrsLen⟩ := enter_head .qd DnsType.cname.code len hin
  obtain ⟨-, hsame, -⟩ := enter_data .qd DnsType.cname.code len hin
  rw [hzero] at hnext hrrsLen hsame
  rw [Nat.mod_eq_of_lt (by omega)] at hrrsLen
  refine ⟨?_, ?_, hp.payloadsize, hnext, len, hrrsLen,
    writtenImage c'.data sizeofRrs (sizeofRrs + len), ?_, writtenImage_below _ (by omega),
    hquestion⟩
  · intro type
    rw [enter_start, setStart_start, store_start, hp.start]
  · intro type
    rw [enter_count, setStart_count, setStart_count, store_count, store_count, hp.count, hp.count]
    norm_num
  · intro k a hk
    by_cases hlow : k < sizeofRrs
    · rw [writtenImage, Image.cover, if_neg (by omega)] at hk
      cases hk
    · rw [ofList, hsame k (by omega)]
      exact writtenImage_le _ _ _ k a hk

section Sections

variable {σ α : Type} {Q : List α → σ → Prop} {E : σ → Prop} {s : σ}

theorem wp_forSection_nil
    {body : Nat → Prog DnsFault σ α} (hstart : p.start type = rrEnd) (hQ : Q [] s) :
    wp (forSection p type body) Q E s := by
  rw [forSection, dnsGetRrsStart, if_pos hstart]
  cases p.count type with
  | zero => exact hQ
  | succ count => exact hQ

theorem OneQuestion.wp_forSection
    {body : Nat → Prog DnsFault σ α} (h : OneQuestion p n qtype qclass)
    (hbody : wp (body 0) (fun a t => Q [a] t) E s) :
    wp (forSection p .qd body) Q E s := by
  have hstart : p.start .qd = 0 := h.start .qd
  have hcount : p.count .qd = 1 := h.count .qd
  rw [forSection, dnsGetRrsStart, hstart, hcount, if_neg (by decide)]
  simp only [forRrs, dnsGetRrsNext, wp_bind, wp_orAbort, wp_pure]
  refine wp_post hbody ?_
  intro a t hQ
  exact ⟨rrEnd, h.next, hQ⟩

theorem OneQuestion.wp_dnsGetDomain
    {Q : Bytes × Nat × Nat → σ → Prop} (h : OneQuestion p n qtype qclass)
    (hqtype : qtype < 2 ^ 16) (hqclass : qclass < 2 ^ 16)
    (hQ : Q (text n.labels, qtype, qclass) s) :
    wp (dnsGetDomain p 0 maxCnameLen) Q E s := by
  obtain ⟨len, hlen, W, hle, hW, hquestion⟩ := h.question
  simp only [dnsGetDomain, dnsInitContextByRrs, wp_bind, wp_orAbort, wp_pure, wp_aside]
  have hread := dnsGetQrHead_questionAt (c := ⟨p.data, 0 + sizeofRrs + len, 0 + sizeofRrs,
    p.namedict⟩)
    (W := W) (j := sizeofRrs + len) hle (by simpa using hW)
      (by simpa using hquestion) hqtype hqclass
  exact ⟨len, hlen, wp_of_done hread hQ⟩

end Sections

/-! ## The message -/

structure QuestionMessage (m : Bytes) (n : DomainName) (qtype qclass : Nat) : Prop where
  counts : At (ofList m) 4 (headCounts { zeroHead with qdcount := 1 })
  question : QuestionAt (ofList m) 12 n.labels qtype qclass m.length

/-- The prefix of a memory has what an image below its end fixes. -/
theorem le_ofList_take (hle : Image.Le W (ofList m)) (hW : W.Below j) :
    Image.Le W (ofList (m.take j)) := by
  intro k a hk
  have hkj : k < j := by
    by_contra hge
    rw [hW k (by omega)] at hk
    cases hk
  rw [ofList, getElem?_take_of_lt hkj]
  exact hle k a hk

theorem wp_dnsEncodeHead
    {Q : Unit → Context → Prop} {E : Context → Prop} {c : Context} (head : Head)
    (hsize : c.maxsize ≤ c.data.length) (hroom : c.ptr + 12 ≤ c.maxsize)
    (hQ : ∀ data, data.length = c.data.length → Q () { c with data := data, ptr := c.ptr + 12 }) :
    wp (dnsEncodeHead head) Q E c := by
  simp only [dnsEncodeHead, dnsWriteShort, wp_bind]
  refine wp_failWhen_leftLen (by omega) ?_
  have hin : c.ptr + (beBytes 2 head.id ++ beBytes 2 (headFields head) ++
      headCounts head).length ≤ c.data.length := by
    simp only [headCounts, length_append, length_beBytes]
    omega
  refine wp_writeBytes (by rw [length_beBytes]; omega) ?_
  refine wp_writeBytes_append _ (by simp; omega) ?_
  refine wp_writeBytes_append _ hin ?_
  simpa [headCounts] using hQ _ (length_overwrite hin)

/-- `_dns_encode_qr_head` is `_dns_add_qr_head` without the returned length. -/
theorem wp_dnsEncodeQrHead
    {Q : Unit → Context → Prop} {E : Context → Prop} {c : Context} {domain : CStr}
    (h : wp (dnsAddQrHead domain qtype qclass) (fun _ c' => Q () c') E c) :
    wp (dnsEncodeQrHead domain qtype qclass) Q E c := by
  simpa only [dnsEncodeQrHead, dnsAddQrHead, wp_bind, wp_pure] using h

/-- `'-'`. -/
def hyphen : UInt8 := 0x2D

/-- The message of a packet with one question, unless its name starts with a
hyphen. -/
theorem wp_dnsEncode_question (h : OneQuestion p n qtype qclass)
    (hqtype : qtype < 2 ^ 16) (hqclass : qclass < 2 ^ 16)
    (hhyphen : (text n.labels).head? ≠ some hyphen) (hdiff : SuffixesDiffer n.labels)
    {buffer : Bytes} (hroom : 12 + n.wireLength + 4 ≤ buffer.length) :
    wp (dnsEncode p)
      (fun _ c => QuestionMessage (c.data.take c.ptr) n qtype qclass) (fun _ => False)
      (encodeContext buffer) := by
  have hstr : CStr.ofBuffer (text n.labels) = n.toCStr := CStr.ofBuffer_bytes n.toCStr
  simp only [dnsEncode, dnsEncodeBody, wp_bind]
  refine wp_dnsEncodeHead p.head le_rfl (by simp only [encodeContext]; omega) ?_
  intro data hdata
  refine h.wp_forSection ?_
  simp only [dnsEncodeQd, wp_bind]
  refine h.wp_dnsGetDomain hqtype hqclass ?_
  rw [hstr]
  have hlen : data.length = buffer.length := hdata
  refine wp_dnsEncodeQrHead (wp_post (wp_dnsAddQrHead qtype qclass ?_ rfl hdiff ?_) ?_)
  · simp only [encodeContext]
    omega
  · simp only [encodeContext]
    omega
  rintro len c' ⟨hframe, hptr, -, hquestion⟩
  have hmax : c'.maxsize = buffer.length := hframe.maxsize
  have hlen' : c'.data.length = buffer.length := hframe.length.trans hlen
  simp only [encodeContext, Nat.zero_add] at hptr hquestion
  rw [if_neg (by simpa [hyphen] using hhyphen), wp_pure]
  refine wp_forSection_nil (h.start .an) (wp_forSection_nil (h.start .ns)
    (wp_forSection_nil (h.start .nr) ?_))
  have hopt : p.optcount = 0 := h.count .opt
  rw [if_neg (by rw [hopt, h.payloadsize]; omega), wp_pure, dnsEncodeHeadCount]
  have hcounts : headCounts p.head = headCounts { zeroHead with qdcount := 1 } := by
    rw [headCounts, show p.head.qdcount = 1 from h.count .qd,
      show p.head.ancount = 0 from h.count .an,
      show p.head.nscount = 0 from h.count .ns, show p.head.nrcount = 0 from h.count .nr]
    rfl
  obtain ⟨hW, hend⟩ : (writtenImage c'.data 12 c'.ptr).Below c'.ptr ∧ c'.ptr ≤ buffer.length := by
    have hlt := hquestion
    obtain ⟨k, hname, hnumbers, hk⟩ := hlt
    have hbelow := writtenImage_below c'.data (show 12 ≤ c'.ptr by omega)
    refine ⟨hbelow, ?_⟩
    have hin := (hnumbers.mono (writtenImage_le _ _ _)).length_le (by simp [beBytes])
    rw [length_append, length_beBytes, length_beBytes] at hin
    omega
  have hin : 4 + (headCounts p.head).length ≤ c'.data.length := by
    simp only [headCounts, length_append, length_beBytes]
    omega
  refine wp_patch hin ?_
  have hlength : ((overwrite c'.data 4 (headCounts p.head)).take c'.ptr).length = c'.ptr := by
    rw [length_take, length_overwrite hin]
    omega
  constructor
  · rw [← hcounts]
    have hcells := at_writtenImage (Image.at_overwrite hin) (i := 4) (j := 12) le_rfl
      (by simp [headCounts])
    exact hcells.mono (le_ofList_take (writtenImage_le _ _ _)
      ((writtenImage_below _ (by omega)).mono (show 12 ≤ c'.ptr by omega)))
  · rw [hlength]
    refine hquestion.mono (le_ofList_take ?_ hW)
    refine (writtenImage_le _ _ _).overwrite hin ?_
    intro k _ hk
    simp only [headCounts, length_append, length_beBytes] at hk
    rw [writtenImage, Image.cover, if_neg (by omega)]

/-! ## Decoding it -/

theorem below_ofList (m : Bytes) : (ofList m).Below m.length :=
  fun _ hi => getElem?_eq_none hi

/-- `_dns_decode_head` returns the counts that stand in the message. -/
theorem wp_dnsDecodeHead
    (counts : Head) (h : At (ofList m) 4 (headCounts counts)) {Q : Head → Context → Prop}
    {E : Context → Prop} (head : Head) (namedict : List DictItem)
    (hQ : ∀ head', head'.qdcount = counts.qdcount % 2 ^ 16 →
      head'.ancount = counts.ancount % 2 ^ 16 → head'.nscount = counts.nscount % 2 ^ 16 →
      head'.nrcount = counts.nrcount % 2 ^ 16 → Q head' ⟨m, m.length, 12, namedict⟩) :
    wp (dnsDecodeHead head) Q E ⟨m, m.length, 0, namedict⟩ := by
  have hlong := h.length_le (by simp [headCounts, beBytes])
  simp only [headCounts, length_append, length_beBytes] at hlong
  simp only [headCounts, Image.at_append, length_append, length_beBytes] at h
  obtain ⟨⟨⟨hqd, han⟩, hns⟩, hnr⟩ := h
  simp only [dnsDecodeHead, dnsReadShort, wp_bind, wp_pure]
  refine wp_failWhen_leftLen (by simp only; omega) ?_
  refine wp_readBytes (by simp only; omega) ?_
  intro id _ _
  refine wp_readBytes (by simp only; omega) ?_
  intro fields _ _
  refine wp_readBytes_at hqd (length_beBytes _ _) ?_
  refine wp_readBytes_at han (length_beBytes _ _) ?_
  refine wp_readBytes_at hns (length_beBytes _ _) ?_
  refine wp_readBytes_at hnr (length_beBytes _ _) ?_
  exact hQ _ (beNat_beBytes _ _) (beNat_beBytes _ _) (beNat_beBytes _ _) (beNat_beBytes _ _)

theorem wp_decodeSection_nil {Q : Unit → Decoder → Prop} {E : Decoder → Prop} {d : Decoder}
    {record : Prog DnsFault Decoder Unit} (hcount : d.packet.count type = 0) (hQ : Q () d) :
    wp (decodeSection type record) Q E d := by
  have hself : d.packet.setCount 0 type = d.packet := by
    cases type <;> (simp only [Packet.count] at hcount; simp only [Packet.setCount, ← hcount])
  simp only [decodeSection, toPacket, wp_bind, wp_get, wp_zoom, wp_modify,
    hcount, Prog.collect, wp_pure, hself]
  exact hQ

theorem wp_decodeSection_one {Q : Unit → Decoder → Prop} {E : Decoder → Prop} {d : Decoder}
    {record : Prog DnsFault Decoder Unit} (hcount : d.packet.count type = 1)
    (hrecord : wp record Q E { d with packet := d.packet.setCount 0 type }) :
    wp (decodeSection type record) Q E d := by
  simp only [decodeSection, toPacket, wp_bind, wp_get, wp_zoom, wp_modify,
    hcount, Prog.collect, wp_pure]
  exact hrecord

theorem wp_dnsDecode_question
    (h : QuestionMessage m n qtype qclass)
    (hqtype : qtype < 2 ^ 16) (hqclass : qclass < 2 ^ 16) (hdiff : SuffixesDiffer n.labels)
    {maxsize : Nat} (hroom : sizeofPacket + sizeofRrs + n.wireLength + 4 ≤ maxsize) (p : Packet) :
    wp (dnsDecode maxsize m) (fun _ p' => OneQuestion p' n qtype qclass) (fun _ => False) p := by
  have hstr : CStr.ofBuffer (text n.labels) = n.toCStr := CStr.ofBuffer_bytes n.toCStr
  simp only [dnsDecode, decodeMessage, dnsDecodeBody, onMessage, toPacket,
    wp_bind, wp_modify, wp_zoom, wp_get]
  refine wp_dnsPacketInit (by omega) ?_
  refine wp_dnsDecodeHead _ h.counts _ _ ?_
  intro head' hqd han hns hnr
  refine wp_decodeSection_one hqd ?_
  simp only [dnsDecodeQd, onMessage, toPacket, wp_bind, wp_zoom]
  have hread := dnsGetQrHead_questionAt (c := ⟨m, m.length, 12, []⟩) (n := n) (Image.Le.refl _)
    (below_ofList m) h.question hqtype hqclass
  refine wp_of_done (m := dnsDecodeQrHead maxCnameLen) hread ?_
  rw [hstr]
  have hblank := (blank_init p zeroHead (show sizeofPacket ≤ maxsize by omega)).withHead han hns hnr
  refine wp_post (wp_dnsAddDomain hblank hdiff hroom) ?_
  intro _ p' hp'
  refine wp_decodeSection_nil (hp'.count .an) (wp_decodeSection_nil (hp'.count .ns)
    (wp_decodeSection_nil (hp'.count .nr) ?_))
  exact ⟨hp'.start, hp'.count, hp'.payloadsize, hp'.next, hp'.question⟩

/-! ## The round trip -/

/-- Encode a packet with one question, decode the message into a packet buffer
of `maxsize` bytes and read its questions. -/
def questionTrip (size : Nat) (head : Head) (n : DomainName) (qtype qclass : Nat) (buffer : Bytes)
    (maxsize : Nat) : Prog DnsFault Packet (List (Bytes × Nat × Nat)) := do
  dnsPacketInit size head
  dnsAddDomain n.toCStr qtype qclass
  let packet ← Prog.get
  let (_, context) ← aside (encodeContext buffer) (dnsEncode packet)
  dnsDecode maxsize (context.data.take context.ptr)
  let decoded ← Prog.get
  forSection decoded .qd (fun rrs => dnsGetDomain decoded rrs maxCnameLen)

/-- **A question survives encoding and decoding**, for every name that does not
start with a hyphen and no two suffixes of which have the same hash. -/
theorem question_round_trip
    (n : DomainName) {qtype qclass : Nat} (hqtype : qtype < 2 ^ 16) (hqclass : qclass < 2 ^ 16)
    (hhyphen : (text n.labels).head? ≠ some hyphen) (hdiff : SuffixesDiffer n.labels)
    (head : Head) {size : Nat} (hsize : sizeofPacket + sizeofRrs + n.wireLength + 4 ≤ size)
    {buffer : Bytes} (hbuffer : 12 + n.wireLength + 4 ≤ buffer.length)
    {maxsize : Nat} (hmaxsize : sizeofPacket + sizeofRrs + n.wireLength + 4 ≤ maxsize)
    (p : Packet) :
    ∃ p', questionTrip size head n qtype qclass buffer maxsize p =
      .done [(text n.labels, qtype, qclass)] p' := by
  have h : wp (questionTrip size head n qtype qclass buffer maxsize)
      (fun qs _ => qs = [(text n.labels, qtype, qclass)]) (fun _ => False) p := by
    simp only [questionTrip, wp_bind, wp_get, wp_aside]
    refine wp_dnsPacketInit (by omega) ?_
    refine wp_post (wp_dnsAddDomain (blank_init p head (by omega)) hdiff hsize) ?_
    intro _ packet hpacket
    refine wp_post (wp_dnsEncode_question hpacket hqtype hqclass hhyphen hdiff hbuffer) ?_
    intro _ context hmessage
    refine wp_post (wp_dnsDecode_question hmessage hqtype hqclass hdiff hmaxsize packet) ?_
    intro _ decoded hdecoded
    exact hdecoded.wp_forSection (hdecoded.wp_dnsGetDomain hqtype hqclass rfl)
  obtain ⟨qs, p', hdone, rfl⟩ := h.returns
  exact ⟨p', hdone⟩

theorem question_round_trip_plainName :
    ∃ p', questionTrip 177 zeroHead plainName 28 1 (List.replicate 21 0) 177 smallPacket =
      .done [(ascii "a.b", 28, 1)] p' :=
  question_round_trip plainName (by decide) (by decide) (by decide) (by decide +kernel) zeroHead
    (by decide) (by decide) (by decide) smallPacket

/-- `-`. -/
def hyphenName : DomainName :=
  singleLabel "-" (by decide) (by decide) (plain_of_all (by decide))

/-- `-a.com`. -/
def hyphenLabelName : DomainName where
  labels := [⟨ascii "-a", by decide, by decide, plain_of_all (by decide)⟩,
    ⟨ascii "com", by decide, by decide, plain_of_all (by decide)⟩]
  fits := by decide

/-- `1ltxz2e.a`, which has the hash of its suffix `a`. -/
def selfHashName : DomainName where
  labels := [⟨ascii "1ltxz2e", by decide, by decide, plain_of_all (by decide)⟩, labelA]
  fits := by decide

/-- The name `-` is sent as a pointer behind the end of the message, `-a.com`
loses its end, and `1ltxz2e.a` is entered as a name that points to itself. -/
theorem question_not_preserved :
    (questionTrip 512 zeroHead hyphenName 2 1 (List.replicate 64 0) 512 smallPacket).isDone =
        false ∧
      (questionTrip 512 zeroHead hyphenLabelName 1 1 (List.replicate 64 0) 512 smallPacket).isDone =
        false ∧
      (questionTrip 512 zeroHead selfHashName 1 1 (List.replicate 64 0) 512 smallPacket).isDone =
        false := by
  decide +kernel

end Dns
end SmartDns
