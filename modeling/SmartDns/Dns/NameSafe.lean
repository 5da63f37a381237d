import SmartDns.Dns.Name

/-!
# The name codec stays in its buffers

For every memory, cursor and dictionary: the decoder reads inside of the
packet only, writes inside of the buffer of the name and comes to an end; the
encoder writes only at or behind its cursor.
-/

namespace SmartDns.Dns

open Prog List
open Image (At ofList)

variable {n pos : Nat} {bs : Bytes}

/-! ## Readers and writers -/

section Primitives

variable {Q : Unit → Context → Prop} {E : Context → Prop} {c : Context}

theorem wp_readBytes {Q : Bytes → Context → Prop} (h : c.ptr + n ≤ c.data.length)
    (hQ : ∀ bs, bs.length = n → At (ofList c.data) c.ptr bs → Q bs { c with ptr := c.ptr + n }) :
    wp (readBytes n) Q E c := by
  obtain ⟨bs, hread, -⟩ := readAt_of_le h
  obtain ⟨hlen, hat⟩ := Image.at_of_read hread
  simp only [readBytes, wp_bind, wp_get, wp_orAbort, wp_modify, wp_pure]
  exact ⟨bs, hread, hQ bs hlen hat⟩

theorem wp_readBytes_at
    {Q : Bytes → Context → Prop} (h : At (ofList c.data) c.ptr bs) (hn : bs.length = n)
    (hQ : Q bs { c with ptr := c.ptr + n }) :
    wp (readBytes n) Q E c := by
  subst hn
  simp only [readBytes, wp_bind, wp_get, wp_orAbort, wp_modify, wp_pure]
  exact ⟨bs, h.read, hQ⟩

theorem wp_patch
    (h : pos + bs.length ≤ c.data.length) (hQ : Q () { c with data := overwrite c.data pos bs }) :
    wp (patch pos bs) Q E c := by
  simp only [patch, wp_bind, wp_get, wp_orAbort, wp_modify]
  exact ⟨_, writeAt_of_le h, hQ⟩

@[simp] theorem wp_advance (n : Nat) : wp (advance n) Q E c ↔ Q () { c with ptr := c.ptr + n } := Iff.rfl

theorem wp_writeBytes (h : c.ptr + bs.length ≤ c.data.length)
    (hQ : Q () { c with data := overwrite c.data c.ptr bs, ptr := c.ptr + bs.length }) :
    wp (writeBytes bs) Q E c := by
  simp only [writeBytes, wp_bind, wp_get]
  refine wp_patch h ?_
  exact hQ

/-- Bytes that are written behind others are written with them. -/
theorem wp_writeBytes_append {data : Bytes} (done : Bytes) {i maxsize : Nat}
    {namedict : List DictItem} (hin : i + (done ++ bs).length ≤ data.length)
    (hQ : Q () ⟨overwrite data i (done ++ bs), maxsize, i + (done ++ bs).length, namedict⟩) :
    wp (writeBytes bs) Q E ⟨overwrite data i done, maxsize, i + done.length, namedict⟩ := by
  rw [length_append] at hin hQ
  refine wp_writeBytes ?_ ?_
  · rw [length_overwrite (by omega)]
    simp only
    omega
  · rw [overwrite_append done bs (by rw [length_append]; omega), Nat.add_assoc]
    exact hQ

theorem wp_failWhen_leftLen {k : Int} (h : c.ptr + k ≤ c.maxsize) (hQ : Q () c) :
    wp (failWhen (fun c => c.leftLen < k) : Prog DnsFault Context Unit) Q E c := by
  rw [wp_failWhen]
  refine ⟨fun hfull => ?_, fun _ => hQ⟩
  simp only [Context.leftLen] at hfull
  omega

end Primitives

/-! ## The decoder -/

section Decoder

variable {packet : Bytes} {packetSize size : Nat}

section

variable (hsize : packetSize ≤ packet.length)
include hsize

theorem copyLabel_safe
    {len ptr outputLen : Nat} {output : Bytes} (hout : output.length ≤ outputLen) (s : Nat) :
    wp (copyLabel packet packetSize size len ptr outputLen output)
      (fun out t => t = s ∧ out.length ≤ outputLen + len) (fun _ => True) s := by
  simp only [copyLabel]
  refine wp_ite (fun hroom => ?_) (fun _ => ?_)
  · generalize hcopy : (if len + outputLen < size then len else size - 1 - outputLen) = copyLen
    have hle : copyLen ≤ len ∧ outputLen + copyLen ≤ size := by split at hcopy <;> omega
    refine wp_ite (fun _ => trivial) (fun hin => ?_)
    obtain ⟨bs, hread, hlen⟩ :=
      readAt_of_le (show ptr + copyLen ≤ packet.length by omega)
    simp only [wp_bind, wp_orAbort]
    refine ⟨bs, hread, ?_⟩
    rw [storeName, if_pos (by omega), wp_pure, length_append]
    exact ⟨rfl, by omega⟩
  · exact ⟨rfl, by omega⟩

/-- One name: the rounds suffice, no read leaves the packet, the name and its
terminator fit, and the cursor moves forward inside of the packet. -/
theorem domainLoop_safe {lo : Nat}
    (rounds ptr : Nat) (isCompressed : Bool) (ptrJump : Nat) (output : Bytes) (outputLen s : Nat)
    (hrounds : 34 * (size - outputLen) + (33 - ptrJump) + 1 ≤ rounds)
    (hout : output.length ≤ outputLen)
    (hptr : if isCompressed then lo < s ∧ s ≤ packetSize else lo ≤ ptr) :
    wp (domainLoop packet packetSize size rounds ptr isCompressed ptrJump output outputLen)
      (fun out t => out.length + 1 < size ∧ lo < t ∧ t ≤ packetSize) (fun _ => True) s := by
  induction rounds generalizing ptr isCompressed ptrJump output outputLen s with
  | zero => omega
  | succ rounds ih =>
  rw [domainLoop]
  refine wp_ite (fun _ => trivial) (fun htop => ?_)
  have hlt : ptr < packet.length := by omega
  have hmove : ∀ ptr', ptr < ptr' → ptr' ≤ packetSize → wp (moveUnless isCompressed ptr')
        (fun _ t => lo < t ∧ t ≤ packetSize) (fun _ => True) s := by
    intro ptr' hgt hle
    cases isCompressed with
    | true => exact hptr
    | false =>
      simp only [moveUnless, Bool.false_eq_true, if_false, wp_modify] at hptr ⊢
      omega
  simp only [wp_bind, wp_orAbort]
  refine ⟨packet[ptr], getElem?_eq_getElem hlt, ?_⟩
  refine wp_ite (fun _ => ?_) (fun hne => ?_)
  · rw [wp_bind, storeName, if_pos (by simp; omega), wp_pure, wp_bind]
    refine wp_post (hmove (ptr + 1) (by omega) (by omega)) ?_
    intro _ t ht
    rw [wp_pure]
    exact ⟨by omega, ht⟩
  refine wp_ite (fun hpointer => ?_) (fun hlabel => ?_)
  · refine wp_ite (fun _ => trivial) (fun hin => ?_)
    obtain ⟨bs, hread, -⟩ := readAt_of_le (show ptr + 2 ≤ packet.length by omega)
    simp only [wp_bind, wp_orAbort]
    refine ⟨bs, hread, ?_⟩
    refine wp_post (hmove (ptr + 2) (by omega) (by omega)) ?_
    intro _ t ht
    refine wp_ite (fun _ => trivial) (fun _ => ?_)
    exact ih _ true _ _ _ _ (by omega) hout (by simpa using ht)
  have hpos : 0 < packet[ptr].toNat := by
    rcases Nat.eq_zero_or_pos packet[ptr].toNat with h0 | h0
    · exact absurd (UInt8.toNat_inj.mp (by simpa using h0)) hne
    · exact h0
  generalize hsep : (if 0 < outputLen then [dot] else []) = separator
  have hseplen : separator.length ≤ 1 := by
    subst hsep
    split <;> simp
  simp only [wp_bind]
  rw [storeName, if_pos (by omega), wp_pure]
  refine wp_post (copyLabel_safe hsize (by simp; omega) s) ?_
  rintro out t ⟨rfl, hlen⟩
  refine ih _ isCompressed _ _ _ _ (by omega) hlen ?_
  cases isCompressed with
  | true => exact hptr
  | false =>
    simp only [Bool.false_eq_true, if_false] at hptr ⊢
    omega

/-- `_dns_get_domain_from_packet` reads inside of the packet only, its name
fits the buffer with the terminator, and it ends. -/
theorem dnsGetDomainFromPacket_safe (ptr : Nat) :
    wp (dnsGetDomainFromPacket packet packetSize size)
      (fun out t => out.length + 1 < size ∧ ptr < t ∧ t ≤ packetSize) (fun _ => True) ptr := by
  simp only [dnsGetDomainFromPacket, wp_bind, wp_get]
  exact domainLoop_safe hsize _ _ _ _ _ _ _ (by omega) (by simp) (by simp)

end

/-- **Names are decoded safely**, at any place of any memory. -/
theorem dnsDecodeDomain_safe {c : Context} (hsize : c.maxsize ≤ c.data.length) :
    wp (dnsDecodeDomain size)
      (fun out c' => out.length + 1 < size ∧ ∃ ptr, c.ptr < ptr ∧ ptr ≤ c.maxsize ∧
        c' = { c with ptr := ptr })
      (fun c' => ∃ ptr, c' = { c with ptr := ptr }) c := by
  simp only [dnsDecodeDomain, wp_bind, wp_get, wp_zoom]
  refine wp_mono (dnsGetDomainFromPacket_safe hsize c.ptr) ?_ (fun ptr _ => ⟨ptr, rfl⟩)
  rintro out ptr ⟨hout, hlo, hhi⟩
  exact ⟨hout, ptr, hlo, hhi, rfl⟩

/-- A pointer to itself. -/
theorem dnsDecodeDomain_safe_loop :
    wp (dnsDecodeDomain 256) (fun out _ => out.length < 255) (fun _ => True)
      ⟨[0xc0, 0], 2, 0, []⟩ :=
  wp_mono (dnsDecodeDomain_safe le_rfl) (fun _ _ h => by omega) (fun _ _ => trivial)

end Decoder

/-! ## The encoder -/

/-- A writer that starts at `lo` leaves the memory in front of it alone. -/
structure Context.Frame (lo : Nat) (c c' : Context) : Prop where
  length : c'.data.length = c.data.length
  maxsize : c'.maxsize = c.maxsize
  below : ∀ i, i < lo → c'.data[i]? = c.data[i]?

namespace Context.Frame

variable {lo lo' : Nat} {c c' c'' : Context}

theorem refl (lo : Nat) (c : Context) : Frame lo c c :=
  ⟨rfl, rfl, fun _ _ => rfl⟩

theorem trans (h : Frame lo c c') (h' : Frame lo c' c'') : Frame lo c c'' where
  length := h'.length.trans h.length
  maxsize := h'.maxsize.trans h.maxsize
  below i hi := (h'.below i hi).trans (h.below i hi)

theorem mono (h : Frame lo c c') (hle : lo' ≤ lo) : Frame lo' c c' where
  length := h.length
  maxsize := h.maxsize
  below i hi := h.below i (by omega)

theorem overwrite (pos : Nat) (bs : Bytes) (ptr : Nat)
    (hin : pos + bs.length ≤ c.data.length) (hpos : lo ≤ pos) :
    Frame lo c { c with data := SmartDns.overwrite c.data pos bs, ptr := ptr } where
  length := length_overwrite hin
  maxsize := rfl
  below i hi := by
    rw [getElem?_overwrite hin, if_neg (by omega)]

end Context.Frame

theorem dnsGetDomainOffset_safe {c : Context} (hsize : c.maxsize ≤ c.data.length) (domain : Bytes) :
    wp (dnsGetDomainOffset domain)
      (fun _ c' => ∃ namedict, c' = { c with namedict := namedict }) (fun _ => False) c := by
  simp only [dnsGetDomainOffset]
  refine wp_ite (fun _ => ⟨_, rfl⟩) (fun _ => ?_)
  simp only [wp_bind, wp_get]
  split
  next item _ =>
    simp only [wp_bind, wp_attempt, wp_aside, wp_pure]
    exact wp_mono (dnsGetDomainFromPacket_safe hsize item.pos)
      (fun _ _ _ => ⟨_, rfl⟩) (fun _ _ => ⟨_, rfl⟩)
  next =>
    simp only [wp_bind, wp_attempt, wp_pure, dnsAddDomainDict, wp_failWhen, wp_modify]
    exact ⟨fun _ => ⟨_, rfl⟩, fun _ => ⟨fun _ => ⟨_, rfl⟩, fun _ =>
      ⟨fun _ => ⟨_, rfl⟩, fun _ => ⟨_, rfl⟩⟩⟩⟩

/-- A writer on its way: it started at `lo` in the context `c₀`. -/
structure Writing (lo : Nat) (c₀ c : Context) : Prop where
  frame : Context.Frame lo c₀ c
  inside : c₀.maxsize ≤ c₀.data.length
  start : lo ≤ c.ptr

namespace Writing

variable {lo : Nat} {c₀ c : Context} {E : Context → Prop}

theorem refl (hinside : c.maxsize ≤ c.data.length) (hlo : lo ≤ c.ptr) : Writing lo c c :=
  ⟨Context.Frame.refl lo c, hinside, hlo⟩

variable (h : Writing lo c₀ c)
include h

theorem inside' : c.maxsize ≤ c.data.length := by
  rw [h.frame.maxsize, h.frame.length]
  exact h.inside

theorem move (ptr : Nat) (hptr : lo ≤ ptr) (namedict : List DictItem) :
    Writing lo c₀ { c with ptr := ptr, namedict := namedict } :=
  ⟨⟨h.frame.length, h.frame.maxsize, h.frame.below⟩, h.inside, hptr⟩

theorem overwrite (hin : pos + bs.length ≤ c.data.length) (hpos : lo ≤ pos) {ptr : Nat}
    (hptr : lo ≤ ptr) :
    Writing lo c₀ { c with data := SmartDns.overwrite c.data pos bs, ptr := ptr } :=
  ⟨h.frame.trans (Context.Frame.overwrite pos bs ptr hin hpos), h.inside, hptr⟩

theorem writeBytes (bs : Bytes) (hleft : ¬ c.leftLen < bs.length) :
    wp (Dns.writeBytes bs) (fun _ c' => Writing lo c₀ c' ∧ c'.ptr = c.ptr + bs.length) E c := by
  have hinside := h.inside'
  have hstart := h.start
  simp only [Context.leftLen] at hleft
  have hin : c.ptr + bs.length ≤ c.data.length := by omega
  exact wp_writeBytes hin ⟨h.overwrite hin hstart (by omega), rfl⟩

theorem patch (bs : Bytes) (hpos : lo ≤ pos) (hin : pos + bs.length ≤ c.maxsize) :
    wp (Dns.patch pos bs) (fun _ c' => Writing lo c₀ c' ∧ c'.ptr = c.ptr) E c :=
  wp_patch (hin.trans h.inside') ⟨h.overwrite (hin.trans h.inside') hpos h.start, rfl⟩

end Writing

section Encoder

variable {lo : Nat} {c₀ c : Context}

/-- What a finished write leaves: the returned length is how far the cursor
moved, and at least one byte stays free. -/
structure Encoded (lo : Nat) (c₀ : Context) (totalLen : Nat) (c : Context) (n : Nat)
    (c' : Context) : Prop where
  writing : Writing lo c₀ c'
  moved : n + c.ptr = totalLen + c'.ptr
  forward : c.ptr ≤ c'.ptr
  room : c'.ptr < c'.maxsize

theorem Encoded.back {totalLen k : Nat} {c₁ c' : Context} (h : Encoded lo c₀ (totalLen + k) c₁ n c')
    (hptr : c₁.ptr = c.ptr + k) :
    Encoded lo c₀ totalLen c n c' where
  writing := h.writing
  moved := by
    have := h.moved
    omega
  forward := by
    have := h.forward
    omega
  room := h.room

/-- What a failed write leaves: the buffer ends at or in front of `need`. -/
structure Stuck (lo : Nat) (c₀ : Context) (need : Nat) (c : Context) : Prop where
  writing : Writing lo c₀ c
  full : c₀.maxsize ≤ need

theorem Stuck.mono {need need' : Nat} (h : Stuck lo c₀ need c) (hle : need ≤ need') :
    Stuck lo c₀ need' c :=
  ⟨h.writing, h.full.trans hle⟩

theorem encodeDomainEnd_safe
    (h : Writing lo c₀ c) {ptrNum : Nat} (hlo : lo ≤ ptrNum) (hnum : ptrNum < c.ptr)
    (num totalLen : Nat) :
    wp (encodeDomainEnd ptrNum num totalLen)
      (Encoded lo c₀ totalLen c) (Stuck lo c₀ (c.ptr + 1)) c := by
  simp only [encodeDomainEnd, wp_bind, wp_failWhen]
  have hmax₀ := h.frame.maxsize
  refine ⟨fun hfull => ⟨h, ?_⟩, fun hleft => ?_⟩
  · simp only [Context.leftLen] at hfull
    omega
  simp only [Context.leftLen] at hleft
  refine wp_post (h.patch _ hlo (by simp only [length_singleton]; omega)) ?_
  rintro _ c₁ ⟨h₁, hptr₁⟩
  have hmax : c₁.maxsize = c.maxsize := h₁.frame.maxsize.trans h.frame.maxsize.symm
  refine wp_ite (fun _ => ?_) (fun _ => ?_)
  · rw [wp_bind]
    refine wp_post (h₁.writeBytes [0]
      (by simp only [Context.leftLen, length_singleton]; omega)) ?_
    rintro _ c₂ ⟨h₂, hptr₂⟩
    simp only [wp_bind, wp_failWhen, wp_pure]
    rw [length_singleton] at hptr₂
    have hmax₂ := h₂.frame.maxsize
    refine ⟨fun hfull => ⟨h₂, ?_⟩, fun hroom => ?_⟩
    · simp only [Context.leftLen] at hfull
      omega
    · simp only [Context.leftLen] at hroom
      exact ⟨h₂, by omega, by omega, by omega⟩
  · simp only [wp_bind, wp_failWhen, wp_pure]
    refine ⟨fun hfull => ⟨h₁, ?_⟩, fun hroom => ?_⟩
    · simp only [Context.leftLen] at hfull
      omega
    · simp only [Context.leftLen] at hroom
      exact ⟨h₁, by omega, by omega, by omega⟩

/-- The writer never touches what stands in front of its first length byte, and
it fails only if the rest of the name does not fit with a terminator and one
byte more. -/
theorem encodeDomainLoop_safe (domain : Bytes) (dictOffset : Option Nat) (ptrNum num totalLen : Nat)
    (h : Writing lo c₀ c) (hlo : lo ≤ ptrNum) (hnum : ptrNum < c.ptr) :
    wp (encodeDomainLoop domain dictOffset ptrNum num totalLen)
      (Encoded lo c₀ totalLen c) (Stuck lo c₀ (c.ptr + domain.length + 1)) c := by
  induction domain generalizing dictOffset ptrNum num totalLen c with
  | nil => exact encodeDomainEnd_safe h hlo hnum num totalLen
  | cons b domain ih =>
  simp only [encodeDomainLoop, wp_bind, wp_get]
  refine wp_ite (fun _ => ?_) (fun hleft => ?_)
  · exact wp_mono (encodeDomainEnd_safe h hlo hnum num totalLen) (fun _ _ h => h)
      (fun _ h => h.mono (by omega))
  simp only [Context.leftLen] at hleft
  cases dictOffset with
  | some offset =>
    simp only [wp_bind, wp_failWhen]
    refine ⟨fun hfull => ?_, fun _ => ?_⟩
    · simp only [Context.leftLen] at hfull
      omega
    refine wp_post (h.patch _ hlo (by rw [length_beBytes]; omega)) ?_
    rintro _ c₁ ⟨h₁, hptr₁⟩
    have hmax : c₁.maxsize = c.maxsize := h₁.frame.maxsize.trans h.frame.maxsize.symm
    simp only [wp_advance, wp_pure]
    exact ⟨h₁.move _ (h₁.start.trans (Nat.le_succ _)) c₁.namedict, by simp only; omega,
      by simp only; omega, by simp only; omega⟩
  | none =>
  refine wp_ite (fun _ => ?_) (fun _ => ?_)
  · simp only [wp_bind]
    refine wp_post (h.patch _ hlo (by rw [length_singleton]; omega)) ?_
    rintro _ c₁ ⟨h₁, hptr₁⟩
    rw [wp_advance]
    refine wp_mono (dnsGetDomainOffset_safe (by exact h₁.inside') domain) ?_ (fun _ h => h.elim)
    rintro offset _ ⟨namedict, rfl⟩
    refine wp_mono (ih offset c.ptr 0 (totalLen + 1)
      (h₁.move _ (h₁.start.trans (Nat.le_succ _)) namedict) h.start (by simp only; omega)) ?_
      (fun _ h => h.mono (by simp; omega))
    intro n c' hdone
    exact hdone.back (by simp only; omega)
  · rw [wp_bind]
    refine wp_post (h.writeBytes [b]
      (by simp only [Context.leftLen, length_singleton]; omega)) ?_
    rintro _ c₁ ⟨h₁, hptr₁⟩
    rw [length_singleton] at hptr₁
    refine wp_mono (ih none ptrNum (num + 1) (totalLen + 1) h₁ hlo (by omega)) ?_
      (fun _ h => h.mono (by simp; omega))
    intro n c' hdone
    exact hdone.back hptr₁

/-- `_dns_encode_domain` writes only from its cursor on, and it returns if there
is room. -/
theorem Writing.encodeDomain_or_stuck (h : Writing lo c₀ c) (domain : CStr) :
    wp (dnsEncodeDomain domain)
      (fun n c' => Writing lo c₀ c' ∧ c'.ptr = c.ptr + n ∧ 1 ≤ n ∧ c'.ptr < c'.maxsize)
      (Stuck lo c₀ (c.ptr + domain.bytes.length + 2)) c := by
  have hstart := h.start
  simp only [dnsEncodeDomain, wp_bind, wp_get, wp_advance]
  refine wp_mono (dnsGetDomainOffset_safe (by exact h.inside') domain.bytes) ?_ (fun _ h => h.elim)
  rintro offset _ ⟨namedict, rfl⟩
  refine wp_mono (encodeDomainLoop_safe domain.bytes offset c.ptr 0 1
    (h.move (c.ptr + 1) (by omega) namedict) hstart (by simp)) ?_
    (fun _ h => h.mono (by simp only; omega))
  intro n c' hdone
  have hmoved := hdone.moved
  have hforward := hdone.forward
  simp only at hmoved hforward
  exact ⟨hdone.writing, by omega, by omega, hdone.room⟩

theorem Writing.encodeDomain (h : Writing lo c₀ c) (domain : CStr) :
    wp (dnsEncodeDomain domain)
      (fun n c' => Writing lo c₀ c' ∧ c'.ptr = c.ptr + n ∧ 1 ≤ n ∧ c'.ptr < c'.maxsize)
      (Writing lo c₀) c :=
  wp_mono (h.encodeDomain_or_stuck domain) (fun _ _ h => h) (fun _ h => h.writing)

end Encoder

end SmartDns.Dns
