import SmartDns.Dns.NameRuns

/-!
# Names written after a failed write

A write of a name that fails for lack of room has entered its suffixes into the
dictionary, and the bytes at their places are overwritten when the encoding goes
on at the position before it.  A later name may then be compressed to a pointer
that leads to other bytes.  A run is sound when, at every name, each entry that
the name would use leads to its suffix in the bytes in front of the cursor.
-/

namespace SmartDns.Dns

open Prog List
open Image (At ofList)

/-! ## The rounds of the decoder -/

section Rounds

variable {packet : Bytes} {packetSize size rounds ptr ptrJump : Nat} {isCompressed : Bool}
variable {output out : Bytes} {s t : Nat}

theorem domainLoop_room {outputLen : Nat}
    (h : domainLoop packet packetSize size rounds ptr isCompressed ptrJump output outputLen s
      = .done out t) :
    outputLen + 1 < size := by
  cases rounds with
  | zero => exact absurd h abort_ne_done
  | succ rounds =>
    rw [domainLoop] at h
    split at h
    next => exact absurd h fail_ne_done
    next htop => omega

theorem domainLoop_returns
    (h : domainLoop packet packetSize size (rounds + 1) ptr isCompressed ptrJump output
      output.length s = .done out t) :
    ptr < packetSize ∧ output.length + 1 < size ∧ ptrJump ≤ 32 ∧ ∃ len, packet[ptr]? = some len ∧
      RoundReturns packet packetSize size rounds ptr isCompressed output ptrJump s out t len := by
  rw [domainLoop] at h
  split at h
  next => exact absurd h fail_ne_done
  next htop =>
  simp only [bind_eq_done, orAbort_eq_done] at h
  obtain ⟨len, _, ⟨hlen, rfl⟩, h⟩ := h
  refine ⟨by omega, by omega, by omega, len, hlen, ?_⟩
  split at h
  next hzero =>
    simp only [bind_eq_done, storeName_eq_done, moveUnless_eq_done, pure_eq_done] at h
    obtain ⟨_, _, ⟨-, -, rfl⟩, _, _, rfl, rfl, rfl⟩ := h
    exact .inl ⟨hzero, rfl, rfl⟩
  next hne =>
  split at h
  next hpointer =>
    split at h
    next => exact absurd h fail_ne_done
    next hin =>
      simp only [bind_eq_done, orAbort_eq_done, moveUnless_eq_done] at h
      obtain ⟨bs, _, ⟨hread, rfl⟩, _, _, rfl, h⟩ := h
      split at h
      next => exact absurd h fail_ne_done
      next hoffset => exact .inr (.inl ⟨hpointer, by omega, bs, hread, by omega, h⟩)
  next hlabel =>
  simp only [bind_eq_done, storeName_eq_done] at h
  obtain ⟨_, _, ⟨-, rfl, rfl⟩, out₁, _, hcopy, h⟩ := h
  have hroom := domainLoop_room h
  obtain ⟨hin, ⟨bs, hread, -, rfl⟩, rfl⟩ := (copyLabel_eq_done hroom).mp hcopy
  have hbs : bs.length = len.toNat := (Image.at_of_read hread).1
  have hlength : (output ++ separator output ++ bs).length
      = output.length + (separator output).length + len.toNat := by
    rw [length_append, length_append, hbs]
  refine .inr (.inr ⟨hne, by omega, hin, bs, hread, ?_, ?_⟩)
  · rw [hlength]
    exact hroom
  · rw [hlength]
    exact h

end Rounds

/-! ## Reading the same bytes again -/

section Resume

variable {packet packet' : Bytes} {packetSize packetSize' size : Nat}

theorem readAt_agree (hsame : ∀ i, i < packetSize → packet'[i]? = packet[i]?)
    {i n : Nat} (hle : i + n ≤ packetSize) {bs : Bytes} (h : readAt packet i n = some bs) :
    readAt packet' i n = some bs := by
  obtain ⟨rfl, hat⟩ := Image.at_of_read h
  exact (hat.congr (fun k _ hk => hsame k (by omega))).read

/-- A decoder that has begun a name goes on in the same way in every memory that agrees
on the bytes it may read, whatever it has put out before. -/
theorem domainLoop_resume (size' : Nat) (hsame : ∀ i, i < packetSize → packet'[i]? = packet[i]?)
    (hle : packetSize ≤ packetSize')
    {rounds ptr ptrJump : Nat} {isCompressed : Bool} {output out : Bytes} {s t : Nat}
    (hout : output ≠ [])
    (h : domainLoop packet packetSize size rounds ptr isCompressed ptrJump output output.length s
      = .done out t) :
    ∃ rest, out = output ++ rest ∧
      ∀ (rounds' ptrJump' : Nat) (isCompressed' : Bool) (output' : Bytes) (s' : Nat),
        output' ≠ [] → output'.length + rest.length + 1 < size' →
        34 * (size' - output'.length) + (33 - ptrJump') + 1 ≤ rounds' → ptrJump' ≤ ptrJump →
        ∃ t', domainLoop packet' packetSize' size' rounds' ptr isCompressed' ptrJump' output'
          output'.length s' = .done (output' ++ rest) t' ∧ (isCompressed' = true → t' = s') := by
  induction rounds generalizing ptr ptrJump isCompressed output s with
  | zero => exact absurd h abort_ne_done
  | succ rounds ih =>
  obtain ⟨hptr, -, hjump, len, hlen, hround⟩ := domainLoop_returns h
  have hlen' : packet'[ptr]? = some len := (hsame ptr hptr).trans hlen
  have hone : ∀ {rounds' n : Nat}, n + 1 ≤ rounds' → ∃ r, rounds' = r + 1 :=
    fun {rounds' _} _ => ⟨rounds' - 1, by omega⟩
  rcases hround with ⟨hzero, rfl, rfl⟩ | ⟨hpointer, htwo, bs, hread, hoffset, hrest⟩ |
    ⟨hne, hlabel, hend, bs, hread, -, hrest⟩
  · refine ⟨[], by simp, ?_⟩
    intro rounds' ptrJump' isCompressed' output' s' hout' hfits hrounds hjump'
    obtain ⟨r, rfl⟩ := hone hrounds
    refine ⟨if isCompressed' then s' else ptr + 1, ?_, ?_⟩
    · rw [append_nil]
      exact domainLoop_of_round (by omega) (by simpa using hfits) (by omega) hlen'
        (.inl ⟨hzero, rfl, rfl⟩)
    · rintro rfl
      rfl
  · obtain ⟨rest, rfl, hall⟩ := ih hout hrest
    refine ⟨rest, rfl, ?_⟩
    intro rounds' ptrJump' isCompressed' output' s' hout' hfits hrounds hjump'
    obtain ⟨r, rfl⟩ := hone hrounds
    obtain ⟨t', hdone, hkept⟩ := hall r (ptrJump' + 1) true output'
      (if isCompressed' then s' else ptr + 2) hout' hfits (by omega) (by omega)
    refine ⟨t', ?_, ?_⟩
    · exact domainLoop_of_round (by omega) (by omega) (by omega) hlen'
        (.inr (.inl ⟨hpointer, by omega, bs, readAt_agree hsame htwo hread, by omega, hdone⟩))
    · rintro rfl
      exact hkept rfl
  have hsep : ∀ {o : Bytes}, o ≠ [] → separator o = [dot] := by
    intro o ho
    rw [separator, if_pos (length_pos_iff.mpr ho)]
  have hbs : bs.length = len.toNat := (Image.at_of_read hread).1
  have hbegun : output ++ separator output ++ bs ≠ [] := by simp [hout]
  obtain ⟨rest, hrest', hall⟩ := ih hbegun hrest
  refine ⟨[dot] ++ bs ++ rest, ?_, ?_⟩
  · rw [hrest', hsep hout]
    simp
  intro rounds' ptrJump' isCompressed' output' s' hout' hfits hrounds hjump'
  obtain ⟨r, rfl⟩ := hone hrounds
  simp only [length_append, length_singleton] at hfits
  have hlength : (output' ++ separator output' ++ bs).length
      = output'.length + 1 + len.toNat := by
    rw [hsep hout', length_append, length_append, hbs, length_singleton]
  obtain ⟨t', hdone, hkept⟩ := hall r 0 isCompressed' (output' ++ separator output' ++ bs) s'
    (by simp [hout']) (by rw [hlength]; omega) (by rw [hlength]; omega) (by omega)
  refine ⟨t', ?_, hkept⟩
  have hround' := domainLoop_of_round (by omega) (by omega) (by omega) hlen'
    (.inr (.inr ⟨hne, hlabel, by omega, bs, readAt_agree hsame hend hread,
      by rw [hlength]; omega, hdone⟩) : RoundReturns packet' packetSize' size' r ptr
      isCompressed' output' ptrJump' s' _ t' len)
  rw [hround', hsep hout']
  simp

/-- From the place the decoder reads the name, whatever it has put out before. -/
def Resumes (packet : Bytes) (packetSize pos : Nat) (name : Bytes) : Prop :=
  ∀ (size rounds ptrJump : Nat) (isCompressed : Bool) (output : Bytes) (s : Nat),
    (output ++ separator output ++ name).length + 1 < size →
    34 * (size - output.length) + (33 - ptrJump) + 1 ≤ rounds → ptrJump ≤ 32 →
    ∃ t, domainLoop packet packetSize size rounds pos isCompressed ptrJump output output.length s
      = .done (output ++ separator output ++ name) t ∧ (isCompressed = true → t = s)

/-- A name that is read from a label on is read again in every memory that agrees. -/
theorem resumes_of_decoded (hsame : ∀ i, i < packetSize → packet'[i]? = packet[i]?)
    (hle : packetSize ≤ packetSize') {pos : Nat} {name : Bytes} {j : Nat} {len : UInt8}
    (hlabel : packet[pos]? = some len) (hsmall : len.toNat < 0xC0) (hname : name ≠ [])
    (h : dnsGetDomainFromPacket packet packetSize size pos = .done name j) :
    Resumes packet' packetSize' pos name := by
  simp only [dnsGetDomainFromPacket, bind_eq_done, get_eq_done] at h
  obtain ⟨_, _, ⟨rfl, rfl⟩, h⟩ := h
  obtain ⟨hptr, -, -, len', hlen', hround⟩ := domainLoop_returns h
  obtain rfl : len = len' := by
    rw [hlabel] at hlen'
    exact Option.some.inj hlen'
  rcases hround with ⟨-, rfl, -⟩ | ⟨hpointer, -⟩ | ⟨hne, -, hend, bs, hread, -, hrest⟩
  · exact absurd rfl hname
  · omega
  have hbs : bs.length = len.toNat := (Image.at_of_read hread).1
  have hpos : 0 < len.toNat := by
    rcases Nat.eq_zero_or_pos len.toNat with h0 | h0
    · exact absurd (UInt8.toNat_inj.mp (by simpa using h0)) hne
    · exact h0
  have hbsne : bs ≠ [] := length_pos_iff.mp (by omega)
  intro size' rounds' ptrJump' isCompressed' output' s' hfits hrounds hjump'
  obtain ⟨rest, rfl, hall⟩ := domainLoop_resume size' hsame hle hbsne hrest
  obtain ⟨r, rfl⟩ : ∃ r, rounds' = r + 1 := ⟨rounds' - 1, by omega⟩
  simp only [length_append] at hfits
  obtain ⟨t', hdone, hkept⟩ := hall r 0 isCompressed' (output' ++ separator output' ++ bs) s'
    (by simp [hbsne]) (by simp only [length_append]; omega)
    (by simp only [length_append]; omega) (by omega)
  refine ⟨t', ?_, hkept⟩
  have hround' := domainLoop_of_round (by omega) (by omega) (by omega)
    ((hsame pos hptr).trans hlabel)
    (.inr (.inr ⟨hne, hsmall, by omega, bs, readAt_agree hsame hend hread,
      by simp only [length_append]; omega, hdone⟩) : RoundReturns packet' packetSize' size'
      r pos isCompressed' output' ptrJump' s' _ t' len)
  rw [hround']
  simp

/-- From a place where a name is spelt, the loop appends the text of the name. -/
theorem loopReads_speltAt {T : Nat → List Label → Prop} {W : Image UInt8}
    (hW : Image.Le W (ofList packet)) (hbelow : W.Below packetSize) (hT : ∀ pos ls, T pos ls →
      pos < 0x4000 ∧ pos < packetSize ∧ Resumes packet packetSize pos (text ls))
    {ptr : Nat} {ls : List Label} {j : Nat} (h : SpeltAt T W ptr ls j) :
    LoopReads packet packetSize size ptr ls j := by
  induction h with
  | root hzero => exact loopReads_root hW hbelow hzero
  | label hlabel _ ih =>
    exact fun _ _ _ _ _ hrounds hjump => ih.label hW hbelow hlabel hrounds (by omega)
  | @pointer i t l ls hpointer ht =>
  intro rounds ptrJump isCompressed output s hrounds hjump hfits
  obtain ⟨rounds, rfl⟩ : ∃ r, rounds = r + 1 := ⟨rounds - 1, by omega⟩
  obtain ⟨hsmall, hinside, hresumes⟩ := hT t _ ht
  rw [textAfter_cons, append_assoc, ← text] at hfits ⊢
  obtain ⟨t', hdone, hkept⟩ := hresumes size rounds (ptrJump + 1) true output
    (if isCompressed then s else i + 2) hfits (by omega) (by omega)
  rw [hkept rfl] at hdone
  simp only [length_append] at hfits
  exact domainLoop_pointer hW hbelow hpointer hsmall hinside (by omega) (by omega) hdone

end Resume

/-! ## Runs with failures -/

/-- Write one piece; after a failure the encoding goes on at the position before it. -/
def Writer.retry (w : Writer) (p : Piece) : Writer :=
  match writePiece p w.context with
  | .done _ c =>
    { w with
      context := c
      spans := w.spans ++ p.span w.context.ptr c.ptr }
  | .failed c => { w with context := { c with ptr := w.context.ptr } }
  | .fault _ => { w with ok := false }

/-- At `pos` stands a label from which the decoder reads `name`, in the bytes `front`. -/
def leadsTo (front : Bytes) (pos : Nat) (name : Bytes) : Bool :=
  decide (pos < 0x4000 ∧ (front.getD pos 0xFF).toNat < 0xC0) &&
    match dnsGetDomainFromPacket front front.length maxCnameLen pos with
    | .done out _ => out = name
    | _ => false

/-- The name can be written soundly, whatever failed before: it is not cut off to the
root, its suffixes have different hashes, and every entry of the dictionary with the hash
of a suffix leads to that suffix in the bytes in front of the cursor. -/
def NameLeads (c : Context) (n : DomainName) : Prop :=
  (n.labels ≠ [] → c.leftLen ≠ 2) ∧ SuffixesDiffer n.labels ∧
    ∀ s ∈ nameSuffixes n.labels, ∀ item ∈ c.namedict,
      item.hash = dictHash (text s) → leadsTo (c.data.take c.ptr) item.pos (text s) = true

instance (c : Context) (n : DomainName) : Decidable (NameLeads c n) :=
  inferInstanceAs (Decidable (_ ∧ _ ∧ _))

/-- The condition on the next piece, in the state before it is written. -/
def PieceLeads (w : Writer) : Piece → Prop
  | .name n => NameLeads w.context n
  | .bytes _ => True

instance (w : Writer) (p : Piece) : Decidable (PieceLeads w p) :=
  match p with
  | .name n => inferInstanceAs (Decidable (NameLeads w.context n))
  | .bytes _ => inferInstanceAs (Decidable True)

/-- The name of a span is read in every memory that agrees in front of its end. -/
def SpanReads (data : Bytes) (span : Span) : Prop :=
  ∀ (packet : Bytes) (packetSize size : Nat), (∀ i, i < span.stop → packet[i]? = data[i]?) →
    span.stop ≤ packetSize → 255 ≤ size →
    dnsGetDomainFromPacket packet packetSize size span.start
      = .done (text span.name.labels) span.stop

/-- The invariant of a run. -/
structure WriterReads (w : Writer) : Prop where
  ok : w.ok = true
  inside : w.context.maxsize ≤ w.context.data.length
  spans : ∀ span ∈ w.spans, span.stop ≤ w.context.ptr ∧ span.stop ≤ w.context.maxsize ∧
    SpanReads w.context.data span

section Runs

variable {w : Writer} {c : Context}

theorem SpanReads.congr {data data' : Bytes} {span : Span} (h : SpanReads data span)
    (hsame : ∀ i, i < span.stop → data'[i]? = data[i]?) :
    SpanReads data' span := by
  intro packet packetSize size hpacket hle hsize
  exact h packet packetSize size (fun i hi => (hpacket i hi).trans (hsame i hi)) hle hsize

theorem WriterReads.move
    (h : WriterReads w) {spans : List Span} (hframe : Context.Frame w.context.ptr w.context c)
    (hptr : w.context.ptr ≤ c.ptr)
    (hspans : ∀ span ∈ spans, span ∈ w.spans ∨ span.stop ≤ c.ptr ∧ span.stop ≤ c.maxsize ∧
      SpanReads c.data span) :
    WriterReads { w with context := c, spans := spans } := by
  constructor
  · exact h.ok
  · rw [hframe.maxsize, hframe.length]
    exact h.inside
  intro span hspan
  rcases hspans span hspan with hold | hnew
  · obtain ⟨hstop, hmax, hreads⟩ := h.spans span hold
    refine ⟨hstop.trans hptr, by rw [hframe.maxsize]; exact hmax, hreads.congr ?_⟩
    exact fun i hi => hframe.below i (by omega)
  · exact hnew

/-- An entry that leads to a suffix is good for the suffix as long as the bytes in front
of the cursor stay. -/
theorem resumes_of_leadsTo {ls : List Label} (hne : ls ≠ []) {pos : Nat}
    (h : leadsTo (c.data.take c.ptr) pos (text ls) = true) {packet : Bytes} {packetSize : Nat}
    (hsame : ∀ i, i < c.ptr → packet[i]? = c.data[i]?) (hle : c.ptr ≤ packetSize) :
    pos < 0x4000 ∧ pos < packetSize ∧ Resumes packet packetSize pos (text ls) := by
  rw [leadsTo, Bool.and_eq_true, decide_eq_true_iff] at h
  obtain ⟨⟨hsmall, hbyte⟩, hdecode⟩ := h
  cases hrun : dnsGetDomainFromPacket (c.data.take c.ptr) (c.data.take c.ptr).length maxCnameLen
      pos with
  | failed | fault =>
    rw [hrun] at hdecode
    cases hdecode
  | done out j =>
  simp only [hrun, decide_eq_true_iff] at hdecode
  rw [hdecode] at hrun
  cases hlen : (c.data.take c.ptr)[pos]? with
  | none =>
    rw [getD_eq_getElem?_getD, hlen] at hbyte
    exact absurd hbyte (by decide)
  | some len =>
  rw [getD_eq_getElem?_getD, hlen, Option.getD_some] at hbyte
  have hfront : (c.data.take c.ptr).length ≤ c.ptr := by
    rw [length_take]
    omega
  have hpos : pos < (c.data.take c.ptr).length := (List.getElem?_eq_some_iff.mp hlen).1
  have hagree : ∀ i, i < (c.data.take c.ptr).length → packet[i]? = (c.data.take c.ptr)[i]? := by
    intro i hi
    rw [hsame i (by omega), getElem?_take_of_lt (by omega)]
  exact ⟨hsmall, by omega, resumes_of_decoded hagree (hfront.trans hle) hlen hbyte
    (text_ne_nil hne) hrun⟩

/-- The places that a sound write may point to. -/
def Leads (c : Context) (pos : Nat) (s : List Label) : Prop :=
  s ≠ [] ∧ (text s).length ≤ 253 ∧ leadsTo (c.data.take c.ptr) pos (text s) = true

theorem Leads.checks (hroom : c.ptr ≤ c.maxsize) {pos : Nat} {s : List Label} (h : Leads c pos s) :
    pos < 0x4000 ∧ ∀ data : Bytes, data.length = c.data.length →
      (∀ i, i < c.ptr → data[i]? = c.data[i]?) → Checks data c.maxsize pos := by
  obtain ⟨hne, hfits, hleads⟩ := h
  refine ⟨(resumes_of_leadsTo hne hleads (fun _ _ => rfl) hroom).1, ?_⟩
  intro data _ hsame
  obtain ⟨-, -, hresumes⟩ := resumes_of_leadsTo hne hleads hsame hroom
  obtain ⟨t, hdone, -⟩ := hresumes maxCnameLen (34 * maxCnameLen + 34) 0 false [] pos
    (by simp [separator, maxCnameLen]; omega) (by simp) (by omega)
  have hrun : dnsGetDomainFromPacket data c.maxsize maxCnameLen pos
      = .done ([] ++ separator [] ++ text s) t := by
    simp only [dnsGetDomainFromPacket, bind_eq_done, get_eq_done]
    exact ⟨pos, pos, ⟨rfl, rfl⟩, hdone⟩
  rw [Checks, hrun]
  rfl

/-- A sound write of a name: it is read back in every memory that agrees up to its end. -/
theorem dnsEncodeDomain_reads
    {n : DomainName} (hsize : c.maxsize ≤ c.data.length) (hleads : NameLeads c n) :
    wp (dnsEncodeDomain n.toCStr)
      (fun _ c' => SpanReads c'.data ⟨n, c.ptr, c'.ptr⟩) (fun _ => True) c := by
  have hwriting := (Writing.refl hsize le_rfl).encodeDomain n.toCStr
  by_cases hroom : c.ptr ≤ c.maxsize
  · have hspelt := dnsEncodeDomain_spelt (n := n) (T := Leads c) hsize
      (fun pos s h => h.checks hroom)
      (fun s hs item hitem hhash => ⟨ne_nil_of_mem_nameSuffixes hs,
        (length_text_suffix hs).trans n.fits, hleads.2.2 s hs item hitem hhash⟩)
      hleads.2.1 hleads.1
    refine wp_mono (wp_and hspelt hwriting) ?_ (fun _ _ => trivial)
    rintro len c' ⟨⟨hname, -⟩, hwrote, hmoved, hpos, hroom'⟩
    intro packet packetSize size hpacket hle hsize'
    dsimp only at hpacket hle ⊢
    have hfits := n.fits
    have hbelow := writtenImage_below c'.data (i := c.ptr) (j := c'.ptr) (by omega)
    have hW : Image.Le (writtenImage c'.data c.ptr c'.ptr) (ofList packet) :=
      (writtenImage_le _ _ _).congr hbelow hpacket
    have hT : ∀ pos ls, Leads c pos ls →
        pos < 0x4000 ∧ pos < packetSize ∧ Resumes packet packetSize pos (text ls) := by
      rintro pos ls ⟨hne, -, hlead⟩
      refine resumes_of_leadsTo hne hlead ?_ (by omega)
      exact fun i hi => (hpacket i (by omega)).trans (hwrote.frame.below i hi)
    exact (loopReads_speltAt hW (hbelow.mono hle) hT hname).decodes (by omega)
  · -- a cursor behind the end leaves no room
    refine wp_mono hwriting ?_ (fun _ _ => trivial)
    rintro len c' ⟨hwrote, hmoved, hpos, hroom'⟩
    have hmax := hwrote.frame.maxsize
    omega

/-- One piece keeps the invariant, whether it is written or fails. -/
theorem WriterReads.retry (h : WriterReads w) {p : Piece} (hsafe : PieceLeads w p) :
    WriterReads (w.retry p) := by
  cases p with
  | name n =>
    have hreads := dnsEncodeDomain_reads h.inside hsafe
    have hwriting := (Writing.refl h.inside le_rfl).encodeDomain n.toCStr
    have hpiece : wp (writePiece (.name n)) (fun _ c' =>
        SpanReads c'.data ⟨n, w.context.ptr, c'.ptr⟩ ∧
          Writing w.context.ptr w.context c' ∧ c'.ptr < c'.maxsize)
        (Writing w.context.ptr w.context) w.context := by
      simp only [writePiece, wp_bind, wp_pure]
      exact wp_mono (wp_and hreads hwriting) (fun _ _ h => ⟨h.1, h.2.1, h.2.2.2.2⟩) (fun _ h => h.2)
    rw [Writer.retry]
    cases hrun : writePiece (.name n) w.context with
    | done u c =>
      obtain ⟨hspan, hwrote, hroom⟩ := hpiece.post hrun
      refine h.move hwrote.frame hwrote.start ?_
      intro span hspan'
      rcases mem_append.mp hspan' with hold | hnew
      · exact .inl hold
      obtain rfl : span = ⟨n, w.context.ptr, c.ptr⟩ := by simpa [Piece.span, Piece.name?] using hnew
      exact .inr ⟨le_rfl, hroom.le, hspan⟩
    | failed c =>
      have hwrote : Writing w.context.ptr w.context c := by simpa only [wp, hrun] using hpiece
      refine h.move ⟨hwrote.frame.length, hwrote.frame.maxsize, hwrote.frame.below⟩ le_rfl
        (fun span hspan => .inl hspan)
    | fault e => simp only [wp, hrun] at hpiece
  | bytes bs =>
  have hpiece : wp (writePiece (.bytes bs))
      (fun _ c' => Writing w.context.ptr w.context c') (fun c' => c' = w.context)
      w.context := by
    simp only [writePiece, wp_bind, wp_failWhen]
    refine ⟨fun _ => trivial, fun hleft => ?_⟩
    exact wp_post ((Writing.refl h.inside le_rfl).writeBytes bs hleft) (fun _ _ h => h.1)
  rw [Writer.retry]
  cases hrun : writePiece (.bytes bs) w.context with
  | done u c =>
    have hwrote := hpiece.post hrun
    refine h.move hwrote.frame hwrote.start ?_
    intro span hspan
    exact .inl (by simpa [Piece.span, Piece.name?] using hspan)
  | failed c =>
    obtain rfl : c = w.context := by simpa only [wp, hrun] using hpiece
    exact h
  | fault e => simp only [wp, hrun] at hpiece

/--
**Names survive failed writes.**  From every context, in every run in which each name
that is written is led to its suffixes in the bytes in front of the cursor, every name
that was written is read back at its offset, whatever failed before and after it.
-/
theorem names_survive_failures
    (c : Context) (hsize : c.maxsize ≤ c.data.length) (pieces : List Piece)
    (hsafe : Admissible Writer.retry PieceLeads ⟨c, true, []⟩ pieces) :
    let w := run Writer.retry ⟨c, true, []⟩ pieces
    w.ok = true ∧ ∀ span ∈ w.spans, ∀ size, 255 ≤ size →
      dnsGetDomainFromPacket w.context.data w.context.maxsize size span.start
        = .done (text span.name.labels) span.stop := by
  intro w
  have hinv : WriterReads w :=
    run_invariant Writer.retry WriterReads (fun _ _ h hok => h.retry hok)
      ⟨rfl, hsize, fun _ hspan => absurd hspan not_mem_nil⟩ hsafe
  refine ⟨hinv.ok, ?_⟩
  intro span hspan size hsize
  obtain ⟨-, hmax, hreads⟩ := hinv.spans span hspan
  exact hreads w.context.data w.context.maxsize size (fun _ _ => rfl) hmax hsize

/-- A name of two labels that fails, and two names that fit behind it. -/
def failThenFit : List Piece :=
  [.name ⟨[⟨ascii "abcdef", by decide, by decide, plain_of_all (by decide)⟩,
      ⟨ascii "ghi", by decide, by decide, plain_of_all (by decide)⟩], by decide⟩,
    .name (singleLabel "k" (by decide) (by decide) (plain_of_all (by decide))),
    .name (singleLabel "l" (by decide) (by decide) (plain_of_all (by decide)))]

theorem names_survive_failures_fit :
    (run Writer.retry ⟨⟨List.replicate 10 0, 10, 0, []⟩, true, []⟩ failThenFit).spans.length = 2 ∧
      dnsGetDomainFromPacket
        (run Writer.retry ⟨⟨List.replicate 10 0, 10, 0, []⟩, true, []⟩ failThenFit).context.data
        (run Writer.retry ⟨⟨List.replicate 10 0, 10, 0, []⟩, true, []⟩ failThenFit).context.maxsize
        256 3 = .done (ascii "l") 6 := by
  refine ⟨by decide +kernel, ?_⟩
  have h := (names_survive_failures ⟨List.replicate 10 0, 10, 0, []⟩ (by decide) failThenFit
    ⟨by decide +kernel, by decide +kernel, by decide +kernel, trivial⟩).2
  exact h ⟨singleLabel "l" (by decide) (by decide) (plain_of_all (by decide)), 3, 6⟩
    (by decide +kernel) 256 (by decide)

/-- A name that fails, one whose end comes to stand where the failed one entered its last
label, and that label alone. -/
def failThenReuse : List Piece :=
  [.name ⟨[⟨ascii "ab", by decide, by decide, plain_of_all (by decide)⟩,
      ⟨ascii "cd", by decide, by decide, plain_of_all (by decide)⟩,
      ⟨ascii "efghijklm", by decide, by decide, plain_of_all (by decide)⟩], by decide⟩,
    .name (singleLabel "abcde" (by decide) (by decide) (plain_of_all (by decide))),
    .name (singleLabel "efghijklm" (by decide) (by decide) (plain_of_all (by decide)))]

/-- The third name is written as a pointer to the end of the second, and is read as the
root. -/
theorem name_lost_after_failure :
    (run Writer.retry ⟨⟨List.replicate 16 0, 16, 0, []⟩, true, []⟩ failThenReuse).spans
        = [⟨singleLabel "abcde" (by decide) (by decide) (plain_of_all (by decide)), 0, 7⟩,
          ⟨singleLabel "efghijklm" (by decide) (by decide) (plain_of_all (by decide)), 7, 9⟩] ∧
      dnsGetDomainFromPacket
        (run Writer.retry ⟨⟨List.replicate 16 0, 16, 0, []⟩, true, []⟩ failThenReuse).context.data
        16 256 7 = .done [] 9 := by
  decide +kernel

end Runs

end SmartDns.Dns
