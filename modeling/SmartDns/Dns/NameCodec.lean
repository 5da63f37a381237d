import SmartDns.Dns.NameSafe

/-!
# Name compression is lossless

The decoder returns the name that stands at its cursor (`NameAt`).  The
encoder keeps an invariant that relates every dictionary entry to the bytes
already written: at the place of the entry stands a name with the hash of the
entry.  A write is sound when no entry with the hash of one of its suffixes
leads to another name.
-/

namespace SmartDns.Dns

open Prog Image List
open Image (At ofList)

variable {i j ptrNum t totalLen : Nat} {ls : List Label} {T : Nat → List Label → Prop}

/-! ## Decoding what stands in the packet -/

section Rounds

variable {packet : Bytes} {packetSize size rounds ptr ptrJump : Nat} {isCompressed : Bool}
variable {output out : Bytes} {s t : Nat}

/-- What stands between a name and its next label. -/
def separator (output : Bytes) : Bytes :=
  if 0 < output.length then [dot] else []

theorem moveUnless_eq_done {u : Unit} :
    moveUnless isCompressed ptr s = .done u t ↔ (if isCompressed then s else ptr) = t := by
  cases isCompressed with
  | true => simp [moveUnless]
  | false => simp [moveUnless]

theorem storeName_eq_done {σ : Type} {x y : σ} {outputLen : Nat} {bs out : Bytes} :
    storeName size outputLen output bs x = .done out y ↔
      outputLen + bs.length ≤ size ∧ output ++ bs = out ∧ x = y := by
  rw [storeName]
  split
  next h => simp [h]
  next h => simp [h]

/-- A round of the decoder that returns: it meets the end of the name, a pointer or a
label, which is copied whole. -/
def RoundReturns (packet : Bytes) (packetSize size rounds ptr : Nat) (isCompressed : Bool)
    (output : Bytes) (ptrJump s : Nat) (out : Bytes) (t : Nat) : UInt8 → Prop := fun len =>
  len = 0 ∧ out = output ∧ t = (if isCompressed then s else ptr + 1) ∨
  (0xC0 ≤ len.toNat ∧ ptr + 2 ≤ packetSize ∧ ∃ bs, readAt packet ptr 2 = some bs ∧
    beNat bs &&& 0x3FFF ≤ packetSize ∧
    domainLoop packet packetSize size rounds (beNat bs &&& 0x3FFF) true (ptrJump + 1) output
      output.length (if isCompressed then s else ptr + 2) = .done out t) ∨
  (len ≠ 0 ∧ len.toNat < 0xC0 ∧ ptr + 1 + len.toNat ≤ packetSize ∧
    ∃ bs, readAt packet (ptr + 1) len.toNat = some bs ∧
      (output ++ separator output ++ bs).length + 1 < size ∧
      domainLoop packet packetSize size rounds (ptr + 1 + len.toNat) isCompressed 0
        (output ++ separator output ++ bs) (output ++ separator output ++ bs).length s
        = .done out t)

theorem copyLabel_eq_done {len outputLen : Nat} {x y : Nat} (hroom : outputLen + len + 1 < size) :
    copyLabel packet packetSize size len ptr outputLen output x = .done out y ↔
      ptr + len ≤ packetSize ∧ (∃ bs, readAt packet ptr len = some bs ∧
        outputLen + bs.length ≤ size ∧ output ++ bs = out) ∧ x = y := by
  rw [copyLabel, if_pos (by omega)]
  simp only [if_pos (show len + outputLen < size by omega)]
  split
  next hout =>
    constructor
    · exact fun h => absurd h fail_ne_done
    · rintro ⟨hle, -⟩
      omega
  next hin =>
  simp only [bind_eq_done, orAbort_eq_done, storeName_eq_done]
  constructor
  · rintro ⟨bs, _, ⟨hread, rfl⟩, hfits, hcopy, rfl⟩
    exact ⟨by omega, ⟨bs, hread, hfits, hcopy⟩, rfl⟩
  · rintro ⟨-, ⟨bs, hread, hfits, hcopy⟩, rfl⟩
    exact ⟨bs, x, ⟨hread, rfl⟩, hfits, hcopy, rfl⟩

theorem domainLoop_of_round
    (hptr : ptr < packetSize) (hroom : output.length + 1 < size) (hjump : ptrJump ≤ 32)
    {len : UInt8} (hlen : packet[ptr]? = some len)
    (hround : RoundReturns packet packetSize size rounds ptr isCompressed output ptrJump s out t
      len) :
    domainLoop packet packetSize size (rounds + 1) ptr isCompressed ptrJump output
      output.length s = .done out t := by
  rw [domainLoop, if_neg (by omega), bind_eq_done]
  refine ⟨len, s, orAbort_eq_done.mpr ⟨hlen, rfl⟩, ?_⟩
  rcases hround with ⟨hzero, rfl, rfl⟩ | ⟨hpointer, hin, bs, hread, hoffset, hrest⟩ |
    ⟨hne, hlabel, hin, bs, hread, hfits, hrest⟩
  · rw [if_pos hzero]
    simp only [bind_eq_done, storeName_eq_done, moveUnless_eq_done, pure_eq_done]
    exact ⟨_, s, ⟨by simp; omega, rfl, rfl⟩, (), _, rfl, trivial, rfl⟩
  · have hne : len ≠ 0 := by
      rintro rfl
      simp at hpointer
    rw [if_neg hne, if_pos hpointer, if_neg (by omega)]
    simp only [bind_eq_done, orAbort_eq_done, moveUnless_eq_done]
    refine ⟨bs, s, ⟨hread, rfl⟩, (), _, rfl, ?_⟩
    rw [if_neg (by omega)]
    exact hrest
  have hbs : bs.length = len.toNat := (Image.at_of_read hread).1
  have hlength : (output ++ separator output ++ bs).length
      = output.length + (separator output).length + len.toNat := by
    rw [length_append, length_append, hbs]
  rw [hlength] at hfits
  rw [if_neg hne, if_neg (by omega)]
  simp only [bind_eq_done, storeName_eq_done]
  refine ⟨output ++ separator output, s, ⟨?_, rfl, rfl⟩, output ++ separator output ++ bs, s, ?_,
    ?_⟩
  · simp only [separator] at hfits ⊢
    omega
  · refine (copyLabel_eq_done ?_).mpr ⟨hin, ⟨bs, hread, ?_, rfl⟩, rfl⟩
    · exact hfits
    · simp only [separator] at hfits ⊢
      omega
  · rw [hlength] at hrest
    exact hrest

end Rounds

section Decode

variable {packet : Bytes} {packetSize size : Nat}
variable {G : Image UInt8}
variable {rounds ptr ptrJump : Nat} {isCompressed : Bool} {output out : Bytes} {s : Nat}

theorem lt_packetSize (hG : G.Below packetSize) {b : UInt8} (hi : G i = some b) :
    i < packetSize := by
  by_contra hge
  rw [hG i (by omega)] at hi
  cases hi

/-- The text of the labels still to come, when `output` was already written. -/
def textAfter (output : Bytes) (ls : List Label) : Bytes :=
  if output = [] then text ls else dotted ls

theorem domainLoop_pointer (hle : Image.Le G (ofList packet)) (hG : G.Below packetSize)
    (hpointer : G.At ptr (beBytes 2 (0xC000 + t))) (ht : t < 0x4000) (htarget : t < packetSize)
    (hfits : output.length + 1 < size) (hjump : ptrJump ≤ 32)
    (hrest : domainLoop packet packetSize size rounds t true (ptrJump + 1) output output.length
      (if isCompressed then s else ptr + 2) = .done out j) :
    domainLoop packet packetSize size (rounds + 1) ptr isCompressed ptrJump output output.length s
      = .done out j := by
  have hbytes : beBytes 2 (0xC000 + t) =
      [UInt8.ofNat ((0xC000 + t) / 256), UInt8.ofNat (0xC000 + t)] := by
    simp [beBytes]
  have hcells := hpointer
  rw [hbytes, at_cons, at_cons] at hcells
  obtain ⟨hfirst, hsecond, -⟩ := hcells
  have hlt := lt_packetSize hG hfirst
  have hlt' := lt_packetSize hG hsecond
  have hhigh : 0xC0 ≤ (UInt8.ofNat ((0xC000 + t) / 256)).toNat := by
    simp only [UInt8.toNat_ofNat']
    omega
  have hoffset : beNat (beBytes 2 (0xC000 + t)) &&& 0x3FFF = t := by
    rw [beNat_beBytes, show (0x3FFF : Nat) = 2 ^ 14 - 1 by rfl, Nat.and_two_pow_sub_one_eq_mod]
    omega
  refine domainLoop_of_round hlt hfits hjump (hle _ _ hfirst) (.inr (.inl ⟨hhigh, by omega, _,
    by simpa using (hpointer.mono hle).read, ?_⟩))
  rw [hoffset]
  exact ⟨by omega, hrest⟩

theorem domainLoop_label (hle : Image.Le G (ofList packet)) (hG : G.Below packetSize) {l : Label}
    (hlabel : G.At ptr l.wire)
    (hfits : (output ++ separator output ++ l.bytes).length + 1 < size) (hjump : ptrJump ≤ 32)
    (hrest : domainLoop packet packetSize size rounds (ptr + l.wire.length) isCompressed 0
      (output ++ separator output ++ l.bytes) (output ++ separator output ++ l.bytes).length s
      = .done out j) :
    domainLoop packet packetSize size (rounds + 1) ptr isCompressed ptrJump output output.length s
      = .done out j := by
  rw [Label.wire, at_cons] at hlabel
  obtain ⟨hlen, hbytes⟩ := hlabel
  have hnat := l.toNat_ofNat_length
  have hpos := l.length_pos
  have hshort := l.short
  have hne : UInt8.ofNat l.bytes.length ≠ 0 := by
    intro h
    rw [h] at hnat
    simp at hnat
    omega
  have hend : ptr + 1 + l.bytes.length ≤ packetSize := by
    have hlast := hbytes (l.bytes.length - 1) _ (getElem?_eq_getElem (by omega))
    have := lt_packetSize hG hlast
    omega
  refine domainLoop_of_round (lt_packetSize hG hlen) ?_ hjump (hle _ _ hlen)
    (.inr (.inr ⟨hne, by omega, by omega, l.bytes, ?_, hfits, ?_⟩))
  · simp only [length_append] at hfits
    omega
  · rw [hnat]
    exact (hbytes.mono hle).read
  · rw [hnat]
    simpa [Nat.add_assoc, Nat.add_comm 1] using hrest

theorem textAfter_cons (output : Bytes) (l : Label) (ls : List Label) :
    output ++ textAfter output (l :: ls) = output ++ separator output ++ l.bytes ++ dotted ls := by
  cases output with
  | nil => simp [textAfter, text, separator]
  | cons b output => simp [textAfter, dotted, separator]

/-- From the place the loop appends the text of the labels, whatever it has put out before. -/
def LoopReads (packet : Bytes) (packetSize size ptr : Nat) (ls : List Label) (j : Nat) : Prop :=
  ∀ ⦃rounds ptrJump : Nat⦄ ⦃isCompressed : Bool⦄ ⦃output : Bytes⦄ ⦃s : Nat⦄,
    34 * (size - output.length) + (33 - ptrJump) + 1 ≤ rounds → ptrJump ≤ 31 →
    (output ++ textAfter output ls).length + 1 < size →
    domainLoop packet packetSize size rounds ptr isCompressed ptrJump output output.length s =
      .done (output ++ textAfter output ls) (if isCompressed then s else j)

theorem loopReads_root (hle : Image.Le G (ofList packet)) (hG : G.Below packetSize)
    (hzero : G ptr = some 0) :
    LoopReads packet packetSize size ptr [] (ptr + 1) := by
  intro rounds ptrJump isCompressed output s hrounds hjump hfits
  obtain ⟨rounds, rfl⟩ : ∃ r, rounds = r + 1 := ⟨rounds - 1, by omega⟩
  have hend : output ++ textAfter output [] = output := by simp [textAfter, text, dotted]
  rw [hend] at hfits ⊢
  exact domainLoop_of_round (lt_packetSize hG hzero) hfits (by omega) (hle _ _ hzero)
    (.inl ⟨rfl, rfl, rfl⟩)

theorem LoopReads.label (hle : Image.Le G (ofList packet)) (hG : G.Below packetSize) {l : Label}
    (hlabel : G.At ptr l.wire) (hrest : LoopReads packet packetSize size (ptr + l.wire.length) ls j)
    (hrounds : 34 * (size - output.length) + (33 - ptrJump) + 1 ≤ rounds) (hjump : ptrJump ≤ 32)
    (hfits : (output ++ textAfter output (l :: ls)).length + 1 < size) :
    domainLoop packet packetSize size rounds ptr isCompressed ptrJump output output.length s =
      .done (output ++ textAfter output (l :: ls)) (if isCompressed then s else j) := by
  obtain ⟨rounds, rfl⟩ : ∃ r, rounds = r + 1 := ⟨rounds - 1, by omega⟩
  have hafter : textAfter (output ++ separator output ++ l.bytes) ls = dotted ls := by
    simp [textAfter, l.nonempty]
  have hlpos := l.length_pos
  rw [textAfter_cons, ← hafter] at hfits ⊢
  simp only [length_append] at hfits
  refine domainLoop_label hle hG hlabel (by simp only [length_append]; omega) hjump ?_
  exact hrest (by simp only [length_append]; omega) (by omega)
    (by simp only [length_append]; omega)

/-- From a place where a name stands, the loop appends the text of the name. -/
theorem loopReads_nameAt (hle : Image.Le G (ofList packet)) (hG : G.Below packetSize)
    (hname : NameAt G ptr ls j) :
    LoopReads packet packetSize size ptr ls j := by
  induction hname with
  | root hzero => exact loopReads_root hle hG hzero
  | label hlabel _ ih =>
    exact fun _ _ _ _ _ hrounds hjump => ih.label hle hG hlabel hrounds (by omega)
  | @pointer i t j l ls hpointer ht hlabel _ ih =>
  -- the pointer and the label it leads to take two rounds
  intro rounds ptrJump isCompressed output s hrounds hjump hfits
  obtain ⟨rounds, rfl⟩ : ∃ r, rounds = r + 1 := ⟨rounds - 1, by omega⟩
  have htarget := lt_packetSize hG (at_cons.mp hlabel).1
  refine domainLoop_pointer hle hG hpointer ht htarget
    (by rw [length_append] at hfits; omega) (by omega) ?_
  exact ih.label hle hG hlabel (by omega) (by omega) hfits

/-- **The decoder returns the name at its cursor** and moves to the end of its
bytes there. -/
theorem LoopReads.decodes (h : LoopReads packet packetSize size ptr ls j)
    (hfits : (text ls).length + 1 < size) :
    dnsGetDomainFromPacket packet packetSize size ptr = .done (text ls) j :=
  h (by simp) (by omega) (by simpa [textAfter] using hfits)

theorem dnsGetDomainFromPacket_nameAt
    (hle : Image.Le G (ofList packet)) (hG : G.Below packetSize) (hname : NameAt G ptr ls j)
    (hfits : (text ls).length + 1 < size) :
    dnsGetDomainFromPacket packet packetSize size ptr = .done (text ls) j :=
  (loopReads_nameAt hle hG hname).decodes hfits

end Decode

/-! ## Encoding a name -/

section Encode

variable {G : Image UInt8} {c : Context} {Q : Nat → Context → Prop}

/-- Every entry of the dictionary that a suffix of the name would match leads
to that suffix. -/
def MatchOk (G : Image UInt8) (namedict : List DictItem) (ls : List Label) : Prop :=
  ∀ s ∈ nameSuffixes ls, ∀ item ∈ namedict, item.hash = dictHash (text s) → TargetAt G item.pos s

/-- No two suffixes of the name have the same hash. -/
def SuffixesDiffer (ls : List Label) : Prop :=
  (nameSuffixes ls).Pairwise (fun s t => dictHash (text s) ≠ dictHash (text t))

/-- What the write of a name adds to the dictionary. -/
def Added (G : Image UInt8) (namedict namedict' : List DictItem) (ls : List Label) : Prop :=
  ∃ new, namedict' = namedict ++ new ∧
    ∀ item ∈ new, ∃ s ∈ nameSuffixes ls, item.hash = dictHash (text s) ∧ TargetAt G item.pos s

/-- A write that has no room for one more character fails, unless nothing was
written yet and exactly one byte is left behind the length byte. -/
theorem encodeDomainEnd_full {num : Nat} (hsize : c.maxsize ≤ c.data.length) (hnum : ptrNum < c.ptr)
    (hfull : c.leftLen ≤ 1) (hbegun : 1 < totalLen ∨ c.leftLen ≠ 1) :
    wp (encodeDomainEnd ptrNum num totalLen) Q (fun _ => True) c := by
  simp only [encodeDomainEnd, wp_bind, wp_failWhen]
  refine ⟨fun _ => trivial, fun hleft => ?_⟩
  have hbegun : 1 < totalLen := by omega
  simp only [Context.leftLen] at hleft hfull
  refine wp_patch (by simp; omega) ?_
  rw [if_pos hbegun, wp_bind]
  refine wp_writeBytes (by simp [length_overwrite (show ptrNum + [UInt8.ofNat num].length ≤
    c.data.length by simp; omega)]; omega) ?_
  simp only [wp_bind, wp_failWhen]
  refine ⟨fun _ => trivial, fun hroom => ?_⟩
  simp only [Context.leftLen, length_singleton] at hroom
  omega

theorem wp_encodeDomainLoop_label (bytes rest : Bytes) (hplain : ∀ b ∈ bytes, b ≠ dot) {num : Nat}
    (hsize : c.maxsize ≤ c.data.length) (hnum : ptrNum < c.ptr) (htotal : 1 ≤ totalLen)
    (hbegun : 1 < totalLen ∨ c.leftLen ≠ 1)
    (hrest : (bytes ≠ [] → c.ptr + bytes.length < c.maxsize) →
      wp (encodeDomainLoop rest none ptrNum (num + bytes.length) (totalLen + bytes.length))
        Q (fun _ => True)
        { c with data := overwrite c.data c.ptr bytes, ptr := c.ptr + bytes.length }) :
    wp (encodeDomainLoop (bytes ++ rest) none ptrNum num totalLen) Q (fun _ => True) c := by
  induction bytes generalizing num totalLen c with
  | nil => simpa using hrest (fun h => absurd rfl h)
  | cons b bytes ih =>
  refine wp_ite (fun hfull => encodeDomainEnd_full hsize hnum hfull hbegun) (fun hleft => ?_)
  simp only [Context.leftLen] at hleft
  have hb : b ≠ dot := hplain b (mem_cons_self ..)
  rw [if_neg hb, wp_bind]
  have hin : c.ptr + [b].length ≤ c.data.length := by
    simp only [length_singleton]
    omega
  refine wp_writeBytes hin ?_
  refine ih (fun b' hb' => hplain b' (mem_cons_of_mem _ hb')) ?_ ?_ (by omega) ?_ ?_
  · simpa [length_overwrite hin] using hsize
  · simp only [length_singleton]
    omega
  · left
    omega
  intro hroom
  simp only [length_singleton, Nat.add_assoc, Nat.add_comm 1] at hroom
  have hroom' : c.ptr + (b :: bytes).length < c.maxsize := by
    by_cases hnil : bytes = []
    · subst hnil
      simp only [length_singleton]
      omega
    · simpa using hroom hnil
  have hjoin := overwrite_append (m := c.data) (i := c.ptr) [b] bytes
    (by simpa using (hroom'.trans_le hsize).le)
  simp only [length_singleton, singleton_append] at hjoin
  have h := hrest (fun _ => hroom')
  simp only [length_singleton, hjoin]
  simpa [Nat.add_assoc, Nat.add_comm 1] using h

/-- The rest of a name, from the length byte of its first label on. -/
def encodeSuffix (domain : Bytes) (ptrNum totalLen : Nat) : Prog DnsFault Context Nat := do
  let dictOffset ← dnsGetDomainOffset domain
  encodeDomainLoop domain dictOffset ptrNum 0 totalLen

theorem encodeSuffix_safe
    (domain : Bytes) {lo : Nat} (hsize : c.maxsize ≤ c.data.length) (hlo : lo ≤ ptrNum)
    (hnum : ptrNum < c.ptr) :
    wp (encodeSuffix domain ptrNum totalLen) (Encoded lo c totalLen c) (Writing lo c) c := by
  simp only [encodeSuffix, wp_bind]
  refine wp_mono (dnsGetDomainOffset_safe hsize domain) ?_ (fun _ h => h.elim)
  rintro offset _ ⟨namedict, rfl⟩
  have hstart : lo ≤ c.ptr := by omega
  refine wp_mono (encodeDomainLoop_safe domain offset ptrNum 0 totalLen
    ((Writing.refl hsize hstart).move _ hstart namedict) hlo hnum) ?_ (fun _ h => h.writing)
  intro n c' h
  exact ⟨h.writing, h.moved, h.forward, h.room⟩

/-- Without room for a character nothing but the root is written. -/
theorem encodeSuffix_full {domain : Bytes} (hne : domain ≠ []) (hsize : c.maxsize ≤ c.data.length)
    (hnum : ptrNum < c.ptr) (hfull : c.leftLen ≤ 1) (hbegun : 1 < totalLen ∨ c.leftLen ≠ 1) :
    wp (encodeSuffix domain ptrNum totalLen) Q (fun _ => True) c := by
  simp only [encodeSuffix, wp_bind]
  refine wp_mono (dnsGetDomainOffset_safe hsize domain) ?_ (fun _ h => h.elim)
  rintro offset _ ⟨namedict, rfl⟩
  cases domain with
  | nil => exact absurd rfl hne
  | cons b domain =>
    simp only [encodeDomainLoop, wp_bind, wp_get]
    rw [if_pos (by exact hfull)]
    exact encodeDomainEnd_full hsize hnum hfull hbegun

/-- The decoder accepts what stands at a place. -/
def Checks (data : Bytes) (maxsize pos : Nat) : Prop :=
  (dnsGetDomainFromPacket data maxsize maxCnameLen pos).isDone = true

/-- The lookup finds a place of the name, or enters it at the length byte that was just
reserved. -/
theorem wp_dnsGetDomainOffset
    {Q : Option Nat → Context → Prop} {E : Context → Prop} (hne : ls ≠ []) {T : Nat → Prop}
    (hmatch : ∀ item ∈ c.namedict, item.hash = dictHash (text ls) → T item.pos)
    (hcheck : ∀ pos, T pos → Checks c.data c.maxsize pos) (hfound : ∀ pos, T pos → Q (some pos) c)
    (hnew : ∀ new, new = [] ∨ new = [⟨(c.ptr - 1) % 2 ^ 16, dictHash (text ls)⟩] →
      Q none { c with namedict := c.namedict ++ new }) :
    wp (dnsGetDomainOffset (text ls)) Q E c := by
  rw [dnsGetDomainOffset, if_neg (text_ne_nil hne)]
  simp only [wp_bind, wp_get]
  cases hfind : c.namedict.find? (fun item => item.hash = dictHash (text ls)) with
  | some item =>
    have hhash : item.hash = dictHash (text ls) := by simpa using find?_some hfind
    have htarget := hmatch item (mem_of_find?_eq_some hfind) hhash
    obtain ⟨out, j, hdone⟩ := Outcome.eq_done_of_isDone (hcheck item.pos htarget)
    simp only [wp_bind, wp_attempt, wp_aside, wp_pure]
    exact wp_of_done hdone (hfound item.pos htarget)
  | none =>
    have hkeep : Q none c := by simpa using hnew [] (Or.inl rfl)
    simp only [wp_bind, wp_attempt, wp_pure, dnsAddDomainDict, wp_failWhen, wp_modify]
    exact ⟨fun _ => hkeep, fun _ => ⟨fun _ => hkeep, fun _ =>
      ⟨fun _ => hkeep, fun _ => hnew _ (Or.inr rfl)⟩⟩⟩

/-- A label whose characters were written behind its length byte. -/
theorem label_written
    (data : Bytes) (q : Nat) (l : Label) (hin : q + 1 + l.bytes.length ≤ data.length) :
    let data' := overwrite (overwrite data (q + 1) l.bytes) q [UInt8.ofNat l.bytes.length]
    data'.length = data.length ∧ At (ofList data') q l.wire ∧
      ∀ i, i < q → data'[i]? = data[i]? := by
  intro data'
  have hlen : (overwrite data (q + 1) l.bytes).length = data.length := length_overwrite hin
  have hnum : q + [UInt8.ofNat l.bytes.length].length ≤
      (overwrite data (q + 1) l.bytes).length := by
    rw [hlen, length_singleton]
    omega
  refine ⟨(length_overwrite hnum).trans hlen, ?_, ?_⟩
  · rw [Label.wire, at_cons]
    constructor
    · exact (at_cons.mp (at_overwrite hnum)).1
    · exact (at_overwrite hin).overwrite hnum (Or.inr (by simp))
  · intro i hi
    rw [getElem?_overwrite hnum, if_neg (by omega), getElem?_overwrite hin, if_neg (by omega)]

/-- The bytes that were written from `i` to `j`. -/
def writtenImage (data : Bytes) (i j : Nat) : Image UInt8 :=
  cover (fun _ => none) data i j

theorem writtenImage_le (data : Bytes) (i j : Nat) :
    Image.Le (writtenImage data i j) (ofList data) := by
  exact cover_le_ofList nofun

theorem writtenImage_below (data : Bytes) (hij : i ≤ j) : (writtenImage data i j).Below j := by
  exact Image.Below.cover (fun _ _ => rfl) hij

theorem at_writtenImage
    {data bs : Bytes} {n : Nat} (h : At (ofList data) n bs) (hi : i ≤ n) (hj : n + bs.length ≤ j) :
    At (writtenImage data i j) n bs := by
  exact h.cover hi hj

theorem writtenImage_mono (data : Bytes) {i' : Nat} (hi : i ≤ i') :
    Image.Le (writtenImage data i' j) (writtenImage data i j) := by
  intro k a hk
  simp only [writtenImage, cover] at hk ⊢
  split at hk
  next hin =>
    rw [if_pos ⟨by omega, hin.2⟩]
    exact hk
  next => cases hk

/-- What the write of a name enters into the dictionary. -/
def Entered (T : Nat → List Label → Prop) (W : Image UInt8) (namedict namedict' : List DictItem)
    (ls : List Label) : Prop :=
  ∃ new, namedict' = namedict ++ new ∧
    ∀ item ∈ new, ∃ s ∈ nameSuffixes ls, item.hash = dictHash (text s) ∧
      ∃ place, item.pos = place % 2 ^ 16 ∧ LabelAt T W place s

/-- The entry made for a name that was then written at its place. -/
theorem entered_cons {W : Image UInt8} {q : Nat} {l : Label} {new : List DictItem}
    (hnew : new = [] ∨ new = [⟨q % 2 ^ 16, dictHash (text (l :: ls))⟩])
    (hplace : LabelAt T W q (l :: ls)) {namedict namedict' : List DictItem}
    (hrest : Entered T W (namedict ++ new) namedict' ls) :
    Entered T W namedict namedict' (l :: ls) := by
  obtain ⟨more, rfl, hmore⟩ := hrest
  refine ⟨new ++ more, by simp, ?_⟩
  intro item hitem
  rcases mem_append.mp hitem with hitem | hitem
  · rcases hnew with rfl | rfl
    · cases hitem
    obtain rfl : item = ⟨q % 2 ^ 16, dictHash (text (l :: ls))⟩ := by simpa using hitem
    exact ⟨l :: ls, mem_cons_self .., rfl, q, rfl, hplace⟩
  · obtain ⟨s, hs, hitem⟩ := hmore item hitem
    exact ⟨s, mem_cons_of_mem _ hs, hitem⟩

theorem pointer_value (ht : t < 0x4000) : 0xc000 ||| t = 0xC000 + t := by
  have h := Nat.two_pow_add_eq_or_of_lt (i := 14) (b := t) (by simpa using ht) 3
  simpa using h.symm

/--
**One write, from the length byte of a label on.**  `T` tells of places in front of `lo`
that the dictionary may lead to; a memory that agrees with `base` there passes the check
of the lookup at these places.
-/
theorem encodeSuffix_spelt
    (base : Bytes) (lo : Nat) (hne : ls ≠ []) {q : Nat} (hsize : c.maxsize ≤ c.data.length)
    (hptr : c.ptr = q + 1) (hlo : lo ≤ q) (hlen : c.data.length = base.length)
    (hsame : ∀ i, i < lo → c.data[i]? = base[i]?)
    (hT : ∀ pos s, T pos s → pos < 0x4000 ∧ ∀ data : Bytes, data.length = base.length →
      (∀ i, i < lo → data[i]? = base[i]?) → Checks data c.maxsize pos)
    (hmatch : ∀ s ∈ nameSuffixes ls, ∀ item ∈ c.namedict,
      item.hash = dictHash (text s) → T item.pos s) (hdiff : SuffixesDiffer ls)
    (htotal : 1 ≤ totalLen) (hbegun : 1 < totalLen ∨ c.leftLen ≠ 1) :
    wp (encodeSuffix (text ls) q totalLen)
      (fun _ c' => SpeltAt T (writtenImage c'.data q c'.ptr) q ls c'.ptr ∧
        Entered T (writtenImage c'.data q c'.ptr) c.namedict c'.namedict ls)
      (fun _ => True) c := by
  induction ls generalizing q totalLen c with
  | nil => exact absurd rfl hne
  | cons l ls ih =>
  -- with no room for a character the write fails
  by_cases hfull : c.leftLen ≤ 1
  · exact encodeSuffix_full (text_ne_nil hne) hsize (by omega) hfull hbegun
  simp only [Context.leftLen, hptr] at hfull
  simp only [encodeSuffix, wp_bind]
  refine wp_dnsGetDomainOffset hne (T := fun pos => T pos (l :: ls))
    (hmatch _ (mem_cons_self ..)) (fun pos hpos => (hT pos _ hpos).2 _ hlen hsame) ?_ ?_
  · -- the whole rest is already there: a pointer
    intro t htarget
    have ht := (hT t _ htarget).1
    have hin : q + (beBytes 2 (0xC000 + t)).length ≤ c.data.length := by
      rw [length_beBytes]
      omega
    obtain ⟨b, domain, hdomain⟩ := exists_cons_of_ne_nil (text_ne_nil hne)
    rw [hdomain]
    simp only [encodeDomainLoop, wp_bind, wp_get]
    rw [if_neg (by simp only [Context.leftLen, hptr]; omega)]
    simp only [wp_bind, wp_failWhen, pointer_value ht]
    refine ⟨fun _ => trivial, fun _ => wp_patch hin ?_⟩
    simp only [wp_advance, wp_pure, hptr]
    constructor
    · refine SpeltAt.pointer ?_ htarget
      exact at_writtenImage (at_overwrite hin) le_rfl (by simp)
    · exact ⟨[], by simp, by simp⟩
  · -- a new label
    intro new hnew
    have hnew' : new = [] ∨ new = [⟨q % 2 ^ 16, dictHash (text (l :: ls))⟩] := by
      simpa [hptr] using hnew
    have hlpos := l.length_pos
    rw [text]
    refine wp_encodeDomainLoop_label l.bytes (dotted ls) (fun b hb => (l.plain b hb).2) hsize
      (by simp only [hptr]; omega) htotal hbegun ?_
    intro hroom
    have hend : q + 1 + l.bytes.length < c.maxsize := by simpa [hptr] using hroom l.nonempty
    obtain ⟨hwlen, hwire, hwsame⟩ := label_written c.data q l (by omega)
    have hlen₁ : (overwrite c.data (q + 1) l.bytes).length = c.data.length :=
      length_overwrite (by omega)
    simp only [hptr, Nat.zero_add]
    cases ls with
    | nil =>
      have hin : q + 1 + l.bytes.length + [(0 : UInt8)].length ≤
          (overwrite (overwrite c.data (q + 1) l.bytes) q
            [UInt8.ofNat l.bytes.length]).length := by
        rw [hwlen, length_singleton]
        omega
      simp only [dotted, encodeDomainLoop, encodeDomainEnd, wp_bind, wp_failWhen]
      refine ⟨fun _ => trivial, fun _ => wp_patch (by simp [hlen₁]; omega) ?_⟩
      rw [if_pos (by omega), wp_bind]
      refine wp_writeBytes hin ?_
      simp only [wp_bind, wp_failWhen, wp_pure]
      refine ⟨fun _ => trivial, fun _ => ?_⟩
      have hlabel := at_writtenImage (hwire.overwrite hin (Or.inl (by simp; omega)))
        (i := q) (j := q + 1 + l.bytes.length + [(0 : UInt8)].length) le_rfl
        (by simp; omega)
      have hzero := at_writtenImage (at_overwrite hin)
        (i := q) (j := q + 1 + l.bytes.length + [(0 : UInt8)].length) (by omega) le_rfl
      have hrest : SpeltAt T (writtenImage (overwrite (overwrite (overwrite c.data (q + 1)
          l.bytes) q [UInt8.ofNat l.bytes.length]) (q + 1 + l.bytes.length) [0]) q
          (q + 1 + l.bytes.length + [(0 : UInt8)].length)) (q + l.wire.length) []
          (q + 1 + l.bytes.length + [(0 : UInt8)].length) := by
        rw [show q + l.wire.length = q + 1 + l.bytes.length by simp; omega]
        exact .root (at_cons.mp hzero).1
      constructor
      · exact .label hlabel hrest
      · exact entered_cons hnew' (.mk hlabel hrest) ⟨[], by simp, by simp⟩
    | cons l' ls =>
    have hdiff' := pairwise_cons.mp hdiff
    simp only [dotted, encodeDomainLoop, wp_bind, wp_get]
    refine wp_ite (fun hfull => ?_) (fun hleft => ?_)
    · exact encodeDomainEnd_full (by simpa [hlen₁] using hsize) (by simp; omega) hfull
        (Or.inl (by omega))
    simp only [Context.leftLen] at hleft
    rw [if_pos trivial, wp_bind]
    refine wp_patch (by simp [hlen₁]; omega) ?_
    rw [wp_bind, wp_advance]
    refine wp_mono (wp_and
      (ih (cons_ne_nil _ _) (by simpa [hwlen] using hsize) rfl (by omega)
        (hwlen.trans hlen) (fun i hi => (hwsame i (by omega)).trans (hsame i hi)) hT ?_
        hdiff'.2 (by omega) (Or.inl (by omega)))
      (encodeSuffix_safe (text (l' :: ls)) (by simpa [hwlen] using hsize) le_rfl
        (by simp))) ?_ (fun _ _ => trivial)
    · intro s hs item hitem hhash
      rcases mem_append.mp hitem with hitem | hitem
      · exact hmatch s (mem_cons_of_mem _ hs) item hitem hhash
      · rcases hnew' with rfl | rfl
        · cases hitem
        · obtain rfl : item = ⟨q % 2 ^ 16, dictHash (text (l :: l' :: ls))⟩ := by
            simpa using hitem
          exact absurd hhash (hdiff'.1 s hs)
    · rintro n c' ⟨⟨hspelt, hentered⟩, hdone⟩
      have hforward : q + 1 + l.bytes.length ≤ c'.ptr := by
        have := hdone.forward
        simp only at this
        omega
      have hbelow := hdone.writing.frame.below
      simp only at hbelow
      -- the label in front of the rest was not touched again
      have hlabel : At (writtenImage c'.data q c'.ptr) q l.wire := by
        refine at_writtenImage (hwire.congr ?_) le_rfl (by simp; omega)
        intro k _ hk
        exact hbelow k (by simp at hk; omega)
      have hgrow := writtenImage_mono c'.data (j := c'.ptr)
        (show q ≤ q + 1 + l.bytes.length by omega)
      have hrest := hspelt.mono hgrow
      rw [show q + 1 + l.bytes.length = q + l.wire.length by simp; omega] at hrest
      refine ⟨.label hlabel hrest, entered_cons hnew' (.mk hlabel hrest) ?_⟩
      obtain ⟨more, hdict, hmore⟩ := hentered
      refine ⟨more, hdict, ?_⟩
      intro item hitem
      obtain ⟨s, hs, hhash, place, hpos, hplace⟩ := hmore item hitem
      exact ⟨s, hs, hhash, place, hpos, hplace.mono hgrow⟩

/-- The bytes written so far: `G` holds the names among them, and every entry
of the dictionary leads to a name with the hash of the entry. -/
structure NamesOk (G : Image UInt8) (c : Context) : Prop where
  inside : c.maxsize ≤ c.data.length
  room : c.ptr ≤ c.maxsize
  image : Image.Le G (ofList c.data)
  below : G.Below c.ptr
  dict : ∀ item ∈ c.namedict, ∃ ls, (text ls).length ≤ 253 ∧ item.hash = dictHash (text ls) ∧
    TargetAt G item.pos ls

theorem NamesOk.added
    (hfits : (text ls).length ≤ 253) {G' : Image UInt8} {c' : Context} (h : NamesOk G c)
    (hle : Image.Le G G') (hadded : Added G' c.namedict c'.namedict ls) :
    ∀ item ∈ c'.namedict, ∃ ls, (text ls).length ≤ 253 ∧ item.hash = dictHash (text ls) ∧
      TargetAt G' item.pos ls := by
  obtain ⟨new, hdict, hnew⟩ := hadded
  intro item hitem
  rw [hdict] at hitem
  rcases mem_append.mp hitem with hitem | hitem
  · obtain ⟨ls, hlen, hhash, htarget⟩ := h.dict item hitem
    exact ⟨ls, hlen, hhash, htarget.mono hle⟩
  · obtain ⟨s, hs, hhash, htarget⟩ := hnew item hitem
    exact ⟨s, (length_text_suffix hs).trans hfits, hhash, htarget⟩

theorem dnsEncodeDomain_spelt {n : DomainName} (hsize : c.maxsize ≤ c.data.length)
    (hT : ∀ pos s, T pos s → pos < 0x4000 ∧ ∀ data : Bytes, data.length = c.data.length →
      (∀ i, i < c.ptr → data[i]? = c.data[i]?) → Checks data c.maxsize pos)
    (hmatch : ∀ s ∈ nameSuffixes n.labels, ∀ item ∈ c.namedict,
      item.hash = dictHash (text s) → T item.pos s) (hdiff : SuffixesDiffer n.labels)
    (htwo : n.labels ≠ [] → c.leftLen ≠ 2) :
    wp (dnsEncodeDomain n.toCStr)
      (fun _ c' => SpeltAt T (writtenImage c'.data c.ptr c'.ptr) c.ptr n.labels c'.ptr ∧
        Entered T (writtenImage c'.data c.ptr c'.ptr) c.namedict c'.namedict n.labels)
      (fun _ => True) c := by
  simp only [dnsEncodeDomain, DomainName.toCStr_bytes]
  rw [wp_bind, wp_get, wp_bind, wp_advance]
  by_cases hroot : n.labels = []
  · rw [hroot]
    simp only [dnsGetDomainOffset, text, if_pos, wp_bind, wp_pure, encodeDomainLoop,
      encodeDomainEnd, wp_failWhen]
    refine ⟨fun _ => trivial, fun hleft => ?_⟩
    simp only [Context.leftLen] at hleft
    have hin : c.ptr + [UInt8.ofNat 0].length ≤ c.data.length := by
      simp only [length_singleton]
      omega
    refine wp_patch hin ?_
    rw [if_neg (by omega)]
    simp only [wp_bind, wp_failWhen, wp_pure]
    refine ⟨fun _ => trivial, fun _ => ⟨.root ?_, [], by simp, by simp⟩⟩
    have hzero := at_writtenImage (at_overwrite hin) (i := c.ptr) (j := c.ptr + 1) le_rfl (by simp)
    exact (at_cons.mp hzero).1
  · refine encodeSuffix_spelt c.data c.ptr hroot hsize rfl le_rfl rfl
      (fun _ _ => rfl) hT hmatch hdiff le_rfl (Or.inr ?_)
    have := htwo hroot
    simp only [Context.leftLen] at this ⊢
    omega

/-- **One write of `_dns_encode_domain`.** -/
theorem dnsEncodeDomain_spec {n : DomainName} (hok : NamesOk G c) (hsmall : c.maxsize ≤ 0x4000)
    (hmatch : MatchOk G c.namedict n.labels) (hdiff : SuffixesDiffer n.labels)
    (htwo : n.labels ≠ [] → c.leftLen ≠ 2) :
    wp (dnsEncodeDomain n.toCStr)
      (fun _ c' => NameAt (G.cover c'.data c.ptr c'.ptr) c.ptr n.labels c'.ptr ∧
        NamesOk (G.cover c'.data c.ptr c'.ptr) c')
      (fun _ => True) c := by
  -- the dictionary leads to names that stand in front of the cursor
  have hT : ∀ pos s, ((text s).length ≤ 253 ∧ TargetAt G pos s) → pos < 0x4000 ∧
    TargetAt G pos s := by
    rintro pos s ⟨-, htarget⟩
    have hlt := htarget.lt_of_below hok.below
    have hroom := hok.room
    exact ⟨by omega, htarget⟩
  have hwrite := dnsEncodeDomain_spelt (T := fun t s => (text s).length ≤ 253 ∧ TargetAt G t s)
    (n := n) hok.inside ?_ ?_ hdiff htwo
  · refine wp_mono (wp_and hwrite
      ((Writing.refl hok.inside le_rfl).encodeDomain n.toCStr)) ?_ (fun _ _ => trivial)
    rintro len c' ⟨⟨hspelt, new, hdict, hnew⟩, ⟨hframe, -, -⟩, hmoved, hpos, hroom⟩
    have hkept : Image.Le G (ofList c'.data) := hok.image.congr hok.below hframe.below
    have hG := cover_self_le (i := c.ptr) (j := c'.ptr) hkept
    have hW : Image.Le (writtenImage c'.data c.ptr c'.ptr) (G.cover c'.data c.ptr c'.ptr) :=
      le_cover (writtenImage_le _ _ _) (fun k a hk hcell => by
        rw [writtenImage, cover, if_neg hk] at hcell
        cases hcell)
    refine ⟨hspelt.nameAt hT hW hG, ?_, hroom.le, cover_le_ofList hkept,
      hok.below.cover (by omega), ?_⟩
    · rw [hframe.maxsize, hframe.length]
      exact hok.inside
    refine hok.added n.fits hG ⟨new, hdict, ?_⟩
    intro item hitem
    obtain ⟨s, hs, hhash, place, hplace, hlabel⟩ := hnew item hitem
    have hlt := hlabel.lt_of_below (writtenImage_below c'.data (by omega))
    have hmax := hframe.maxsize
    refine ⟨s, hs, hhash, ?_⟩
    rw [hplace, Nat.mod_eq_of_lt (by omega)]
    cases hlabel with
    | mk hl hrest => exact .mk (hl.mono hW) (hrest.nameAt hT hW hG)
  · rintro pos s ⟨hfits, htarget⟩
    refine ⟨(hT pos s ⟨hfits, htarget⟩).1, ?_⟩
    intro data hlen hsame
    obtain ⟨j, hname⟩ := htarget.nameAt
    rw [Checks, dnsGetDomainFromPacket_nameAt (hok.image.congr hok.below hsame)
      (hok.below.mono hok.room) hname (by simp only [maxCnameLen]; omega)]
    rfl
  · intro s hs item hitem hhash
    exact ⟨(length_text_suffix hs).trans n.fits, hmatch s hs item hitem hhash⟩

end Encode

end SmartDns.Dns
