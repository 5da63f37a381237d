import SmartDns.Dns.Decode

/-!
# The options of an OPT record

The data of an OPT record is a sequence of options, each a code, a length and
as many bytes.  `_dns_decode_opt` reads the two numbers and leaves it to the
handler of the code to move the cursor over the bytes, so the decoder and the
lengths may disagree about where the next option starts.
-/

namespace SmartDns.Dns

open Prog List

variable {n : Nat} {bs : Bytes} {u : Unit} {o : OptField}

/-! ## Returns of the readers -/

section Readers

variable {c c' : Context}

theorem readAt_eq_some {m : Bytes} {i : Nat} (hn : 0 < n) :
    readAt m i n = some bs ↔ i + n ≤ m.length ∧ (m.drop i).take n = bs := by
  rw [readAt]
  split
  next h =>
    rw [Option.some.injEq]
    exact ⟨fun hbs => ⟨by omega, hbs⟩, fun hbs => hbs.2⟩
  next h =>
    constructor
    · rintro ⟨⟩
    · rintro ⟨hle, -⟩
      exact absurd (.inr hle) h

@[simp] theorem readBytes_eq_done :
    readBytes n c = .done bs c' ↔
      readAt c.data c.ptr n = some bs ∧ { c with ptr := c.ptr + n } = c' := by
  simp only [readBytes, bind_eq_done, get_eq_done, orAbort_eq_done, modify_eq_done, pure_eq_done]
  constructor
  · rintro ⟨_, _, ⟨rfl, rfl⟩, _, _, ⟨hread, rfl⟩, _, _, rfl, rfl, rfl⟩
    exact ⟨hread, rfl⟩
  · rintro ⟨hread, rfl⟩
    exact ⟨c, c, ⟨rfl, rfl⟩, bs, c, ⟨hread, rfl⟩, (), _, rfl, rfl, rfl⟩

theorem readNumber_eq_done {value : Nat} (hn : 0 < n) :
    (readBytes n >>= fun bs => pure (beNat bs) : Prog DnsFault Context Nat) c = .done value c' ↔
      c.ptr + n ≤ c.data.length ∧ beNat ((c.data.drop c.ptr).take n) = value ∧
        { c with ptr := c.ptr + n } = c' := by
  simp only [bind_eq_done, readBytes_eq_done, pure_eq_done, readAt_eq_some hn]
  constructor
  · rintro ⟨_, _, ⟨⟨hle, rfl⟩, rfl⟩, rfl, rfl⟩
    exact ⟨hle, rfl, rfl⟩
  · rintro ⟨hle, rfl, rfl⟩
    exact ⟨_, _, ⟨⟨hle, rfl⟩, rfl⟩, rfl, rfl⟩

@[simp] theorem dnsReadShort_eq_done {value : Nat} :
    dnsReadShort c = .done value c' ↔
      c.ptr + 2 ≤ c.data.length ∧ beNat ((c.data.drop c.ptr).take 2) = value ∧
        { c with ptr := c.ptr + 2 } = c' :=
  readNumber_eq_done Nat.zero_lt_two

@[simp] theorem dnsReadChar_eq_done {value : Nat} :
    dnsReadChar c = .done value c' ↔
      c.ptr + 1 ≤ c.data.length ∧ beNat ((c.data.drop c.ptr).take 1) = value ∧
        { c with ptr := c.ptr + 1 } = c' :=
  readNumber_eq_done Nat.zero_lt_one

end Readers

/-! ## Options and their data -/

/-- An option: its code, its length as it is written, and the bytes taken as its data. -/
structure OptField where
  code : Nat
  length : Nat
  data : Bytes
deriving DecidableEq

def OptField.wire (o : OptField) : Bytes :=
  beBytes 2 o.code ++ beBytes 2 o.length ++ o.data

/-- The options fill the bytes, and each has as much data as its length tells. -/
structure Segmented (bytes : Bytes) (opts : List OptField) : Prop where
  lengths : ∀ o ∈ opts, o.data.length = o.length
  short : ∀ o ∈ opts, o.code < 2 ^ 16 ∧ o.length < 2 ^ 16
  fill : opts.flatMap OptField.wire = bytes

/-- The bytes that a handler moves over, given the code and the length. -/
def OptField.Moved (o : OptField) : Prop :=
  if o.code = optEcs then o.data.length = 4 + prefixBytes (o.data.getD 2 0).toNat
  else if o.code = optTcpKeepalive then
    o.length = 0 ∧ o.data.length = 0 ∨ 2 ≤ o.length ∧ o.data.length = 2
  else o.data.length = o.length

/-- The length fits what the option holds: an ECS option has the address bytes of its
source prefix, and a TCP keepalive has at most the two bytes of a timeout. -/
def OptField.Fits (o : OptField) : Prop :=
  (o.code = optEcs → o.length = 4 + prefixBytes (o.data.getD 2 0).toNat) ∧
    (o.code = optTcpKeepalive → o.length ≤ 2)

/-- One round of the loop of `_dns_decode_opt`: the code and the length it reads, and
the bytes its handler moves the cursor over. -/
def handledOption (d d' : Decoder) : OptField where
  code := beNat ((d.context.data.drop d.context.ptr).take 2)
  length := beNat ((d.context.data.drop (d.context.ptr + 2)).take 2)
  data := (d.context.data.drop (d.context.ptr + 4)).take (d'.context.ptr - (d.context.ptr + 4))

/-- The rounds of the loop of `_dns_decode_opt`. -/
def handledRounds (start rrLen : Nat) : Nat → Decoder → List OptField
  | 0, _ => []
  | rounds + 1, d =>
    if d.context.ptr - start < rrLen then
      match decodeOption d with
      | .done _ d' => handledOption d d' :: handledRounds start rrLen rounds d'
      | _ => []
    else []

/-- The options that `_dns_decode_opt` handles. -/
def handledOptions (ttl rrLen : Nat) (d : Decoder) : List OptField :=
  if ttl / 2 ^ 16 ≠ 0 then [] else handledRounds d.context.ptr rrLen rrLen d

/-- The data of a record of `rrLen` bytes at the cursor. -/
def recordData (rrLen : Nat) (d : Decoder) : Bytes :=
  (d.context.data.drop d.context.ptr).take rrLen

/-! ## One option -/

section Step

variable {d d' : Decoder} {c c' : Context} {optLen : Nat}

theorem drop_take_getD (data : Bytes) {p k : Nat} (hk : k < n) (hle : p + n ≤ data.length) :
    beNat ((data.drop (p + k)).take 1) = (((data.drop p).take n).getD k 0).toNat := by
  have hlt : p + k < data.length := by omega
  have hbyte : (data.drop (p + k)).take 1 = [data[p + k]] := by
    rw [drop_eq_getElem_cons hlt]
    rfl
  have hget : ((data.drop p).take n)[k]? = some data[p + k] := by
    rw [getElem?_take_of_lt hk, getElem?_drop, getElem?_eq_getElem hlt]
  rw [hbyte, getD_eq_getElem?_getD, hget]
  simp [beNat]

theorem intoBuffer_eq_done {σ : Type} {s s' : σ} {capacity : Nat} {bs' : Bytes}
    (h : intoBuffer capacity bs s = .done bs' s') :
    s = s' := by
  rw [intoBuffer] at h
  split at h
  next => exact (pure_eq_done.mp h).2
  next => exact absurd h abort_ne_done

/-- The ECS handler moves by the address bytes of the source prefix. -/
theorem dnsDecodeOptEcs_done {ecs : OptEcs} (h : dnsDecodeOptEcs optLen c = .done ecs c') :
    ∃ n, c' = { c with ptr := c.ptr + n } ∧ c.ptr + n ≤ c.data.length ∧
      n = 4 + prefixBytes (((c.data.drop c.ptr).take n).getD 2 0).toNat := by
  simp only [dnsDecodeOptEcs, bind_eq_done, failWhen_eq_done, dnsReadShort_eq_done,
    dnsReadChar_eq_done, readBytes_eq_done, pure_eq_done] at h
  obtain ⟨_, _, ⟨-, rfl⟩, family, _, ⟨-, -, rfl⟩, source, _, ⟨-, hsource, rfl⟩, scope, _,
    ⟨hscope, -, rfl⟩, _, _, ⟨-, rfl⟩, addr, _, ⟨haddr, rfl⟩, addr', _, hbuffer, -, rfl⟩ := h
  obtain rfl := intoBuffer_eq_done hbuffer
  simp only at hsource hscope haddr
  have hbound : c.ptr + (4 + prefixBytes source) ≤ c.data.length := by
    rcases Nat.eq_zero_or_pos (prefixBytes source) with hzero | hpos
    · omega
    · have := ((readAt_eq_some hpos).mp haddr).1
      omega
  refine ⟨4 + prefixBytes source, ?_, hbound, ?_⟩
  · simp only [Context.mk.injEq, true_and, and_true]
    omega
  · rw [← drop_take_getD c.data (by omega) hbound, hsource]

theorem dnsDecodeOptCookie_done (h : dnsDecodeOptCookie optLen c = .done u c') :
    c' = { c with ptr := c.ptr + optLen } ∧ c.ptr + optLen ≤ c.data.length := by
  simp only [dnsDecodeOptCookie, bind_eq_done, failWhen_eq_done, readBytes_eq_done] at h
  obtain ⟨_, _, ⟨hmin, rfl⟩, client, _, ⟨hclient, rfl⟩, h⟩ := h
  obtain ⟨hroom, -⟩ := (readAt_eq_some (by omega)).mp hclient
  split at h
  next hle =>
    obtain ⟨-, rfl⟩ := pure_eq_done.mp h
    have heq : optLen = 8 := by omega
    exact ⟨by rw [heq], by omega⟩
  next hgt =>
  simp only [bind_eq_done, failWhen_eq_done, readBytes_eq_done, pure_eq_done] at h
  obtain ⟨_, _, ⟨-, rfl⟩, server, _, ⟨hserver, rfl⟩, _, _, hbuffer, -, rfl⟩ := h
  obtain rfl := intoBuffer_eq_done hbuffer
  obtain ⟨hroom', -⟩ := (readAt_eq_some (by omega)).mp hserver
  simp only at hroom'
  constructor
  · simp only [Context.mk.injEq, true_and, and_true]
    omega
  · omega

/-- The TCP keepalive handler moves over nothing or over two bytes. -/
theorem dnsDecodeOptTcpKeepalive_done
    {timeout : Nat} (h : dnsDecodeOptTcpKeepalive optLen c = .done timeout c') :
    optLen = 0 ∧ c' = c ∨
      2 ≤ optLen ∧ c.ptr + 2 ≤ c.data.length ∧ c' = { c with ptr := c.ptr + 2 } := by
  rw [dnsDecodeOptTcpKeepalive] at h
  split at h
  next hzero =>
    obtain ⟨-, rfl⟩ := pure_eq_done.mp h
    exact .inl ⟨hzero, rfl⟩
  next =>
    simp only [bind_eq_done, failWhen_eq_done, dnsReadShort_eq_done] at h
    obtain ⟨_, _, ⟨hmin, rfl⟩, hroom, -, rfl⟩ := h
    exact .inr ⟨by omega, hroom, rfl⟩

/-- One round: the cursor moves over the head of the option and what its handler takes. -/
theorem decodeOption_done
    (hmax : d.context.maxsize = d.context.data.length) (h : decodeOption d = .done u d') :
    ∃ n, d'.context = { d.context with ptr := d.context.ptr + 4 + n } ∧
      d.context.ptr + 4 + n ≤ d.context.data.length ∧ (handledOption d d').Moved := by
  simp only [decodeOption, onMessage, toPacket, bind_eq_done, failWhen_eq_done,
    zoom_eq_done, dnsReadShort_eq_done] at h
  obtain ⟨_, _, ⟨-, rfl⟩, code, _, ⟨_, ⟨hcodeRoom, hcode, rfl⟩, rfl⟩, len, _,
    ⟨_, ⟨hlenRoom, hlen, rfl⟩, rfl⟩, _, _, ⟨hleft, rfl⟩, h⟩ := h
  simp only at hcode hlen hlenRoom
  rw [add_assoc] at hlenRoom
  have hdone : ∀ n, d'.context = { d.context with ptr := d.context.ptr + 4 + n } →
      d.context.ptr + 4 + n ≤ d.context.data.length →
      (((d.context.data.drop (d.context.ptr + 4)).take n).length = n →
        OptField.Moved ⟨code, len, (d.context.data.drop (d.context.ptr + 4)).take n⟩) →
      ∃ n, d'.context = { d.context with ptr := d.context.ptr + 4 + n } ∧
        d.context.ptr + 4 + n ≤ d.context.data.length ∧ (handledOption d d').Moved := by
    intro n hn hbound hmoved
    refine ⟨n, hn, hbound, ?_⟩
    rw [handledOption, hcode, hlen, hn, Nat.add_sub_cancel_left]
    refine hmoved ?_
    rw [length_take, length_drop]
    omega
  split at h
  next hecs =>
    simp only [bind_eq_done, zoom_eq_done] at h
    obtain ⟨ecs, _, ⟨_, hdecode, rfl⟩, _, hadd, rfl⟩ := h
    obtain ⟨n, rfl, hbound, hn⟩ := dnsDecodeOptEcs_done hdecode
    refine hdone n (by simp [add_assoc]) (by simpa [add_assoc] using hbound) fun hlength => ?_
    rw [OptField.Moved, if_pos hecs, hlength]
    simpa only [add_assoc] using hn
  next hnotEcs =>
  split at h
  next hcookie =>
    simp only [zoom_eq_done] at h
    obtain ⟨_, hdecode, rfl⟩ := h
    obtain ⟨rfl, hbound⟩ := dnsDecodeOptCookie_done hdecode
    refine hdone len (by simp [add_assoc]) (by simpa [add_assoc] using hbound) ?_
    rw [OptField.Moved, if_neg hnotEcs,
      if_neg (show ¬ code = optTcpKeepalive by rw [hcookie]; decide)]
    exact id
  next =>
  split at h
  next hkeepalive =>
    simp only [bind_eq_done, zoom_eq_done] at h
    obtain ⟨timeout, _, ⟨_, hdecode, rfl⟩, _, hadd, rfl⟩ := h
    rcases dnsDecodeOptTcpKeepalive_done hdecode with ⟨hzero, rfl⟩ | ⟨htwo, hbound, rfl⟩
    · refine hdone 0 (by simp [add_assoc]) (by simpa [add_assoc] using hlenRoom) ?_
      rw [OptField.Moved, if_neg hnotEcs, if_pos hkeepalive]
      exact fun hlength => .inl ⟨hzero, hlength⟩
    · refine hdone 2 (by simp [add_assoc]) (by simpa [add_assoc] using hbound) ?_
      rw [OptField.Moved, if_neg hnotEcs, if_pos hkeepalive]
      exact fun hlength => .inr ⟨htwo, hlength⟩
  next hnotKeepalive =>
  simp only [zoom_eq_done, advance, modify_eq_done] at h
  obtain ⟨_, rfl, rfl⟩ := h
  simp only [Context.leftLen, hmax] at hleft
  have hbound : d.context.ptr + 4 + len ≤ d.context.data.length := by
    push_cast at hleft
    omega
  refine hdone len (by simp [add_assoc]) hbound ?_
  rw [OptField.Moved, if_neg hnotEcs, if_neg hnotKeepalive]
  exact id

theorem wire_handledOption (hctx : d'.context = { d.context with ptr := d.context.ptr + 4 + n })
    (hbound : d.context.ptr + 4 + n ≤ d.context.data.length) :
    d.context.data.drop d.context.ptr
      = (handledOption d d').wire ++ d.context.data.drop d'.context.ptr := by
  have hbytes : ∀ p, p + 2 ≤ d.context.data.length →
      beBytes 2 (beNat ((d.context.data.drop p).take 2)) = (d.context.data.drop p).take 2 := by
    intro p hp
    have hlen : ((d.context.data.drop p).take 2).length = 2 := by
      rw [length_take, length_drop]
      omega
    have h := beBytes_beNat ((d.context.data.drop p).take 2)
    rwa [hlen] at h
  have hptr : d'.context.ptr = d.context.ptr + 4 + n := by rw [hctx]
  rw [OptField.wire, handledOption]
  rw [hbytes _ (by omega), hbytes _ (by omega), hptr, Nat.add_sub_cancel_left]
  have hsplit : ∀ p k, (d.context.data.drop p).take k ++ d.context.data.drop (p + k)
      = d.context.data.drop p := by
    intro p k
    rw [← drop_drop, take_append_drop]
  rw [append_assoc, append_assoc, hsplit (d.context.ptr + 4) n,
    hsplit (d.context.ptr + 2) 2, hsplit d.context.ptr 2]

theorem short_handledOption (d d' : Decoder) :
    (handledOption d d').code < 2 ^ 16 ∧ (handledOption d d').length < 2 ^ 16 := by
  have hlt : ∀ bs : Bytes, beNat (bs.take 2) < 2 ^ 16 := by
    intro bs
    have hle : (bs.take 2).length ≤ 2 := by simp
    calc beNat (bs.take 2) < 256 ^ (bs.take 2).length := beNat_lt _
      _ ≤ 256 ^ 2 := Nat.pow_le_pow_right (by omega) hle
      _ = 2 ^ 16 := by norm_num
  exact ⟨hlt _, hlt _⟩

end Step

/-! ## The loop -/

/-- The rounds of the loop: they fill what the cursor passes, and each handler moves as
its code and length tell. -/
theorem handledRounds_fill {start rrLen : Nat} (rounds : Nat) {d d' : Decoder}
    (hmax : d.context.maxsize = d.context.data.length)
    (h : Prog.loop .hang (fun e : Decoder => e.context.ptr - start < rrLen) decodeOption rounds d
      = .done u d') :
    d.context.data.drop d.context.ptr = (handledRounds start rrLen rounds d).flatMap OptField.wire
          ++ d.context.data.drop d'.context.ptr ∧
      d'.context.ptr
        = d.context.ptr + ((handledRounds start rrLen rounds d).flatMap OptField.wire).length ∧
      ∀ o ∈ handledRounds start rrLen rounds d, o.Moved ∧ o.code < 2 ^ 16 ∧ o.length < 2 ^ 16 := by
  induction rounds generalizing d with
  | zero =>
    have hcond : ¬d.context.ptr - start < rrLen := fun hcond => by simp [loop, hcond] at h
    obtain rfl := loop_returns_of_not h hcond
    simp [handledRounds]
  | succ rounds ih =>
  by_cases hcond : d.context.ptr - start < rrLen
  · obtain ⟨d₁, hbody, hrest⟩ := loop_returns h hcond
    obtain ⟨n, hctx, hbound, hmoved⟩ := decodeOption_done hmax hbody
    have hwire := wire_handledOption hctx hbound
    have hlen := congrArg List.length hwire
    have hdata : d₁.context.data = d.context.data := by rw [hctx]
    have hmax₁ : d₁.context.maxsize = d₁.context.data.length := by
      rw [hctx]
      exact hmax
    obtain ⟨hfill, hptr, hall⟩ := ih hmax₁ hrest
    rw [hdata] at hfill
    have hstep : handledRounds start rrLen (rounds + 1) d
        = handledOption d d₁ :: handledRounds start rrLen rounds d₁ := by
      rw [handledRounds, if_pos hcond, hbody]
    have hptr₁ : d₁.context.ptr = d.context.ptr + 4 + n := by rw [hctx]
    rw [hstep, flatMap_cons]
    refine ⟨?_, ?_, ?_⟩
    · rw [hwire, hfill, append_assoc]
    · rw [hptr, length_append]
      rw [length_append, length_drop, length_drop] at hlen
      omega
    · intro o ho
      rcases mem_cons.mp ho with rfl | hmem
      · exact ⟨hmoved, short_handledOption d d₁⟩
      · exact hall o hmem
  · obtain rfl := loop_returns_of_not h hcond
    simp [handledRounds, hcond]

/-! ## Accepted records -/

section Record

/-- Two options at the same place have the same code and length. -/
theorem wire_append_inj
    {p : OptField} {rest rest' : Bytes} (ho : o.code < 2 ^ 16 ∧ o.length < 2 ^ 16)
    (hp : p.code < 2 ^ 16 ∧ p.length < 2 ^ 16) (h : o.wire ++ rest = p.wire ++ rest') :
    o.code = p.code ∧ o.length = p.length ∧ o.data ++ rest = p.data ++ rest' := by
  simp only [OptField.wire, append_assoc] at h
  obtain ⟨hcode, h⟩ := append_inj h (by simp)
  obtain ⟨hlength, h⟩ := append_inj h (by simp)
  have hinj : ∀ {m n : Nat}, m < 2 ^ 16 → n < 2 ^ 16 → beBytes 2 m = beBytes 2 n → m = n := by
    intro m n hm hn heq
    have hval := congrArg beNat heq
    rw [beNat_beBytes, beNat_beBytes] at hval
    rwa [Nat.mod_eq_of_lt (by omega), Nat.mod_eq_of_lt (by omega)] at hval
  exact ⟨hinj ho.1 hp.1 hcode, hinj ho.2 hp.2 hlength, h⟩

theorem data_eq_of_fits {p : OptField} {rest rest' : Bytes} (hmoved : o.Moved) (hfits : p.Fits)
    (hlen : p.data.length = p.length) (hcode : o.code = p.code) (hlength : o.length = p.length)
    (h : o.data ++ rest = p.data ++ rest') :
    o.data = p.data := by
  refine (append_inj h ?_).1
  rw [OptField.Moved, hcode] at hmoved
  split at hmoved
  next hecs =>
    -- both have the four bytes in front of the address, hence the same source prefix
    have hown := hfits.1 hecs
    have hbyte : o.data.getD 2 0 = p.data.getD 2 0 := by
      have hleft : (o.data ++ rest)[2]? = o.data[2]? := getElem?_append_left (by omega)
      have hright : (p.data ++ rest')[2]? = p.data[2]? := getElem?_append_left (by omega)
      rw [getD_eq_getElem?_getD, getD_eq_getElem?_getD, ← hleft, ← hright, h]
    rw [hmoved, hlen, hown, hbyte]
  next =>
    split at hmoved
    next hkeepalive =>
      have hle := hfits.2 hkeepalive
      omega
    next => omega

/-- Options whose lengths fit are those that the handlers move over. -/
theorem eq_of_fits {opts handled : List OptField}
    (hmoved : ∀ o ∈ handled, o.Moved ∧ o.code < 2 ^ 16 ∧ o.length < 2 ^ 16)
    (hfits : ∀ o ∈ opts, o.Fits) (hlen : ∀ o ∈ opts, o.data.length = o.length)
    (hshort : ∀ o ∈ opts, o.code < 2 ^ 16 ∧ o.length < 2 ^ 16)
    (h : handled.flatMap OptField.wire = opts.flatMap OptField.wire) :
    handled = opts := by
  induction handled generalizing opts with
  | nil =>
    cases opts with
    | nil => rfl
    | cons p opts => simp [OptField.wire, beBytes] at h
  | cons o handled ih =>
  cases opts with
  | nil => simp [OptField.wire, beBytes] at h
  | cons p opts =>
  rw [forall_mem_cons] at hmoved hfits hlen hshort
  obtain ⟨hcode, hlength, hrest⟩ := wire_append_inj hmoved.1.2 hshort.1 h
  have hdata := data_eq_of_fits hmoved.1.1 hfits.1 hlen.1 hcode hlength hrest
  have hop : o = p := by
    cases o
    cases p
    simp_all
  rw [hdata] at hrest
  rw [hop, ih hmoved.2 hfits.2 hlen.2 hshort.2 (append_cancel_left hrest)]

/-- A handled option that has the length it is written with has a length that fits. -/
theorem fits_of_moved (hmoved : o.Moved) (hlen : o.data.length = o.length) : o.Fits := by
  rw [OptField.Moved] at hmoved
  constructor
  · intro hecs
    rw [if_pos hecs] at hmoved
    omega
  · intro hkeepalive
    rw [if_neg (by rw [hkeepalive]; decide), if_pos hkeepalive] at hmoved
    omega

theorem handledOptions_fill
    {d d' : Decoder} (hmax : d.context.maxsize = d.context.data.length) {type : RrType}
    {domain : CStr} {head : RrHead} (hopt : DnsType.ofCode head.qtype = .opt)
    (haccept : decodeRrData type domain head d = .done u d') :
    (handledOptions head.ttl head.rrLen d).flatMap OptField.wire = recordData head.rrLen d ∧
      ∀ o ∈ handledOptions head.ttl head.rrLen d,
        o.Moved ∧ o.code < 2 ^ 16 ∧ o.length < 2 ^ 16 := by
  simp only [decodeRrData, hopt, dnsDecodeOpt, bind_eq_done, get_eq_done,
    failWhen_eq_done] at haccept
  obtain ⟨_, _, ⟨rfl, rfl⟩, _, d₁, ⟨_, _, ⟨rfl, rfl⟩, hloop⟩, _, _, ⟨hend, rfl⟩, -⟩ := haccept
  have hptr : d₁.context.ptr = d.context.ptr + head.rrLen := not_not.mp hend
  rw [handledOptions, recordData]
  split at hloop
  next hrcode =>
    -- an extended return code ends the decoder before it reads an option
    obtain ⟨-, rfl⟩ := pure_eq_done.mp hloop
    have hzero : head.rrLen = 0 := by omega
    rw [if_pos hrcode, hzero]
    simp
  next hrcode =>
    rw [if_neg hrcode]
    obtain ⟨hfill, hmoved, hall⟩ := handledRounds_fill head.rrLen hmax hloop
    refine ⟨?_, hall⟩
    rw [hfill, take_left']
    omega

/--
**Segmentation of an OPT record.**  Of a record that is accepted, at any place of any
message, the options that the decoder handles are those of the length fields exactly
when the data is a sequence of options whose lengths fit what they hold.
-/
theorem opt_segmented_iff
    (data : Bytes) (ptr : Nat) (namedict : List DictItem) (packet : Packet) (d' : Decoder)
    (type : RrType) (domain : CStr) (head : RrHead) (hopt : DnsType.ofCode head.qtype = .opt)
    (haccept : decodeRrData type domain head ⟨⟨data, data.length, ptr, namedict⟩, packet⟩
      = .done () d') :
    Segmented (recordData head.rrLen ⟨⟨data, data.length, ptr, namedict⟩, packet⟩)
        (handledOptions head.ttl head.rrLen ⟨⟨data, data.length, ptr, namedict⟩, packet⟩) ↔
      ∃ opts, Segmented (recordData head.rrLen ⟨⟨data, data.length, ptr, namedict⟩, packet⟩) opts ∧
        ∀ o ∈ opts, o.Fits := by
  obtain ⟨hfill, hmoved⟩ := handledOptions_fill rfl hopt haccept
  constructor
  · intro hseg
    exact ⟨_, hseg, fun o ho => fits_of_moved (hmoved o ho).1 (hseg.lengths o ho)⟩
  · rintro ⟨opts, hseg, hfits⟩
    have heq := eq_of_fits hmoved hfits hseg.lengths hseg.short (hfill.trans hseg.fill.symm)
    rw [heq]
    exact hseg

/-- A packet buffer of the examples, with 64 bytes for records. -/
def smallPacket : Packet where
  addr := 0
  head := zeroHead
  questions := rrEnd
  answers := rrEnd
  nameservers := rrEnd
  additional := rrEnd
  optcount := 0
  optional := rrEnd
  payloadsize := 0
  optOption := 0
  namedict := []
  size := 216
  len := 0
  data := List.replicate 64 0

/-- The head of an OPT record with `rrLen` bytes of data. -/
def optHead (rrLen : Nat) : RrHead :=
  ⟨[], 41, 4096, 0, rrLen⟩

def optMessage (data : Bytes) : Bytes :=
  [0, 1, 0, 0, 0, 0, 0, 0, 0, 0, 0, 1] ++
    ([0] ++ beBytes 2 41 ++ beBytes 2 4096 ++ beBytes 4 0 ++ beBytes 2 data.length ++ data)

/-- The decoder at the data of that record. -/
def optDecoder (data : Bytes) : Decoder :=
  ⟨⟨optMessage data, (optMessage data).length, 23, []⟩, smallPacket⟩

/-- An ECS option for `192.0.2.0/24`. -/
def subnetOption : OptField :=
  ⟨8, 7, [0, 1, 24, 0, 192, 0, 2]⟩

/-- The record with that option alone is accepted, and the option is handled. -/
theorem opt_segmented_iff_subnet :
    Segmented (recordData 11 (optDecoder subnetOption.wire))
      (handledOptions 0 11 (optDecoder subnetOption.wire)) := by
  have haccept : (decodeRrData .nr (CStr.ofBuffer []) (optHead 11)
      (optDecoder subnetOption.wire)).isDone = true := by decide +kernel
  obtain ⟨_, d', hdone⟩ := Outcome.eq_done_of_isDone haccept
  refine (opt_segmented_iff _ 23 [] smallPacket d' .nr (CStr.ofBuffer []) (optHead 11) rfl
    hdone).mpr ⟨[subnetOption], ⟨by decide, by decide, by decide⟩, ?_⟩
  simp only [mem_singleton, forall_eq]
  exact ⟨fun _ => by decide, fun h => absurd h (by decide)⟩

/-- An ECS option whose length is larger than its source prefix needs. -/
def longSubnetOption : OptField :=
  ⟨8, 11, [0, 1, 24, 0, 192, 0, 2, 0, 12, 0, 0]⟩

/-- A message with such an option is accepted, and the end of the option is taken for a
padding option behind it. -/
theorem opt_not_segmented :
    (dnsDecode 216 (optMessage longSubnetOption.wire) smallPacket).isDone = true ∧
      recordData 15 (optDecoder longSubnetOption.wire) = longSubnetOption.wire ∧
      handledOptions 0 15 (optDecoder longSubnetOption.wire)
        = [⟨8, 11, [0, 1, 24, 0, 192, 0, 2]⟩, ⟨12, 0, []⟩] ∧
      ¬ Segmented (recordData 15 (optDecoder longSubnetOption.wire))
        (handledOptions 0 15 (optDecoder longSubnetOption.wire)) := by
  have hhandled : handledOptions 0 15 (optDecoder longSubnetOption.wire)
      = [⟨8, 11, [0, 1, 24, 0, 192, 0, 2]⟩, ⟨12, 0, []⟩] := by decide +kernel
  refine ⟨by decide +kernel, by decide, hhandled, ?_⟩
  intro hseg
  have hlen := hseg.lengths ⟨8, 11, [0, 1, 24, 0, 192, 0, 2]⟩ (by rw [hhandled]; simp)
  exact absurd hlen (by decide)

end Record

end SmartDns.Dns
