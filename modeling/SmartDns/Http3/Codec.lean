import SmartDns.Http3.Head
import SmartDns.Lib.Memory

/-!
# Fields of a head on the wire

What `_http3_parse_headers_payload` makes of a field that `_qpack_build_header`
has written.  The writer puts the length of a value into a QUIC integer and the
length of a name into at most two bytes; the reader expects a prefix integer in
both places.  The two agree up to 63 bytes of value and 134 bytes of name.
-/

namespace SmartDns.Http3

open List UInt8

variable {bufferSize fuel len n value : Nat} {after buffer bytes data rest : Bytes}
variable {h h' : ReceivedHead} {field : Pair} {name str : CStr} {huffman : Bool}

/-! ## QUIC integers -/

theorem bigEndian_eq (width value : Nat) : bigEndian width value = beBytes width value := by
  induction width generalizing value with
  | zero => rfl
  | succ width ih => rw [bigEndian, ih, beBytes]

@[simp] theorem length_bigEndian (width value : Nat) : (bigEndian width value).length = width := by
  rw [bigEndian_eq, length_beBytes]

theorem bigEndian_succ_eq_cons (width value : Nat) :
    bigEndian (width + 1) value = ofNat (value / 256 ^ width) :: bigEndian width value := by
  induction width generalizing value with
  | zero => simp [bigEndian]
  | succ width ih =>
    have hdiv : value / 256 / 256 ^ width = value / 256 ^ (width + 1) := by
      rw [Nat.div_div_eq_div_mul, pow_succ, Nat.mul_comm]
    rw [bigEndian, ih, hdiv]
    rfl

theorem bigEndianValue_bigEndian (width value : Nat) :
    bigEndianValue (bigEndian width value) = value % 256 ^ width := by
  rw [bigEndian_eq]
  exact beNat_beBytes width value

/-- The bytes of `_quicvarint_encode` where the buffer is large enough. -/
def quicvarint (value : Nat) : Bytes :=
  if value ≤ 63 then bigEndian 1 value
  else if value ≤ 16383 then bigEndian 2 (value ||| 1 <<< 14)
  else if value ≤ 1073741823 then bigEndian 4 (value ||| 2 <<< 30)
  else bigEndian 8 (value ||| 3 <<< 62)

theorem quicvarintEncode_eq (h : quicvarintEncode value bufferSize = some bytes) :
    bytes = quicvarint value ∧ bytes.length ≤ bufferSize := by
  simp only [quicvarintEncode, quicvarintCase] at h
  simp only [quicvarint]
  split_ifs at h ⊢ with h63 h1 h16383 h2 h30 h4 h8
  all_goals
    cases h
    refine ⟨by simp, ?_⟩
    rw [length_bigEndian]
    omega

theorem quicvarint_of_le (h : value ≤ 63) : quicvarint value = [ofNat value] := by
  rw [quicvarint, if_pos h]
  rfl

theorem or_tag {tag k : Nat} (h : value < 2 ^ k) : value ||| tag <<< k = tag * 2 ^ k + value := by
  rw [Nat.or_comm, Nat.shiftLeft_eq, Nat.mul_comm tag, Nat.two_pow_add_eq_or_of_lt h]

theorem quicvarint_of_gt (h63 : 63 < value) (h : value ≤ 16383) :
    quicvarint value = [ofNat (64 + value / 256), ofNat value] := by
  rw [quicvarint, if_neg (by omega), if_pos h, or_tag (by omega),
    bigEndian_succ_eq_cons 1, bigEndian_succ_eq_cons 0]
  have hhigh : (1 * 2 ^ 14 + value) / 256 ^ 1 = 64 + value / 256 := by omega
  have hlow : ofNat ((1 * 2 ^ 14 + value) / 256 ^ 0) = ofNat value := by
    apply UInt8.toNat_inj.mp
    simp only [UInt8.toNat_ofNat']
    omega
  rw [hhigh, hlow]
  rfl

theorem quicvarintDecode_tagged
    {tag : Nat} (htag : tag < 4) (hvalue : value < 2 ^ (8 * 2 ^ tag - 2)) (rest : Bytes) :
    quicvarintDecode (bigEndian (2 ^ tag) (tag * 2 ^ (8 * 2 ^ tag - 2) + value) ++ rest) =
      some (value, rest) := by
  obtain ⟨width, hwidth⟩ : ∃ width, 2 ^ tag = width + 1 :=
    ⟨2 ^ tag - 1, by have := Nat.two_pow_pos tag; omega⟩
  rw [hwidth] at hvalue ⊢
  have hk : 8 * (width + 1) - 2 = 6 + 8 * width := by omega
  rw [hk] at hvalue ⊢
  have h256 : 256 ^ width = 2 ^ (8 * width) := by rw [show (256 : Nat) = 2 ^ 8 from rfl, ← pow_mul]
  have hlt : tag * 2 ^ (6 + 8 * width) + value < 256 ^ (width + 1) := by
    have : 256 ^ (width + 1) = 4 * 2 ^ (6 + 8 * width) := by
      rw [pow_succ, h256, pow_add]
      ring
    nlinarith [Nat.two_pow_pos (6 + 8 * width)]
  -- the top two bits of the first byte are the tag
  have hfirst : (ofNat ((tag * 2 ^ (6 + 8 * width) + value) / 256 ^ width)).toNat >>> 6 =
      tag := by
    have hdiv : (tag * 2 ^ (6 + 8 * width) + value) / 256 ^ width / 2 ^ 6 = tag := by
      rw [Nat.div_div_eq_div_mul, h256, ← pow_add, Nat.add_comm (8 * width) 6, Nat.mul_comm,
        Nat.mul_add_div (Nat.two_pow_pos _), Nat.div_eq_of_lt hvalue, Nat.add_zero]
    rw [toNat_ofNat', Nat.mod_eq_of_lt (by omega), Nat.shiftRight_eq_div_pow, hdiv]
  rw [bigEndian_succ_eq_cons, cons_append, quicvarintDecode]
  simp only [hfirst, hwidth]
  rw [← cons_append, ← bigEndian_succ_eq_cons, if_neg (by simp; omega)]
  simp only [hk, take_left' (length_bigEndian _ _), drop_left' (length_bigEndian _ _),
    bigEndianValue_bigEndian, Nat.mod_eq_of_lt hlt, Nat.mul_add_mod_of_lt hvalue]

theorem quicvarintDecode_quicvarint (h : value < 2 ^ 62) (rest : Bytes) :
    quicvarintDecode (quicvarint value ++ rest) = some (value, rest) := by
  rw [quicvarint]
  split_ifs with h63 h16383 h30
  · simpa using @quicvarintDecode_tagged _ 0 (by omega) (by simp; omega) rest
  · rw [or_tag (by omega)]
    exact @quicvarintDecode_tagged _ 1 (by omega) (by simp; omega) rest
  · rw [or_tag (by omega)]
    exact @quicvarintDecode_tagged _ 2 (by omega) (by simp; omega) rest
  · rw [or_tag (by omega)]
    exact @quicvarintDecode_tagged _ 3 (by omega) (by simp; omega) rest

/-! ## What is written -/

/-- The bytes in front of a name. -/
def nameHead (name : Bytes) : Bytes :=
  if name.length < 7 then [ofNat (0x20 ||| name.length)]
  else [0x27, ofNat (name.length - 7)]

/-- The bytes of `_qpack_build_header` where the buffer is large enough. -/
def fieldBytes (field : Bytes × Bytes) : Bytes :=
  nameHead field.1 ++ field.1 ++ quicvarint field.2.length ++ field.2

theorem qpackBuildHeader_eq
    {name value : Bytes} (h : qpackBuildHeader name value bufferSize = some bytes) :
    bytes = fieldBytes (name, value) ∧ bytes.length ≤ bufferSize := by
  simp only [qpackBuildHeader] at h
  rw [← nameHead] at h
  split at h
  · cases h
  rename_i hroom
  cases hvalue : quicvarintEncode value.length
      (bufferSize - ((nameHead name).length + name.length)) with
  | none => simp [hvalue] at h
  | some valueHead =>
  simp only [hvalue] at h
  split at h
  · cases h
  rename_i hfits
  cases h
  obtain ⟨rfl, hshort⟩ := quicvarintEncode_eq hvalue
  refine ⟨rfl, ?_⟩
  simp only [length_append]
  omega

theorem buildHeaders_eq
    {fields : List (Bytes × Bytes)} (h : buildHeaders bufferSize fields = some bytes) :
    bytes = fields.flatMap fieldBytes ∧ bytes.length ≤ bufferSize := by
  induction fields generalizing bufferSize bytes with
  | nil =>
    cases h
    exact ⟨rfl, Nat.zero_le _⟩
  | cons field fields ih =>
  simp only [buildHeaders] at h
  cases hfield : qpackBuildHeader field.1 field.2 bufferSize with
  | none => simp [hfield] at h
  | some header =>
  simp only [hfield] at h
  obtain ⟨rest, hrest, rfl⟩ := Option.map_eq_some_iff.mp h
  obtain ⟨rfl, hheader⟩ := qpackBuildHeader_eq hfield
  obtain ⟨rfl, hfields⟩ := ih hrest
  refine ⟨rfl, ?_⟩
  rw [length_append]
  omega

theorem writeFrame_eq {frameType bufferLen : Nat} {payload : Bytes}
    (h : writeFrame frameType payload bufferLen = some bytes) :
    bytes = quicvarint frameType ++ quicvarint payload.length ++ payload ∧
      bytes.length ≤ bufferLen := by
  simp only [writeFrame] at h
  cases htype : quicvarintEncode frameType bufferLen with
  | none => simp [htype] at h
  | some typeBytes =>
  simp only [htype] at h
  cases hlen : quicvarintEncode payload.length (bufferLen - typeBytes.length) with
  | none => simp [hlen] at h
  | some lenBytes =>
  simp only [hlen] at h
  split at h
  · cases h
  · cases h
    obtain ⟨rfl, htypeLe⟩ := quicvarintEncode_eq htype
    obtain ⟨rfl, hlenLe⟩ := quicvarintEncode_eq hlen
    refine ⟨rfl, ?_⟩
    simp only [length_append]
    omega

/-! ## Reading a field back -/

/-- The bytes that a field takes in the buffer of the head that reads it. -/
def storedBytes (field : Bytes × Bytes) : Bytes :=
  field.1 ++ [0] ++ (field.2 ++ [0])

/-- The lengths up to which reader and writer agree. -/
def ShortField (field : Bytes × Bytes) : Prop :=
  field.1.length ≤ 134 ∧ field.2.length ≤ 63

theorem quicReadVarint_of_lt {first : UInt8} (rest : Bytes) (hvalue : first.toNat % 2 ^ n = value)
    (hlt : value < 2 ^ n - 1) :
    quicReadVarint (first :: rest) n = some (value, rest) := by
  simp only [quicReadVarint, Nat.shiftLeft_eq, Nat.one_mul, Nat.and_two_pow_sub_one_eq_mod,
    hvalue, if_pos hlt]

theorem quicReadString_plain {maxStrLen : Int} (hread : quicReadVarint buffer n = some (len, rest))
    (hlen : len ≤ rest.length) (hmax : (len : Int) ≤ maxStrLen) :
    quicReadString buffer maxStrLen n false = .ok (rest.take len, rest.drop len) := by
  have h0 : ¬ maxStrLen < 0 := by omega
  have h1 : ¬ rest.length < len := by omega
  have h2 : ¬ maxStrLen < len := by omega
  simp [quicReadString, if_neg h0, hread, if_neg h1, if_neg h2]

theorem readHeadString_plain
    (hread : quicReadVarint buffer n = some (len, rest)) (hlen : len ≤ rest.length)
    (hroom : h.buff.length + len + 1 ≤ h.buffSize) :
    readHeadString h buffer n false =
      .ok ({ h with buff := h.buff ++ (rest.take len ++ [0]) }, CStr.ofBuffer (rest.take len),
        rest.drop len) := by
  have hmax : (len : Int) ≤ httpHeadBufferLeftLen h - 1 := by
    rw [httpHeadBufferLeftLen]
    omega
  have happend : ¬ h.buffSize < h.buff.length + (rest.take len ++ [(0 : UInt8)]).length := by
    rw [length_append, length_take, Nat.min_eq_left hlen, length_singleton]
    omega
  simp only [readHeadString, quicReadString_plain hread hlen hmax, httpHeadBufferAppend,
    if_neg happend]

/-- The byte in front of a name says: a literal name, without Huffman. -/
theorem nameHead_flags (name tail : Bytes) :
    firstByteHas 0x80 (nameHead name ++ tail) = false ∧
    firstByteHas 0x40 (nameHead name ++ tail) = false ∧
    firstByteHas 0x20 (nameHead name ++ tail) = true ∧
    firstByteHas 0x8 (nameHead name ++ tail) = false := by
  rw [nameHead]
  split_ifs with h
  · generalize name.length = len at h
    simp only [firstByteHas, singleton_append, headD_cons]
    revert len
    decide
  · simp only [firstByteHas, cons_append, headD_cons]
    decide

theorem and_127 (n : Nat) : n &&& 127 = n % 128 :=
  Nat.and_two_pow_sub_one_eq_mod n 7

/-- A three-bit integer that ends with the byte behind its prefix. -/
theorem quicReadVarint_two {c : UInt8} (hc : c.toNat < 128) (tail : Bytes) :
    quicReadVarint (0x27 :: c :: tail) 3 = some (7 + c.toNat, tail) := by
  have hlast : c.toNat &&& 128 = 0 := (and_two_pow_eq_zero_iff _ 7).mpr (by omega)
  simp only [quicReadVarint, quicReadVarintLoop, and_127, hlast, if_true, Nat.shiftLeft_zero,
    Nat.mod_eq_of_lt hc]
  rfl

theorem quicReadVarint_three {c b : UInt8} (hc : 128 ≤ c.toNat) (hb : b.toNat < 128)
    (tail : Bytes) :
    quicReadVarint (0x27 :: c :: b :: tail) 3 =
      some (7 + (c.toNat - 128) + b.toNat * 128, tail) := by
  have hc256 := c.toNat_lt
  have hmore : ¬ c.toNat &&& 128 = 0 := by
    intro h0
    have := (and_two_pow_eq_zero_iff _ 7).mp h0
    omega
  have hlast : b.toNat &&& 128 = 0 := (and_two_pow_eq_zero_iff _ 7).mpr (by omega)
  have hchunk : c.toNat % 128 = c.toNat - 128 := by omega
  have hfirst : (0x27 : UInt8).toNat &&& (1 * 2 ^ 3 - 1) = 7 := by decide
  simp only [quicReadVarint, quicReadVarintLoop, and_127, hlast, if_neg hmore, if_true,
    Nat.mod_eq_of_lt hb, hchunk, Nat.shiftLeft_eq, hfirst]
  simp

theorem quicReadVarint_nameHead {name : Bytes} (h : name.length ≤ 134) (tail : Bytes) :
    quicReadVarint (nameHead name ++ tail) 3 = some (name.length, tail) := by
  rw [nameHead]
  generalize name.length = len at h
  split_ifs with h7
  · apply quicReadVarint_of_lt tail _ (by omega)
    revert len
    decide
  have hbyte : (ofNat (len - 7)).toNat = len - 7 := by
    rw [toNat_ofNat']
    omega
  have hlen : 7 + (len - 7) = len := by omega
  rw [cons_append, singleton_append, quicReadVarint_two (by omega), hbyte, hlen]

theorem firstByteHas_high {first : UInt8} (h : first.toNat < 128) (tail : Bytes) :
    firstByteHas 0x80 (first :: tail) = false := by
  have hbit : first.toNat &&& 128 = 0 := (and_two_pow_eq_zero_iff _ 7).mpr (by omega)
  simp only [firstByteHas, headD_cons, hbit, bne_self_eq_false]

theorem quicvarint_plain (h : len ≤ 16383) (tail : Bytes) :
    firstByteHas 0x80 (quicvarint len ++ tail) = false := by
  by_cases h63 : len ≤ 63
  · rw [quicvarint_of_le h63]
    apply firstByteHas_high
    rw [toNat_ofNat']
    omega
  rw [quicvarint_of_gt (by omega) h]
  apply firstByteHas_high
  rw [toNat_ofNat']
  omega

theorem quicReadVarint_quicvarint (h : len ≤ 63) (tail : Bytes) :
    quicReadVarint (quicvarint len ++ tail) 7 = some (len, tail) := by
  rw [quicvarint_of_le h, singleton_append]
  apply quicReadVarint_of_lt tail _ (by omega)
  rw [toNat_ofNat']
  omega

theorem parseHeader_short
    (name value : CStr) (hshort : ShortField (name.bytes, value.bytes)) (rest : Bytes)
    (hroom : h.buff.length + (storedBytes (name.bytes, value.bytes)).length ≤ h.buffSize) :
    parseHeader h (fieldBytes (name.bytes, value.bytes) ++ rest) =
      .ok ({ h with buff := h.buff ++ storedBytes (name.bytes, value.bytes) }, name, some value,
        rest) := by
  obtain ⟨hname, hvalue⟩ := hshort
  simp only at hname hvalue
  simp only [storedBytes, length_append, length_singleton] at hroom
  simp only [fieldBytes, append_assoc]
  obtain ⟨h80, h40, h20, h8⟩ := nameHead_flags name.bytes
    (name.bytes ++ (quicvarint value.bytes.length ++ (value.bytes ++ rest)))
  have hreadName := readHeadString_plain (h := h) (quicReadVarint_nameHead hname
      (name.bytes ++ (quicvarint value.bytes.length ++ (value.bytes ++ rest))))
    (by simp) (by omega)
  rw [take_left, drop_left, CStr.ofBuffer_bytes] at hreadName
  have hreadValue := readHeadString_plain (h := { h with buff := h.buff ++ (name.bytes ++ [0]) })
    (quicReadVarint_quicvarint hvalue (value.bytes ++ rest))
    (by simp) (by simp; omega)
  rw [take_left, drop_left, CStr.ofBuffer_bytes] at hreadValue
  simp only [parseHeader, h80, h40, h20, h8, hreadName, hreadValue,
    quicvarint_plain (by omega : value.bytes.length ≤ 16383), Bool.false_eq_true, if_false,
    if_true, Bool.false_or, storedBytes, append_assoc]

/-- A field as the writer sees it. -/
def wire (field : Pair) : Bytes × Bytes :=
  (field.1.bytes, field.2.bytes)

/-- The strings of some fields, one behind the other. -/
def storedAll (fields : List Pair) : Bytes :=
  fields.flatMap fun field => storedBytes (wire field)

theorem storedBytes_le (field : Bytes × Bytes) :
    (storedBytes field).length ≤ (fieldBytes field).length := by
  have hname : 1 ≤ (nameHead field.1).length := by
    rw [nameHead]
    split_ifs <;> simp
  have hvalue : 1 ≤ (quicvarint field.2.length).length := by
    rw [quicvarint]
    split_ifs <;> simp
  simp only [storedBytes, fieldBytes, length_append, length_singleton]
  omega

theorem fieldBytes_ne_nil (field : Bytes × Bytes) : 0 < (fieldBytes field).length := by
  have h := storedBytes_le field
  simp only [storedBytes, length_append, length_singleton] at h
  omega

theorem fieldBytes_eq_cons (field : Bytes × Bytes) (rest : Bytes) :
    ∃ b data, fieldBytes field ++ rest = b :: data := by
  refine exists_cons_of_length_pos ?_
  rw [length_append]
  exact Nat.add_pos_left (fieldBytes_ne_nil field) _

theorem parseHeadersLoop_short (hshort : ShortField (wire field)) (rest : Bytes)
    (hroom : h.buff.length + (storedBytes (wire field)).length ≤ h.buffSize) :
    parseHeadersLoop (fuel + 1) h (fieldBytes (wire field) ++ rest) = parseHeadersLoop fuel { h with
          buff := h.buff ++ storedBytes (wire field)
          fields := h.fields ++ [field] } rest := by
  have hparse := parseHeader_short field.1 field.2 hshort rest hroom
  obtain ⟨b, data, hdata⟩ := fieldBytes_eq_cons (wire field) rest
  have hb : parseHeader h (b :: data) = _ := hdata ▸ hparse
  simp only [hdata, parseHeadersLoop, hb]
  rfl

theorem parseHeadersLoop_append
    {fields : List Pair} (hshort : ∀ field ∈ fields, ShortField (wire field)) (rest : Bytes)
    (hroom : h.buff.length + (storedAll fields).length ≤ h.buffSize) :
    parseHeadersLoop (fuel + fields.length) h (fields.flatMap (fieldBytes ∘ wire) ++ rest) =
      parseHeadersLoop fuel { h with
          buff := h.buff ++ storedAll fields
          fields := h.fields ++ fields } rest := by
  induction fields generalizing h with
  | nil => simp [storedAll]
  | cons field fields ih =>
  simp only [storedAll, flatMap_cons, length_append] at hroom
  have hfield := hshort field mem_cons_self
  rw [length_cons, ← Nat.add_assoc, flatMap_cons, append_assoc,
    Function.comp_apply, parseHeadersLoop_short hfield _ (by omega),
    ih (fun f hf => hshort f (mem_cons_of_mem _ hf))
      (by simp only [storedAll, length_append]; omega)]
  simp only [storedAll, flatMap_cons, append_assoc, singleton_append]

/-! ## Fields that are too long -/

theorem readHeadString_plain_inv (hread : readHeadString h buffer n false = .ok (h', str, after)) :
    ∃ len rest, quicReadVarint buffer n = some (len, rest) ∧ len ≤ rest.length ∧
      str = CStr.ofBuffer (rest.take len) ∧ after = rest.drop len := by
  simp only [readHeadString, quicReadString, Bool.false_eq_true, if_false] at hread
  split at hread
  · cases hread
  rename_i text rest hstring
  split at hstring
  · cases hstring
  split at hstring
  · cases hstring
  rename_i len tail hvarint
  split_ifs at hstring with hlen hmax
  cases hstring
  split at hread
  · cases hread
  · cases hread
    exact ⟨len, tail, hvarint, by omega, rfl, rfl⟩

theorem parseHeader_literal {field : Bytes × Bytes} {value : Option CStr}
    (hparse : parseHeader h (fieldBytes field ++ rest) = .ok (h', name, value, after)) :
    ∃ h₁ mid str, readHeadString h (fieldBytes field ++ rest) 3 false = .ok (h₁, name, mid) ∧
      readHeadString h₁ mid 7 (firstByteHas 0x80 mid) = .ok (h', str, after) ∧
      value = some str := by
  have hflags := nameHead_flags field.1 (field.1 ++
    (quicvarint field.2.length ++ (field.2 ++ rest)))
  rw [← append_assoc, ← append_assoc, ← append_assoc, ← fieldBytes] at hflags
  obtain ⟨h80, h40, h20, h8⟩ := hflags
  simp only [parseHeader, h80, h40, h20, h8, Bool.false_eq_true, if_false, if_true,
    Bool.false_or] at hparse
  split at hparse
  · cases hparse
  rename_i h₁ name' mid hname
  split at hparse
  · cases hparse
  rename_i h₂ str after' hvalue
  cases hparse
  exact ⟨h₁, mid, str, hname, hvalue, rfl⟩

theorem ofBuffer_length_le (buffer : Bytes) : (CStr.ofBuffer buffer).bytes.length ≤ buffer.length :=
  ( List.takeWhile_prefix _).length_le

/-- A string that is the byte in front of it, shifted by one, is that byte all
through. -/
theorem eq_of_eq_cons_take {value : Bytes} {b : UInt8} {k : Nat} (hk : value.length = k + 1)
    (h : value = b :: value.take k) :
    ∀ i (hi : i < value.length), value.get ⟨i, hi⟩ = b := by
  intro i
  induction i with
  | zero =>
    intro hi
    have h0 := congrArg (fun l => l[0]?) h
    simpa [getElem?_eq_getElem hi] using h0
  | succ i ih =>
  intro hi
  have hprev : value.get ⟨i, by omega⟩ = b := ih (by omega)
  have hnext := congrArg (fun l => l[i + 1]?) h
  simp only [getElem?_cons_succ, getElem?_take_of_lt (show i < k by omega),
    getElem?_eq_getElem hi, getElem?_eq_getElem (show i < value.length by omega),
    Option.some.injEq] at hnext
  rw [← hprev]
  simpa using hnext

theorem quicReadVarintLoop_rest
    {m i : Nat} (h : quicReadVarintLoop buffer m i = some (value, rest)) :
    rest.length < buffer.length := by
  induction buffer generalizing m i with
  | nil => cases h
  | cons b buffer ih =>
  simp only [quicReadVarintLoop] at h
  split_ifs at h
  · cases h
    simp
  have := ih h
  simp only [length_cons]
  omega

theorem quicReadVarint_rest
    (h : quicReadVarint buffer n = some (value, rest)) : rest.length < buffer.length := by
  cases buffer with
  | nil => cases h
  | cons b buffer =>
  simp only [quicReadVarint] at h
  split_ifs at h
  · cases h
    simp
  have := quicReadVarintLoop_rest h
  simp only [length_cons]
  omega

/-- An integer of more than two bytes behind its prefix is too large for any buffer: no byte of a
name is zero, and the reader gives up after nine bytes. -/
theorem quicReadVarintLoop_large {text tail : Bytes} {m i : Nat} (htext : ∀ b ∈ text, b ≠ 0)
    (h14 : 14 ≤ m) (h63 : m < 63) (hlong : 63 ≤ m + 7 * text.length)
    (h : quicReadVarintLoop (text ++ tail) m i = some (value, rest)) : 16384 ≤ value := by
  induction text generalizing m i with
  | nil => simp only [length_nil] at hlong; omega
  | cons b text ih =>
  obtain ⟨hb, htext⟩ := forall_mem_cons.mp htext
  simp only [cons_append, quicReadVarintLoop] at h
  simp only [length_cons] at hlong
  split_ifs at h with hlast hend
  · cases h
    have hb128 := (and_two_pow_eq_zero_iff b.toNat 7).mp hlast
    have hpos : b.toNat ≠ 0 := fun h0 => hb (UInt8.toNat_inj.mp h0)
    have hpow : 2 ^ 14 ≤ 2 ^ m := Nat.pow_le_pow_right (by omega) h14
    have hone : 1 ≤ b.toNat % 128 := by have := b.toNat_lt; omega
    have hmul := Nat.mul_le_mul hone hpow
    rw [and_127, Nat.shiftLeft_eq]
    omega
  · exact ih htext (by omega) (by omega) (by omega) h

/-- A name of more than 134 bytes comes back as another one, or not at all: its
length loses what does not fit a byte, or runs into the name. -/
theorem parseHeader_longName
    {name' : CStr} {value : Bytes} {value' : Option CStr}
    (hname : ∃ b ∈ name.bytes, 8 ≤ b.toNat) (hlong : 134 < name.bytes.length)
    (hsize : (fieldBytes (name.bytes, value) ++ rest).length ≤ 1024)
    (hparse : parseHeader h (fieldBytes (name.bytes, value) ++ rest) =
      .ok (h', name', value', after)) :
    name' ≠ name := by
  obtain ⟨h₁, mid, str, hread, -, -⟩ := parseHeader_literal hparse
  obtain ⟨len, tail, hvarint, hlen, rfl, -⟩ := readHeadString_plain_inv hread
  obtain ⟨b, text, htext⟩ := exists_cons_of_length_pos (show 0 < name.bytes.length by omega)
  have hhead : nameHead name.bytes = [0x27, ofNat (name.bytes.length - 7)] := by
    rw [nameHead, if_neg (by omega)]
  have hwire : fieldBytes (name.bytes, value) ++ rest =
      0x27 :: ofNat (name.bytes.length - 7) :: b ::
        (text ++ (quicvarint value.length ++ (value ++ rest))) := by
    simp only [fieldBytes, hhead, append_assoc]
    rw [htext]
    rfl
  rw [hwire] at hvarint hsize
  generalize quicvarint value.length ++ (value ++ rest) = behind at hvarint hsize
  intro heq
  have hle := ofBuffer_length_le (tail.take len)
  rw [heq, length_take] at hle
  have htail := quicReadVarint_rest hvarint
  by_cases hc : (ofNat (name.bytes.length - 7)).toNat < 128
  · rw [quicReadVarint_two hc] at hvarint
    cases hvarint
    omega
  by_cases hb : b.toNat < 128
  · -- the name would be one byte all through, and that byte gives its length
    rw [quicReadVarint_three (by omega) hb] at hvarint
    cases hvarint
    have hfront : b :: text <+: text ++ behind := by
      rw [← htext, ← heq]
      exact ( takeWhile_prefix _).trans ( take_prefix _ _)
    have hshift : b :: text.take (text.length - 1) = text := by
      rw [htext, length_cons] at hlong
      have hcut := prefix_iff_eq_take.mp
        (( take_prefix text.length (b :: text)).trans hfront)
      rw [length_take, length_cons, Nat.min_eq_left (by omega), take_left,
        take_cons (by omega)] at hcut
      exact hcut
    obtain ⟨b', hb', hlarge⟩ := hname
    simp only [length_cons, htext, mem_cons] at hsize hlen hlong hb'
    have hall := eq_of_eq_cons_take (show text.length = text.length - 1 + 1 by omega) hshift.symm
    have hsame : b' = b := by
      rcases hb' with rfl | hb'
      · rfl
      · obtain ⟨⟨i, hi⟩, rfl⟩ := mem_iff_get.mp hb'
        exact hall i hi
    subst hsame
    omega
  · have hmore : ∀ x : UInt8, ¬ x.toNat < 128 → ¬ x.toNat &&& 128 = 0 := by
      intro x hx h0
      have := (and_two_pow_eq_zero_iff _ 7).mp h0
      have := x.toNat_lt
      omega
    simp only [quicReadVarint, quicReadVarintLoop, if_neg (hmore _ hc), if_neg (hmore _ hb)]
      at hvarint
    rw [if_neg (by decide), if_neg (by decide), if_neg (by decide)] at hvarint
    have hlarge := quicReadVarintLoop_large
      (fun x hx => name.noNul x (htext ▸ mem_cons_of_mem b hx)) (by decide) (by decide) (by
        rw [htext, length_cons] at hlong
        omega) hvarint
    simp only [length_cons] at hsize htail
    omega

/-- The string that a value of 64 bytes or more comes back as: the reader takes
the first byte of its length for the whole. -/
def longValue (value rest : Bytes) : Bytes :=
  (ofNat value.length :: (value ++ rest)).take (64 + value.length / 256)

theorem quicReadVarint_long (h63 : 63 < len) (h : len ≤ 1024) (tail : Bytes) :
    quicReadVarint (quicvarint len ++ tail) 7 = some (64 + len / 256, ofNat len :: tail) := by
  rw [quicvarint_of_gt h63 (by omega), cons_append]
  apply quicReadVarint_of_lt _ _ (by omega)
  rw [toNat_ofNat']
  omega

theorem parseHeader_longValue
    {name' : CStr} {value : Bytes} {value' : Option CStr} (hname : name.bytes.length ≤ 134)
    (hlong : 63 < value.length) (hle : value.length ≤ 1024)
    (hparse : parseHeader h (fieldBytes (name.bytes, value) ++ rest) =
      .ok (h', name', value', after)) :
    name' = name ∧ value' = some (CStr.ofBuffer (longValue value rest)) ∧
      after = (ofNat value.length :: (value ++ rest)).drop (64 + value.length / 256) := by
  obtain ⟨h₁, mid, str, hread, hreadValue, rfl⟩ := parseHeader_literal hparse
  obtain ⟨len, tail, hvarint, hlen, rfl, rfl⟩ := readHeadString_plain_inv hread
  simp only [fieldBytes, append_assoc] at hvarint
  rw [quicReadVarint_nameHead hname] at hvarint
  cases hvarint
  rw [drop_left, quicvarint_plain (by omega)] at hreadValue
  obtain ⟨len, tail, hvarint, hlen, rfl, rfl⟩ := readHeadString_plain_inv hreadValue
  rw [quicReadVarint_long hlong hle] at hvarint
  cases hvarint
  exact ⟨by rw [take_left, CStr.ofBuffer_bytes], rfl, rfl⟩

theorem quicReadString_rest {str : Bytes} {maxStrLen : Int}
    (h : quicReadString buffer maxStrLen n huffman = .ok (str, rest)) :
    rest.length < buffer.length := by
  rw [quicReadString] at h
  split at h
  · cases h
  split at h
  · cases h
  rename_i len tail hvarint
  have htail := quicReadVarint_rest hvarint
  have hdrop : (tail.drop len).length ≤ tail.length := by simp
  split_ifs at h
  · split at h
    · cases h
    · cases h
      omega
  · cases h
    omega

/-- A string is read from the front of the buffer, and changes nothing but the buffer of
the head. -/
theorem readHeadString_ok (hread : readHeadString h buffer n huffman = .ok (h', str, after)) :
    h' = { h with buff := h'.buff } ∧ after.length < buffer.length := by
  simp only [readHeadString, httpHeadBufferAppend] at hread
  split at hread
  · cases hread
  rename_i hstring
  split_ifs at hread
  cases hread
  exact ⟨rfl, quicReadString_rest hstring⟩

theorem parseHeader_ok
    {value : Option CStr} (hparse : parseHeader h data = .ok (h', name, value, after)) :
    h' = { h with buff := h'.buff } ∧ after.length < data.length := by
  simp only [parseHeader] at hparse
  split_ifs at hparse
  · split at hparse
    · cases hparse
    rename_i hvarint
    split at hparse
    · cases hparse
    · cases hparse
      exact ⟨rfl, quicReadVarint_rest hvarint⟩
  · split at hparse
    · cases hparse
    rename_i hvarint
    split at hparse
    · cases hparse
    split at hparse
    · cases hparse
    rename_i hread
    cases hparse
    obtain ⟨hframe, hrest⟩ := readHeadString_ok hread
    exact ⟨hframe, hrest.trans (quicReadVarint_rest hvarint)⟩
  · split at hparse
    · cases hparse
    rename_i hname
    split at hparse
    · cases hparse
    rename_i hvalue
    cases hparse
    obtain ⟨hframe, hrest⟩ := readHeadString_ok hname
    obtain ⟨hframe', hrest'⟩ := readHeadString_ok hvalue
    exact ⟨by rw [hframe', hframe], hrest'.trans hrest⟩

theorem parseHeadersLoop_frame (hloop : parseHeadersLoop fuel h data = .ok h') :
    h.fields <+: h'.fields ∧ h' = { h with fields := h'.fields, buff := h'.buff } := by
  induction fuel generalizing h data with
  | zero =>
    cases data with
    | nil =>
      cases hloop
      exact ⟨prefix_rfl, rfl⟩
    | cons b data => cases hloop
  | succ fuel ih =>
  cases data with
  | nil =>
    cases hloop
    exact ⟨prefix_rfl, rfl⟩
  | cons b data =>
  simp only [parseHeadersLoop] at hloop
  split at hloop
  · cases hloop
  next h₁ name value rest hparse =>
    obtain ⟨hfields, hframe⟩ := ih hloop
    rw [(parseHeader_ok hparse).1] at hfields hframe
    exact ⟨(prefix_append _ _).trans hfields, hframe⟩
  next hparse =>
    cases hloop
    rw [(parseHeader_ok hparse).1]
    exact ⟨prefix_rfl, rfl⟩

/-- What the loop does with a field: it appends what the turn has read. -/
theorem parseHeadersLoop_turn
    {field : Bytes × Bytes} (hloop : parseHeadersLoop fuel h (fieldBytes field ++ rest) = .ok h') :
    ∃ fuel' h₁ name value after, fuel = fuel' + 1 ∧
      parseHeader h (fieldBytes field ++ rest) = .ok (h₁, name, some value, after) ∧
      parseHeadersLoop fuel' { h₁ with fields := h.fields ++ [(name, value)] } after = .ok h' := by
  obtain ⟨b, data, hdata⟩ := fieldBytes_eq_cons field rest
  cases fuel with
  | zero =>
    rw [hdata] at hloop
    cases hloop
  | succ fuel =>
  rw [hdata] at hloop
  simp only [parseHeadersLoop] at hloop
  rw [← hdata] at hloop
  split at hloop
  · cases hloop
  next h₁ name value after hparse =>
    have hfields : h₁.fields = h.fields := by rw [(parseHeader_ok hparse).1]
    rw [hfields] at hloop
    exact ⟨fuel, h₁, name, value, after, rfl, hparse, hloop⟩
  next hparse =>
    obtain ⟨_, _, _, _, _, hvalue⟩ := parseHeader_literal hparse
    cases hvalue

theorem parseHeadersLoop_at (fuel : Nat) (h : ReceivedHead) (rest : Bytes) :
    ∃ e, parseHeadersLoop fuel h (64 :: rest) = .error e := by
  cases fuel with
  | zero => exact ⟨_, rfl⟩
  | succ fuel =>
  obtain ⟨h80, h40, h10⟩ : firstByteHas 0x80 ((64 : UInt8) :: rest) = false ∧
      firstByteHas 0x40 ((64 : UInt8) :: rest) = true ∧
      firstByteHas 0x10 ((64 : UInt8) :: rest) = false := by
    simp only [firstByteHas, headD_cons]
    decide
  have hparse : parseHeader h (64 :: rest) = .error (-2) := by
    simp [parseHeader, h80, h40, h10]
  exact ⟨-2, by simp only [parseHeadersLoop, hparse]⟩

/-- A value of 64 bytes or more comes back as another one, and a shorter one
unless it has exactly 64. -/
theorem parseHeadersLoop_longValue
    (hname : field.1.bytes.length ≤ 134) (hlong : 63 < field.2.bytes.length)
    (hle : field.2.bytes.length ≤ 1024)
    (hloop : parseHeadersLoop fuel h (fieldBytes (wire field) ++ rest) = .ok h') :
    ∃ value : CStr, h.fields ++ [(field.1, value)] <+: h'.fields ∧ value ≠ field.2 ∧
      value.bytes.length ≤ 64 + field.2.bytes.length / 256 := by
  obtain ⟨fuel', h₁, name, value, after, -, hparse, hnext⟩ := parseHeadersLoop_turn hloop
  obtain ⟨rfl, hvalue, rfl⟩ := parseHeader_longValue hname hlong hle hparse
  cases hvalue
  have hshort := ofBuffer_length_le (longValue field.2.bytes rest)
  have htake : (longValue field.2.bytes rest).length ≤ 64 + field.2.bytes.length / 256 :=
    length_take_le _ _
  refine ⟨_, (parseHeadersLoop_frame hnext).1, ?_, by omega⟩
  intro heq
  rw [heq] at hshort
  have h64 : field.2.bytes.length = 64 := by omega
  have hcut : longValue field.2.bytes rest = 64 :: field.2.bytes.take 63 := by
    rw [longValue, h64, take_succ_cons, take_append_of_le_length (by omega)]
    rfl
  have hplain : (CStr.ofBuffer (64 :: field.2.bytes.take 63)).bytes =
      64 :: field.2.bytes.take 63 := by
    apply takeWhile_eq_self_iff.mpr
    intro b hb
    rcases mem_cons.mp hb with rfl | hb
    · decide
    · simpa using field.2.noNul b (mem_of_mem_take hb)
  -- the value is 64 times `@`, and the last of them is taken for a field
  have hall := @eq_of_eq_cons_take field.2.bytes 64 63 h64 (by
    rw [← hplain, ← hcut, heq])
  have hlast : (ofNat field.2.bytes.length :: (field.2.bytes ++ rest)).drop
      (64 + field.2.bytes.length / 256) = 64 :: rest := by
    rw [h64, drop_succ_cons, drop_append_of_le_length (by omega),
      drop_eq_getElem_cons (by omega), drop_of_length_le (by omega)]
    have h63 := hall 63 (by omega)
    simpa using h63
  rw [hlast] at hnext
  obtain ⟨e, herror⟩ := parseHeadersLoop_at fuel'
    { h₁ with fields := h.fields ++ [(field.1, CStr.ofBuffer (longValue field.2.bytes rest))] }
    rest
  rw [herror] at hnext
  cases hnext

/-- A field of a head that reader and writer see differently does not come
back. -/
theorem parseHeadersLoop_long
    (hname : 134 < field.1.bytes.length → ∃ b ∈ field.1.bytes, 8 ≤ b.toNat)
    (hlong : ¬ ShortField (wire field))
    (hsize : (fieldBytes (wire field) ++ rest).length ≤ 1024)
    (hloop : parseHeadersLoop fuel h (fieldBytes (wire field) ++ rest) = .ok h') :
    ¬ h.fields ++ [field] <+: h'.fields := by
  intro hsame
  have htake : ∀ other : Pair, h.fields ++ [other] <+: h'.fields → other = field := by
    intro other hother
    have heq := prefix_of_prefix_length_le hother hsame (by simp)
    simpa using heq
  by_cases hlen : field.1.bytes.length ≤ 134
  · have hvalue : 63 < field.2.bytes.length := by
      by_contra hle
      exact hlong ⟨hlen, Nat.le_of_not_lt hle⟩
    have hle : field.2.bytes.length ≤ 1024 := by
      simp only [fieldBytes, wire, length_append] at hsize
      omega
    obtain ⟨value, hother, hne, -⟩ := parseHeadersLoop_longValue hlen hvalue hle hloop
    have heq := htake _ hother
    exact hne (congrArg Prod.snd heq)
  · obtain ⟨fuel', h₁, name, value, after, -, hparse, hnext⟩ := parseHeadersLoop_turn hloop
    have hne := parseHeader_longName (hname (by omega)) (by omega) hsize hparse
    have heq := htake _ (parseHeadersLoop_frame hnext).1
    exact hne (congrArg Prod.fst heq)

/-! ## The loops end -/

/-- The length of the payload is enough fuel for the loop over its fields. -/
theorem parseHeadersLoop_fuel (hfuel : data.length ≤ fuel) :
    parseHeadersLoop fuel h data = parseHeadersLoop data.length h data := by
  induction fuel using Nat.strong_induction_on generalizing h data with
  | _ fuel ih =>
  cases data with
  | nil => cases fuel <;> rfl
  | cons b data =>
  obtain ⟨fuel, rfl⟩ : ∃ k, fuel = k + 1 := ⟨fuel - 1, by simp at hfuel; omega⟩
  simp only [length_cons, Nat.add_le_add_iff_right] at hfuel
  simp only [parseHeadersLoop, length_cons]
  split
  · rfl
  next hparse =>
    have hrest := (parseHeader_ok hparse).2
    simp only [length_cons] at hrest
    rw [ih fuel (by omega) (by omega)]
    rcases Nat.lt_or_ge data.length (fuel + 1) with hlt | hge
    · rw [ih data.length hlt (by omega)]
    · omega
  · rfl

theorem quicvarintDecode_rest
    (h : quicvarintDecode buffer = some (value, rest)) : rest.length < buffer.length := by
  cases buffer with
  | nil => cases h
  | cons b buffer =>
  simp only [quicvarintDecode] at h
  split_ifs at h
  cases h
  have hpos := Nat.two_pow_pos (b.toNat >>> 6)
  rw [length_drop]
  omega

/-- The length of the message is enough fuel for the loop over its frames. -/
theorem parseFrames_fuel {offset : Nat} {expect : Option Nat} (hfuel : data.length ≤ fuel) :
    parseFrames fuel h offset expect data = parseFrames data.length h offset expect data := by
  induction fuel using Nat.strong_induction_on generalizing h offset expect data with
  | _ fuel ih =>
  cases data with
  | nil => cases fuel <;> rfl
  | cons b data =>
  obtain ⟨fuel, rfl⟩ : ∃ k, fuel = k + 1 := ⟨fuel - 1, by simp at hfuel; omega⟩
  simp only [length_cons, Nat.add_le_add_iff_right] at hfuel
  simp only [parseFrames, length_cons]
  split
  · rfl
  rename_i htype
  split
  · rfl
  rename_i frameLen rest hlen
  have hrest := (quicvarintDecode_rest hlen).trans (quicvarintDecode_rest htype)
  have hdrop : (rest.drop frameLen).length ≤ rest.length := by simp
  simp only [length_cons] at hrest
  split_ifs
  · rfl
  · rfl
  split
  · rfl
  · rfl
  · rw [ih fuel (by omega) (by omega), ih data.length (by omega) (by omega)]

end SmartDns.Http3
