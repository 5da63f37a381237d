import SmartDns.Lib.Bytes

/-!
# HPACK integers

`hpack_encode_integer` and `hpack_decode_integer` of `http_parse/hpack.c`.

The encoder ORs the value into the byte that already holds the representation
flag and continues in base 128 when the prefix is full.  The decoder checks
every chunk against the room left below `UINT64_MAX`.
-/

namespace SmartDns.Hpack

open List

variable {prefixBits value : Nat} {bs : Bytes} {flag : UInt8}

def uint64Max : Nat := 2 ^ 64 - 1

/-- `(1 << prefix_bits) - 1`. -/
def maxPrefix (prefixBits : Nat) : Nat := 2 ^ prefixBits - 1

/-- The continuation bytes, `room` being `buf_size - offset`. -/
def hpackEncodeIntegerLoop : (room value : Nat) → Option Bytes
  | 0, _ => none
  | room + 1, value =>
    if 128 ≤ value then
      (hpackEncodeIntegerLoop room (value >>> 7)).map
        (fun bs => UInt8.ofNat ((value &&& 0x7F) ||| 0x80) :: bs)
    else some [UInt8.ofNat value]

/--
`hpack_encode_integer`; `flag` is the byte that the caller has stored in
`buf[0]`.
-/
def hpackEncodeInteger (flag : UInt8) (value prefixBits bufSize : Nat) : Option Bytes :=
  if bufSize < 1 then none
  else if value < maxPrefix prefixBits then some [flag ||| UInt8.ofNat value]
  else
    (hpackEncodeIntegerLoop (bufSize - 1) (value - maxPrefix prefixBits)).map
      (fun bs => (flag ||| UInt8.ofNat (maxPrefix prefixBits)) :: bs)

/-- The continuation loop of `hpack_decode_integer`. -/
def hpackDecodeIntegerLoop :
    Bytes → (offset shift result : Nat) → Option (Nat × Nat)
  | [], _, _, _ => none
  | byte :: rest, offset, shift, result =>
    let chunk := byte.toNat &&& 0x7F
    if 64 ≤ shift ∨ (uint64Max - result) >>> shift < chunk then none
    else if byte.toNat &&& 0x80 = 0 then some (result + chunk <<< shift, offset + 1)
    else
      hpackDecodeIntegerLoop rest (offset + 1) (shift + 7)
        (result + chunk <<< shift)

/-- `hpack_decode_integer`: the value and the number of bytes consumed. -/
def hpackDecodeInteger (data : Bytes) (prefixBits : Nat) : Option (Nat × Nat) :=
  match data with
  | [] => none
  | first :: rest =>
    let result := first.toNat &&& maxPrefix prefixBits
    if result < maxPrefix prefixBits then some (result, 1)
    else hpackDecodeIntegerLoop rest 1 0 result

/-- A continuation byte carries the low seven bits of the value. -/
theorem continuation_byte_chunk (value : Nat) :
    (UInt8.ofNat ((value &&& 0x7F) ||| 0x80)).toNat &&& 0x7F = value % 128 := by
  have hmod : value &&& 0x7F = value % 128 := Nat.and_two_pow_sub_one_eq_mod value 7
  have hlow : value % 128 < 2 ^ 7 := Nat.mod_lt _ (by decide)
  have hor : value % 128 ||| 0x80 = value % 128 + 128 := Nat.or_two_pow_eq_add_of_lt hlow
  rw [hmod, hor]
  have hnat : (UInt8.ofNat (value % 128 + 128)).toNat = value % 128 + 128 := by
    rw [UInt8.toNat_ofNat']
    omega
  rw [hnat]
  have hback : (value % 128 + 128) &&& 0x7F = (value % 128 + 128) % 128 :=
    Nat.and_two_pow_sub_one_eq_mod _ 7
  omega

theorem continuation_byte_flag (value : Nat) :
    (UInt8.ofNat ((value &&& 0x7F) ||| 0x80)).toNat &&& 0x80 ≠ 0 := by
  have hmod : value &&& 0x7F = value % 128 := Nat.and_two_pow_sub_one_eq_mod value 7
  rw [hmod]
  have hlow : value % 128 < 128 := Nat.mod_lt _ (by decide)
  generalize value % 128 = low at hlow
  revert low
  decide

theorem final_byte (hvalue : value < 128) :
    (UInt8.ofNat value).toNat &&& 0x7F = value ∧
    (UInt8.ofNat value).toNat &&& 0x80 = 0 := by
  revert value
  decide

/--
Decoding the continuation bytes of `value` adds `value <<< shift` to what was
read so far.  The bound keeps every chunk below `UINT64_MAX`, so the overflow
test of the decoder never fires.
-/
theorem hpackDecodeIntegerLoop_encode
    {room : Nat} (henc : hpackEncodeIntegerLoop room value = some bs) (rest : Bytes)
    (offset shift result : Nat) (hshift : shift < 64)
    (hbound : result + value * 2 ^ shift < 2 ^ 64) :
    hpackDecodeIntegerLoop (bs ++ rest) offset shift result =
      some (result + value * 2 ^ shift, offset + bs.length) := by
  induction room generalizing value bs offset shift result with
  | zero => simp [hpackEncodeIntegerLoop] at henc
  | succ room ih =>
  -- the chunk that is read now fits under `UINT64_MAX`
  have hfits : ∀ chunk : Nat, chunk ≤ value →
        ¬ (64 ≤ shift ∨ (uint64Max - result) >>> shift < chunk) := by
    intro chunk hchunk hbad
    rcases hbad with hbad | hbad
    · omega
    · rw [Nat.shiftRight_eq_div_pow, Nat.div_lt_iff_lt_mul (Nat.two_pow_pos shift)] at hbad
      have hmul : chunk * 2 ^ shift ≤ value * 2 ^ shift := Nat.mul_le_mul_right _ hchunk
      unfold uint64Max at hbad
      omega
  unfold hpackEncodeIntegerLoop at henc
  split at henc
  case isTrue hlarge =>
    obtain ⟨tail, htail, rfl⟩ := Option.map_eq_some_iff.mp henc
    rw [Nat.shiftRight_eq_div_pow] at htail
    have hsplit : value = 128 * (value / 128) + value % 128 := (Nat.div_add_mod value 128).symm
    have hpow : 2 ^ (shift + 7) = 128 * 2 ^ shift := by
      rw [Nat.pow_add]
      ring
    have hsum : result + (value % 128) * 2 ^ shift + value / 2 ^ 7 * 2 ^ (shift + 7) =
          result + value * 2 ^ shift := by
      rw [hpow]
      calc
        result + (value % 128) * 2 ^ shift + value / 2 ^ 7 * (128 * 2 ^ shift) = result +
                (128 * (value / 128) + value % 128) * 2 ^ shift := by
              norm_num
              ring
        _ = result + value * 2 ^ shift := by
              rw [← hsplit]
    have hquot : 1 ≤ value / 2 ^ 7 := by omega
    have hshift' : shift + 7 < 64 := by
      by_contra hge
      have hp : 2 ^ 64 ≤ 2 ^ (shift + 7) := Nat.pow_le_pow_right (by decide) (by omega)
      have hq : 2 ^ (shift + 7) ≤ value / 2 ^ 7 * 2 ^ (shift + 7) :=
        Nat.le_mul_of_pos_left _ hquot
      omega
    have hrec :=
      ih htail (offset + 1) (shift + 7) (result + (value % 128) * 2 ^ shift) hshift' (by omega)
    have hchunk := continuation_byte_chunk value
    have hflag := continuation_byte_flag value
    simp only [cons_append, hpackDecodeIntegerLoop, hchunk]
    rw [if_neg (hfits _ (Nat.mod_le _ _)), if_neg hflag, Nat.shiftLeft_eq, hrec, hsum]
    simp only [length_cons]
    congr 2
    omega
  case isFalse hsmall =>
  simp only [Option.some.injEq] at henc
  subst henc
  obtain ⟨hchunk, hflag⟩ := final_byte (by omega : value < 128)
  simp only [cons_append, nil_append, hpackDecodeIntegerLoop, hchunk, hflag]
  rw [if_neg (hfits _ (le_refl _))]
  simp [Nat.shiftLeft_eq]

theorem toNat_ofNat_of_lt_prefix (hbits : prefixBits ≤ 8) (hvalue : value < 2 ^ prefixBits) :
    (UInt8.ofNat value).toNat = value :=
  Nat.mod_eq_of_lt (hvalue.trans_le (Nat.pow_le_pow_right (by decide) hbits))

theorem first_byte_prefix (hbits : prefixBits ≤ 8) (hflag : flag.toNat % 2 ^ prefixBits = 0)
    (hvalue : value < 2 ^ prefixBits) :
    (flag ||| UInt8.ofNat value).toNat &&& maxPrefix prefixBits =
      value := by
  unfold maxPrefix
  rw [UInt8.toNat_or, toNat_ofNat_of_lt_prefix hbits hvalue, Nat.and_two_pow_sub_one_eq_mod,
    Nat.or_mod_two_pow, hflag, Nat.zero_or, Nat.mod_eq_of_lt hvalue]

/-- The flag bits above the prefix are the ones the caller stored. -/
theorem first_byte_flag (hbits : prefixBits ≤ 8) (hvalue : value < 2 ^ prefixBits) :
    (flag ||| UInt8.ofNat value).toNat / 2 ^ prefixBits = flag.toNat / 2 ^ prefixBits := by
  rw [UInt8.toNat_or, toNat_ofNat_of_lt_prefix hbits hvalue, ← Nat.shiftRight_eq_div_pow,
    ← Nat.shiftRight_eq_div_pow, Nat.shiftRight_or_distrib,
    Nat.shiftRight_eq_div_pow value, Nat.div_eq_of_lt hvalue, Nat.or_zero]

/--
**Integer round trip.**  Whatever follows in the block, the decoder reads back
the encoded value and consumes exactly the encoded bytes.
-/
theorem hpackDecodeInteger_encode
    {bufSize : Nat} (henc : hpackEncodeInteger flag value prefixBits bufSize = some bs)
    (hbits : prefixBits ≤ 8) (hflag : flag.toNat % 2 ^ prefixBits = 0) (hvalue : value < 2 ^ 64)
    (rest : Bytes) :
    hpackDecodeInteger (bs ++ rest) prefixBits = some (value, bs.length) := by
  unfold hpackEncodeInteger at henc
  split at henc
  case isTrue => simp at henc
  case isFalse =>
  split at henc
  case isTrue hsmall =>
    simp only [Option.some.injEq] at henc
    subst henc
    have hlt : value < 2 ^ prefixBits := by
      unfold maxPrefix at hsmall
      omega
    have hinit := first_byte_prefix hbits hflag hlt
    simp only [cons_append, nil_append, hpackDecodeInteger,
      hinit, hsmall, if_true, length_cons, length_nil]
  case isFalse hlarge =>
  obtain ⟨tail, htail, rfl⟩ := Option.map_eq_some_iff.mp henc
  have hlt : maxPrefix prefixBits < 2 ^ prefixBits := by
    unfold maxPrefix
    omega
  have hinit := first_byte_prefix hbits hflag hlt
  have hloop :=
    hpackDecodeIntegerLoop_encode htail rest 1 0 (maxPrefix prefixBits) (by decide) (by omega)
  simp only [cons_append, hpackDecodeInteger, hinit, lt_irrefl, if_false, hloop, length_cons]
  congr 2
  · omega
  · omega

/-- The first encoded byte keeps the representation flag readable. -/
theorem hpackEncodeInteger_head
    {bufSize : Nat} (henc : hpackEncodeInteger flag value prefixBits bufSize = some bs)
    (hbits : prefixBits ≤ 8) :
    ∃ first tail, bs = first :: tail ∧
      first.toNat / 2 ^ prefixBits = flag.toNat / 2 ^ prefixBits := by
  have hpos : 0 < 2 ^ prefixBits := Nat.two_pow_pos prefixBits
  unfold hpackEncodeInteger at henc
  split at henc
  case isTrue => simp at henc
  case isFalse =>
  split at henc
  case isTrue hsmall =>
    simp only [Option.some.injEq] at henc
    refine ⟨_, [], henc.symm, first_byte_flag hbits ?_⟩
    unfold maxPrefix at hsmall
    omega
  case isFalse hlarge =>
    obtain ⟨tail, _, rfl⟩ := Option.map_eq_some_iff.mp henc
    refine ⟨_, tail, rfl, first_byte_flag hbits ?_⟩
    unfold maxPrefix
    omega

/-- A value of `7 * k` bits takes at most `k` continuation bytes. -/
theorem hpackEncodeIntegerLoop_isSome (room value k : Nat)
    (hk : 0 < k) (hvalue : value < 2 ^ (7 * k)) (hroom : k ≤ room) :
    ∃ bs, hpackEncodeIntegerLoop room value = some bs ∧ bs.length ≤ k := by
  induction k generalizing room value with
  | zero => omega
  | succ k ih =>
  obtain ⟨room, rfl⟩ : ∃ n, room = n + 1 := ⟨room - 1, by omega⟩
  unfold hpackEncodeIntegerLoop
  split
  next hbig =>
    have hk' : 0 < k := by
      by_contra hzero
      obtain rfl : k = 0 := by omega
      omega
    have hshift : value >>> 7 < 2 ^ (7 * k) := by
      rw [Nat.shiftRight_eq_div_pow]
      apply Nat.div_lt_of_lt_mul
      exact lt_of_lt_of_eq hvalue (by ring)
    obtain ⟨bs, hbs, hlen⟩ := ih room _ hk' hshift (by omega)
    rw [hbs]
    exact ⟨_, rfl, by simpa using hlen⟩
  · exact ⟨_, rfl, by simp⟩

theorem hpackEncodeInteger_isSome (flag : UInt8) (value prefixBits bufSize k : Nat)
    (hk : 0 < k) (hvalue : value < 2 ^ (7 * k)) (hroom : k < bufSize) :
    ∃ bs, hpackEncodeInteger flag value prefixBits bufSize = some bs ∧ bs.length ≤ k + 1 := by
  unfold hpackEncodeInteger
  rw [if_neg (by omega)]
  split
  · exact ⟨_, rfl, by simp⟩
  · obtain ⟨bs, hbs, hlen⟩ :=
      hpackEncodeIntegerLoop_isSome (bufSize - 1)
        (value - maxPrefix prefixBits) k hk (by omega) (by omega)
    rw [hbs]
    exact ⟨_, rfl, by simpa using hlen⟩

/-! ## Overflow -/

/-- The continuation loop with the additions of `uint64_t`, which wrap. -/
def hpackDecodeIntegerLoop64 : Bytes → (offset shift result : Nat) → Option (Nat × Nat)
  | [], _, _, _ => none
  | byte :: rest, offset, shift, result =>
    let chunk := byte.toNat &&& 0x7F
    let sum := (result + (chunk <<< shift) % 2 ^ 64) % 2 ^ 64
    if 64 ≤ shift ∨ (uint64Max - result) >>> shift < chunk then none
    else if byte.toNat &&& 0x80 = 0 then some (sum, offset + 1)
    else hpackDecodeIntegerLoop64 rest (offset + 1) (shift + 7) sum

/-- `hpack_decode_integer` with the additions of `uint64_t`. -/
def hpackDecodeInteger64 (data : Bytes) (prefixBits : Nat) : Option (Nat × Nat) :=
  match data with
  | [] => none
  | first :: rest =>
    let result := first.toNat &&& maxPrefix prefixBits
    if result < maxPrefix prefixBits then some (result, 1)
    else hpackDecodeIntegerLoop64 rest 1 0 result

/-- The number that continuation bytes spell, however large it is. -/
def speltChunks (bytes : Bytes) : Nat :=
  bytes.foldr (fun byte n => (byte.toNat &&& 0x7F) + 128 * n) 0

/-- The number that the bytes of an integer spell. -/
def spelt (prefixBits : Nat) : Bytes → Nat
  | [] => 0
  | first :: rest => (first.toNat &&& maxPrefix prefixBits) + speltChunks rest

theorem hpackDecodeIntegerLoop64_eq (bytes : Bytes) (offset shift result : Nat)
    (hresult : result < 2 ^ 64) :
    hpackDecodeIntegerLoop64 bytes offset shift result =
      hpackDecodeIntegerLoop bytes offset shift result := by
  induction bytes generalizing offset shift result with
  | nil => rfl
  | cons byte rest ih =>
  rw [hpackDecodeIntegerLoop64, hpackDecodeIntegerLoop]
  split
  · rfl
  next hfits =>
  -- the test leaves room for the chunk, so nothing wraps
  have hsum : result + (byte.toNat &&& 0x7F) <<< shift < 2 ^ 64 := by
    rw [not_or, not_lt, Nat.shiftRight_eq_div_pow,
      Nat.le_div_iff_mul_le (Nat.two_pow_pos shift), uint64Max] at hfits
    rw [Nat.shiftLeft_eq]
    omega
  rw [Nat.mod_eq_of_lt (Nat.lt_of_le_of_lt (Nat.le_add_left _ _) hsum), Nat.mod_eq_of_lt hsum,
    ih _ _ _ hsum]

theorem hpackDecodeInteger64_eq (data : Bytes) (prefixBits : Nat) :
    hpackDecodeInteger64 data prefixBits = hpackDecodeInteger data prefixBits := by
  cases data with
  | nil => rfl
  | cons first rest =>
    have hfirst : first.toNat &&& maxPrefix prefixBits < 2 ^ 64 :=
      Nat.lt_of_le_of_lt Nat.and_le_left (Nat.lt_trans first.toNat_lt (by decide))
    rw [hpackDecodeInteger64, hpackDecodeInteger]
    rw [hpackDecodeIntegerLoop64_eq _ _ _ _ hfirst]

theorem hpackDecodeIntegerLoop_spelt {bytes : Bytes} {offset shift result n : Nat}
    (h : hpackDecodeIntegerLoop bytes offset shift result = some (value, n)) :
    ∃ k, n = offset + k ∧ value = result + speltChunks (bytes.take k) * 2 ^ shift := by
  induction bytes generalizing offset shift result with
  | nil => simp [hpackDecodeIntegerLoop] at h
  | cons byte rest ih =>
  rw [hpackDecodeIntegerLoop] at h
  split_ifs at h
  · cases h
    exact ⟨1, rfl, by simp [speltChunks, Nat.shiftLeft_eq]⟩
  · obtain ⟨k, rfl, rfl⟩ := ih h
    refine ⟨k + 1, by omega, ?_⟩
    have hcons : speltChunks (byte :: rest.take k) =
        (byte.toNat &&& 0x7F) + 128 * speltChunks (rest.take k) := rfl
    rw [take_succ_cons, hcons, Nat.shiftLeft_eq, Nat.pow_add]
    ring

/-- **Integers come back, and none that is read has wrapped.** -/
theorem integer_round_trip (hbits : 1 ≤ prefixBits ∧ prefixBits ≤ 8)
    (hflag : flag.toNat % 2 ^ prefixBits = 0) (hvalue : value < 2 ^ 64) (bufSize : Nat) :
    (11 ≤ bufSize → (hpackEncodeInteger flag value prefixBits bufSize).isSome) ∧
      (∀ bs rest, hpackEncodeInteger flag value prefixBits bufSize = some bs →
        hpackDecodeInteger64 (bs ++ rest) prefixBits = some (value, bs.length)) ∧
      ∀ data number n, hpackDecodeInteger64 data prefixBits = some (number, n) →
        number = spelt prefixBits (data.take n) := by
  simp only [hpackDecodeInteger64_eq]
  refine ⟨fun hsize => ?_, fun bs rest henc => ?_, fun data number n h => ?_⟩
  · obtain ⟨bs, henc, -⟩ := hpackEncodeInteger_isSome flag value prefixBits bufSize 10 (by omega)
      (Nat.lt_trans hvalue (by decide)) (by omega)
    rw [henc]
    rfl
  · exact hpackDecodeInteger_encode henc hbits.2 hflag hvalue rest
  · cases data with
    | nil => simp [hpackDecodeInteger] at h
    | cons first rest =>
      rw [hpackDecodeInteger] at h
      split_ifs at h
      · cases h
        simp [spelt, speltChunks]
      · obtain ⟨k, rfl, rfl⟩ := hpackDecodeIntegerLoop_spelt h
        rw [Nat.add_comm 1, take_succ_cons, spelt, Nat.pow_zero, Nat.mul_one]

theorem integer_round_trip_largest :
    (11 ≤ 11 → (hpackEncodeInteger 0x80 (2 ^ 64 - 1) 7 11).isSome) ∧
      (∀ bs rest, hpackEncodeInteger 0x80 (2 ^ 64 - 1) 7 11 = some bs →
        hpackDecodeInteger64 (bs ++ rest) 7 = some (2 ^ 64 - 1, bs.length)) ∧
      ∀ data number n, hpackDecodeInteger64 data 7 = some (number, n) →
        number = spelt 7 (data.take n) :=
  integer_round_trip (by decide) (by decide) (by decide) 11

end SmartDns.Hpack
