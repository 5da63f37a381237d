import SmartDns.Hpack.Integer
import SmartDns.Hpack.Huffman
import SmartDns.Hpack.Table

/-!
# HPACK header blocks

`hpack_encode_header` and `hpack_decode_headers` of `http_parse/hpack.c`, with
the string codec they share.

The encoder never uses Huffman coding and never emits a table size update, the
decoder accepts both.  Both sides insert the same headers, so their contexts stay
equal, and the decoder resolves an index in the table in which the encoder found it.

String lengths are natural numbers; the source keeps them in an `int`.
-/

namespace SmartDns.Hpack

open List

variable {bufSize index used : Nat} {bs : Bytes} {hpack hpack' : HpackContext} {name value : CStr}

abbrev Header := CStr × CStr

def hpackEncodeString (str : CStr) (bufSize : Nat) : Option Bytes :=
  if bufSize < 1 then none
  else
    match hpackEncodeInteger 0 str.strlen 7 bufSize with
    | none => none
    | some bs =>
      if bufSize < bs.length + str.strlen then none
      else some (bs ++ str.bytes)

/-- `hpack_decode_string`: the string and the number of bytes consumed. -/
def hpackDecodeString (data : Bytes) : Option (CStr × Nat) :=
  match data with
  | [] => none
  | first :: _ =>
    match hpackDecodeInteger data 7 with
    | none => none
    | some (len, offset) =>
      if data.length < offset ∨ data.length - offset < len then none
      else if first.toNat &&& 0x80 ≠ 0 then
        -- the decoded text gets a buffer of twice the coded length
        if (2 ^ 31 - 2) / 2 < len then none
        else
          (hpackDecodeHuffman ((data.drop offset).take len) (len * 2)).map
            (fun decoded => (CStr.ofBuffer decoded, offset + len))
      else some (CStr.ofBuffer ((data.drop offset).take len), offset + len)

section

variable (hpack : HpackContext)

/-- `hpack_encode_header`: the new context and the bytes written. -/
def hpackEncodeHeader (name value : CStr) (bufSize : Nat) : Option (HpackContext × Bytes) :=
  let found := hpackFindIndex hpack name value
  if 0 < found.1 then
    (hpackEncodeInteger 0x80 found.1 7 bufSize).map
      (fun bs => (hpack, bs))
  else if 0 < found.2 then
    match hpackEncodeInteger 0x40 found.2 6 bufSize with
    | none => none
    | some bs =>
      match hpackEncodeString value (bufSize - bs.length) with
      | none => none
      | some vs => some (hpackAddDynamicEntry hpack name value, bs ++ vs)
  else if bufSize < 1 then none
  else
    match hpackEncodeString name (bufSize - 1) with
    | none => none
    | some ns =>
      match hpackEncodeString value (bufSize - (1 + ns.length)) with
      | none => none
      | some vs => some (hpackAddDynamicEntry hpack name value, 0x40 :: ns ++ vs)

/-- One field of a block: the header it reports and the bytes it takes. -/
structure HpackField where
  ctx : HpackContext
  header : Option Header
  length : Nat

/-- The name of a literal: from a table, or as a string after `used` bytes. -/
def hpackDecodeName (index used : Nat) (data : Bytes) : Option (CStr × Nat) :=
  if 0 < index then (hpackGetEntry hpack index).map (fun e => (e.1, used))
  else (hpackDecodeString (data.drop used)).map (fun r => (r.1, used + r.2))

/-- A literal whose index has a prefix of `prefixBits` bits. -/
def hpackDecodeLiteral (prefixBits : Nat) (data : Bytes) : Option (Header × Nat) :=
  match hpackDecodeInteger data prefixBits with
  | none => none
  | some (index, used) =>
    match hpackDecodeName hpack index used data with
    | none => none
    | some (name, used) =>
      match hpackDecodeString (data.drop used) with
      | none => none
      | some (value, len) => some ((name, value), used + len)

/-- One turn of the loop of `hpack_decode_headers`, up to the callback. -/
def hpackDecodeField (headerFieldSeen : Bool) (data : Bytes) : Option HpackField :=
  match data with
  | [] => none
  | first :: _ =>
    if first.toNat &&& 0x80 ≠ 0 then
      match hpackDecodeInteger data 7 with
      | none => none
      | some (index, used) =>
        (hpackGetEntry hpack index).map
          (fun header => ⟨hpack, some header, used⟩)
    else if first.toNat &&& 0x40 ≠ 0 then
      (hpackDecodeLiteral hpack 6 data).map
        (fun r =>
          ⟨hpackAddDynamicEntry hpack r.1.1 r.1.2, some r.1, r.2⟩)
    else if first.toNat &&& 0x20 ≠ 0 then
      if headerFieldSeen then none
      else
        match hpackDecodeInteger data 5 with
        | none => none
        | some (newSize, used) =>
          if hpackMaxDynamicTableSize < newSize then none
          else some ⟨hpackResizeDynamicTable hpack newSize, none, used⟩
    else
      (hpackDecodeLiteral hpack 4 data).map
        (fun r => ⟨hpack, some r.1, r.2⟩)

end

/-- Outcome of a decoding run, with what the callback accumulated. -/
structure HpackDecode (σ : Type) where
  ctx : HpackContext
  acc : σ
  ok : Bool

section Decode

variable {σ : Type}
variable (onHeader : σ → CStr → CStr → Option σ)

/--
The loop of `hpack_decode_headers`; `none` from the callback stands for a
negative return.  A field takes at least one byte, so `fuel = data.length` is
enough.
-/
def hpackDecodeHeadersLoop :
    (fuel : Nat) → HpackContext → (headerFieldSeen : Bool) → Bytes → σ →
      HpackDecode σ
  | 0, hpack, _, data, acc => ⟨hpack, acc, data.isEmpty⟩
  | fuel + 1, hpack, seen, data, acc =>
    if data = [] then ⟨hpack, acc, true⟩
    else
      match hpackDecodeField hpack seen data with
      | none => ⟨hpack, acc, false⟩
      | some field =>
        match field.header with
        | none =>
          hpackDecodeHeadersLoop fuel field.ctx seen
            (data.drop field.length) acc
        | some (name, value) =>
          match onHeader acc name value with
          | none => ⟨field.ctx, acc, false⟩
          | some acc =>
            hpackDecodeHeadersLoop fuel field.ctx true
              (data.drop field.length) acc

def hpackDecodeHeaders (hpack : HpackContext) (data : Bytes) (acc : σ) : HpackDecode σ :=
  hpackDecodeHeadersLoop onHeader data.length hpack false data acc

end Decode

/-- The callback that collects the reported headers. -/
def collectHeader (acc : List Header) (name value : CStr) : Option (List Header) :=
  some (acc ++ [(name, value)])

/-- **String round trip.** -/
theorem hpackDecodeString_encode
    {str : CStr} (henc : hpackEncodeString str bufSize = some bs) (hsize : bufSize < 2 ^ 31)
    (rest : Bytes) :
    hpackDecodeString (bs ++ rest) = some (str, bs.length) := by
  unfold hpackEncodeString at henc
  split at henc
  case isTrue => simp at henc
  case isFalse =>
  cases hint : hpackEncodeInteger 0 str.strlen 7 bufSize with
  | none =>
    rw [hint] at henc
    simp at henc
  | some lenBytes =>
  rw [hint] at henc
  simp only at henc
  split at henc
  case isTrue => simp at henc
  case isFalse hfits =>
  simp only [Option.some.injEq] at henc
  subst henc
  have hlen : str.strlen = str.bytes.length := rfl
  have hdec :=
    hpackDecodeInteger_encode hint (by decide) (by decide) (by omega) (str.bytes ++ rest)
  obtain ⟨first, tail, rfl, hfirst⟩ :=
    hpackEncodeInteger_head hint (by decide)
  -- the Huffman bit is clear
  have hplain : first.toNat &&& 2 ^ 7 = 0 := by
    rw [and_two_pow_eq_zero_iff, hfirst]
    rfl
  rw [append_assoc]
  rw [cons_append] at hdec ⊢
  simp only [hpackDecodeString, hdec]
  have hdrop : (first :: (tail ++ (str.bytes ++ rest))).drop
        (first :: tail).length = str.bytes ++ rest := by
    simp
  rw [if_neg (by
    simp only [length_cons, length_append]
    omega), if_neg (by simpa using hplain), hdrop, hlen]
  simp
  omega

theorem hpackDecodeLiteral_eq {prefixBits used' len : Nat} {data : Bytes}
    (hint : hpackDecodeInteger data prefixBits = some (index, used))
    (hname : hpackDecodeName hpack index used data = some (name, used'))
    (hvalue : hpackDecodeString (data.drop used') = some (value, len)) :
    hpackDecodeLiteral hpack prefixBits data = some ((name, value), used' + len) := by
  simp [hpackDecodeLiteral, hint, hname, hvalue]

theorem hpackDecodeField_indexed
    {first : UInt8} {rest : Bytes} (hfirst : first.toNat / 2 ^ 7 = (0x80 : UInt8).toNat / 2 ^ 7)
    (seen : Bool) {header : Header}
    (hint : hpackDecodeInteger (first :: rest) 7 = some (index, used))
    (hentry : hpackGetEntry hpack index = some header) :
    hpackDecodeField hpack seen (first :: rest) = some ⟨hpack, some header, used⟩ := by
  have hflag : first.toNat &&& 0x80 ≠ 0 := by
    change ¬ first.toNat &&& 2 ^ 7 = 0
    rw [and_two_pow_eq_zero_iff, hfirst]
    decide
  unfold hpackDecodeField
  simp only
  rw [if_pos hflag, hint]
  simp [hentry]

theorem hpackDecodeField_incremental
    {first : UInt8} {rest : Bytes} (hfirst : first.toNat / 2 ^ 6 = (0x40 : UInt8).toNat / 2 ^ 6)
    (seen : Bool) (hlit : hpackDecodeLiteral hpack 6 (first :: rest) = some ((name, value), used)) :
    hpackDecodeField hpack seen (first :: rest) =
      some ⟨hpackAddDynamicEntry hpack name value, some (name, value), used⟩ := by
  have hone : first.toNat / 2 ^ 6 = 1 := by
    rw [hfirst]
    rfl
  have hflag₁ : ¬ first.toNat &&& 0x80 ≠ 0 := by
    rw [not_not]
    change first.toNat &&& 2 ^ 7 = 0
    rw [and_two_pow_eq_zero_iff]
    omega
  have hflag₂ : first.toNat &&& 0x40 ≠ 0 := by
    change ¬ first.toNat &&& 2 ^ 6 = 0
    rw [and_two_pow_eq_zero_iff]
    omega
  unfold hpackDecodeField
  simp only
  rw [if_neg hflag₁, if_pos hflag₂, hlit]
  rfl

/-- An index that a search returned is one the decoder can resolve. -/
theorem index_lt_of_row {row : Header} (hwf : hpack.Wf) (hrow : hpack.rows[index - 1]? = some row) :
    index < 2 ^ 64 := by
  have hlen := hwf.length_le
  have hle := hwf.le_max
  have hmax := hwf.max_lt
  have hlt : index - 1 < hpack.rows.length := by
    by_contra hge
    rw [getElem?_eq_none (by omega)] at hrow
    cases hrow
  simp only [HpackContext.rows, length_append, length_map, hpackStaticTable_length,
    hpackStaticTableSize] at hlt
  omega

/--
**Field round trip.**  The bytes of one encoded header decode, in the same
context, to that header and to the context the encoder moved to.
-/
theorem hpackDecodeField_encode (hwf : hpack.Wf) (hsize : bufSize < 2 ^ 31)
    (henc : hpackEncodeHeader hpack name value bufSize = some (hpack', bs)) (seen : Bool)
    (rest : Bytes) :
    hpackDecodeField hpack seen (bs ++ rest) = some ⟨hpack', some (name, value), bs.length⟩ := by
  obtain ⟨hfull, hname⟩ := hpackFindIndex_spec hpack name value
  unfold hpackEncodeHeader at henc
  simp only at henc
  split at henc
  case isTrue hindex =>
    -- indexed field
    have hrow := hfull.resolve_left (by omega)
    obtain ⟨ibs, hint, hpair⟩ := Option.map_eq_some_iff.mp henc
    obtain ⟨rfl, rfl⟩ := hpair
    have hdec :=
      hpackDecodeInteger_encode hint (by decide) (by decide) (index_lt_of_row hwf hrow) rest
    obtain ⟨first, tail, rfl, hfirst⟩ :=
      hpackEncodeInteger_head hint (by decide)
    apply hpackDecodeField_indexed hfirst seen hdec
    rw [hpackGetEntry_eq_rows hpack hindex, hrow]
  case isFalse hnoindex =>
  split at henc
  case isTrue hindex =>
    -- literal with an indexed name
    obtain ⟨v, hrow⟩ := hname.resolve_left (by omega)
    cases hint : hpackEncodeInteger 0x40 (hpackFindIndex hpack name value).2 6 bufSize with
    | none =>
      rw [hint] at henc
      simp at henc
    | some ibs =>
      rw [hint] at henc
      simp only at henc
      cases hval : hpackEncodeString value (bufSize - ibs.length) with
      | none =>
        rw [hval] at henc
        simp at henc
      | some vs =>
        rw [hval] at henc
        obtain ⟨rfl, rfl⟩ := henc
        have hdec :=
          hpackDecodeInteger_encode hint (by decide) (by decide)
            (index_lt_of_row hwf hrow) (vs ++ rest)
        have hstr := hpackDecodeString_encode hval (by omega) rest
        obtain ⟨first, tail, rfl, hfirst⟩ :=
          hpackEncodeInteger_head hint (by decide)
        have hentry : hpackDecodeName hpack (hpackFindIndex hpack name value).2
                (first :: tail).length
                (first :: tail ++ (vs ++ rest)) =
              some (name, (first :: tail).length) := by
          unfold hpackDecodeName
          rw [if_pos hindex, hpackGetEntry_eq_rows hpack hindex, hrow]
          rfl
        have hlit := hpackDecodeLiteral_eq hdec hentry (by rw [drop_left]; exact hstr)
        rw [append_assoc, length_append]
        exact hpackDecodeField_incremental hfirst seen hlit
  case isFalse hnoname =>
  -- literal with a new name
  split at henc
  case isTrue => simp at henc
  case isFalse =>
  cases hns : hpackEncodeString name (bufSize - 1) with
  | none =>
    rw [hns] at henc
    simp at henc
  | some ns =>
  rw [hns] at henc
  simp only at henc
  cases hval : hpackEncodeString value (bufSize - (1 + ns.length)) with
  | none =>
    rw [hval] at henc
    simp at henc
  | some vs =>
  rw [hval] at henc
  obtain ⟨rfl, rfl⟩ := henc
  have hstr₁ := hpackDecodeString_encode hns (by omega) (vs ++ rest)
  have hstr₂ := hpackDecodeString_encode hval (by omega) rest
  have hdec : hpackDecodeInteger (0x40 :: (ns ++ (vs ++ rest))) 6 = some (0, 1) := by rfl
  have hentry : hpackDecodeName hpack 0 1 (0x40 :: (ns ++ (vs ++ rest))) =
        some (name, 1 + ns.length) := by
    unfold hpackDecodeName
    rw [if_neg (lt_irrefl 0), drop_succ_cons, drop_zero, hstr₁]
    rfl
  have hlit :=
    hpackDecodeLiteral_eq hdec hentry (by
        rw [Nat.add_comm, drop_succ_cons, drop_left]
        exact hstr₂)
  rw [cons_append, cons_append, append_assoc, length_cons, length_append,
    show ns.length + vs.length + 1 = 1 + ns.length + vs.length by omega]
  exact hpackDecodeField_incremental (by rfl) seen hlit

theorem hpackEncodeHeader_wf
    (hwf : hpack.Wf) (henc : hpackEncodeHeader hpack name value bufSize = some (hpack', bs)) :
    hpack'.Wf := by
  unfold hpackEncodeHeader at henc
  simp only at henc
  split at henc
  case isTrue =>
    obtain ⟨ibs, _, hpair⟩ := Option.map_eq_some_iff.mp henc
    simp only [Prod.mk.injEq] at hpair
    rw [← hpair.1]
    exact hwf
  case isFalse =>
  -- both literals end in the same insertion
  have hins : hpack' = hpackAddDynamicEntry hpack name value := by
    repeat' split at henc
    all_goals simp_all
  rw [hins]
  exact hpackAddDynamicEntry_wf hwf name value

theorem hpackEncodeString_isSome (str : CStr) (bufSize : Nat)
    (hlen : str.strlen < 2 ^ 31) (hroom : str.strlen + 6 ≤ bufSize) :
    ∃ bs, hpackEncodeString str bufSize = some bs ∧ bs.length ≤ str.strlen + 6 := by
  obtain ⟨bs, hbs, hle⟩ :=
    hpackEncodeInteger_isSome 0 str.strlen 7 bufSize 5 (by omega) (by omega) (by omega)
  unfold hpackEncodeString
  rw [if_neg (by omega), hbs]
  refine ⟨bs ++ str.bytes, if_neg (by omega), ?_⟩
  have : str.bytes.length = str.strlen := rfl
  rw [length_append]
  omega

theorem hpackFindIndex_lt (hwf : hpack.Wf) (name value : CStr) :
    (hpackFindIndex hpack name value).1 < 2 ^ 64 ∧
      (hpackFindIndex hpack name value).2 < 2 ^ 64 := by
  obtain ⟨hfull, hname⟩ := hpackFindIndex_spec hpack name value
  constructor
  · rcases hfull with hzero | hrow
    · omega
    · exact index_lt_of_row hwf hrow
  · rcases hname with hzero | ⟨v, hrow⟩
    · omega
    · exact index_lt_of_row hwf hrow

/--
A header always fits the room that its table entry is charged with, and takes
no more than that.
-/
theorem hpackEncodeHeader_isSome
    (hwf : hpack.Wf) (name value : CStr) (bufSize : Nat) (hroom : entrySize name value ≤ bufSize)
    (hsize : bufSize < 2 ^ 31) :
    ∃ hpack' bs, hpackEncodeHeader hpack name value bufSize = some (hpack', bs) ∧
      bs.length ≤ entrySize name value := by
  obtain ⟨hfull, hname⟩ := hpackFindIndex_lt hwf name value
  unfold entrySize at hroom ⊢
  unfold hpackEncodeHeader
  dsimp only
  split
  · obtain ⟨bs, hbs, hle⟩ :=
      hpackEncodeInteger_isSome 0x80 _ 7 bufSize 10 (by omega)
        (lt_trans hfull (by norm_num)) (by omega)
    exact ⟨hpack, bs, by rw [hbs]; rfl, by omega⟩
  · split
    · obtain ⟨bs, hbs, hle⟩ :=
        hpackEncodeInteger_isSome 0x40 _ 6 bufSize 10 (by omega)
          (lt_trans hname (by norm_num)) (by omega)
      obtain ⟨vs, hvs, hvle⟩ :=
        hpackEncodeString_isSome value (bufSize - bs.length) (by omega) (by omega)
      simp only [hbs, hvs]
      exact ⟨_, _, rfl, by rw [length_append]; omega⟩
    · obtain ⟨ns, hns, hnle⟩ :=
        hpackEncodeString_isSome name (bufSize - 1) (by omega) (by omega)
      obtain ⟨vs, hvs, hvle⟩ :=
        hpackEncodeString_isSome value (bufSize - (1 + ns.length)) (by omega) (by omega)
      rw [if_neg (by omega)]
      simp only [hns, hvs]
      refine ⟨_, _, rfl, ?_⟩
      simp only [cons_append, length_cons, length_append]
      omega

/-- One call of `hpack_encode_header`; `buf_size` is an `int`. -/
structure EncodeCall where
  name : CStr
  value : CStr
  bufSize : Nat
  bufSize_lt : bufSize < 2 ^ 31

def EncodeCall.header (call : EncodeCall) : Header :=
  (call.name, call.value)

/-- A header block: the concatenation of the bytes of successful calls. -/
def encodeBlock :
    HpackContext → List EncodeCall → Option (HpackContext × Bytes)
  | hpack, [] => some (hpack, [])
  | hpack, call :: calls =>
    match hpackEncodeHeader hpack call.name call.value call.bufSize with
    | none => none
    | some (hpack, bs) => (encodeBlock hpack calls).map (fun r => (r.1, bs ++ r.2))

/-- Blocks encoded one after another, with the context after each. -/
def encodeBlocks :
    HpackContext → List (List EncodeCall) →
      Option (List (HpackContext × Bytes))
  | _, [] => some []
  | hpack, block :: blocks =>
    match encodeBlock hpack block with
    | none => none
    | some r => (encodeBlocks r.1 blocks).map (fun rs => r :: rs)

/-- Blocks decoded one after another, with the outcome of each. -/
def decodeBlocks :
    HpackContext → List Bytes → List (HpackDecode (List Header))
  | _, [] => []
  | hpack, block :: blocks =>
    let r := hpackDecodeHeaders collectHeader hpack block []
    r :: decodeBlocks r.ctx blocks

/-- A decoder that has decoded the blocks in order. -/
def decoderAfter (decoder : HpackContext) (blocks : List Bytes) : HpackContext :=
  blocks.foldl
    (fun decoder block =>
      (hpackDecodeHeaders collectHeader decoder block []).ctx)
    decoder

/-- What the decoder does to its table does not depend on where the headers
go. -/
theorem hpackDecodeHeadersLoop_ctx (fuel : Nat) (hpack : HpackContext) (seen : Bool) (data : Bytes)
    (acc acc' : List Header) :
    (hpackDecodeHeadersLoop collectHeader fuel hpack seen data acc).ctx =
      (hpackDecodeHeadersLoop collectHeader fuel hpack seen data acc').ctx := by
  induction fuel generalizing hpack seen data acc acc' with
  | zero => rfl
  | succ fuel ih =>
  unfold hpackDecodeHeadersLoop
  split
  · rfl
  · split
    · rfl
    · split
      · exact ih _ _ _ _ _
      · exact ih _ _ _ _ _

/--
The decoding loop follows the encoder field by field.  The induction is on the
calls; the contexts of the two sides stay the same object throughout.
-/
theorem hpackDecodeHeadersLoop_encodeBlock {calls : List EncodeCall} (hwf : hpack.Wf)
    (henc : encodeBlock hpack calls = some (hpack', bs)) (fuel : Nat) (hfuel : bs.length ≤ fuel)
    (seen : Bool) (acc : List Header) :
    hpackDecodeHeadersLoop collectHeader fuel hpack seen bs acc =
      ⟨hpack', acc ++ calls.map EncodeCall.header, true⟩ ∧
    hpack'.Wf := by
  induction calls generalizing hpack bs fuel seen acc with
  | nil =>
    obtain ⟨rfl, rfl⟩ := henc
    refine ⟨?_, hwf⟩
    cases fuel <;> simp [hpackDecodeHeadersLoop]
  | cons call calls ih =>
  unfold encodeBlock at henc
  cases hcall : hpackEncodeHeader hpack call.name call.value call.bufSize with
  | none =>
    rw [hcall] at henc
    simp at henc
  | some r =>
  obtain ⟨hpack₁, first⟩ := r
  rw [hcall] at henc
  obtain ⟨⟨hpack₂, tail⟩, htail, hpair⟩ :=
    Option.map_eq_some_iff.mp henc
  simp only [Prod.mk.injEq] at hpair
  obtain ⟨rfl, rfl⟩ := hpair
  have hfield := hpackDecodeField_encode hwf call.bufSize_lt hcall
  have hne : first ≠ [] := by
    intro hnil
    have hempty := hfield false []
    rw [hnil] at hempty
    simp [hpackDecodeField] at hempty
  have hpos : 0 < first.length := length_pos_iff.mpr hne
  specialize hfield seen tail
  rw [length_append] at hfuel
  obtain ⟨hrec, hwf'⟩ :=
    ih (hpackEncodeHeader_wf hwf hcall) htail (fuel - 1) (by omega) true (acc ++ [call.header])
  refine ⟨?_, hwf'⟩
  obtain ⟨fuel, rfl⟩ : ∃ n, fuel = n + 1 :=
    ⟨fuel - 1, by omega⟩
  unfold hpackDecodeHeadersLoop
  rw [if_neg (by simp [hne])]
  simp only [hfield, collectHeader, drop_left]
  simp only [Nat.add_sub_cancel, EncodeCall.header] at hrec
  rw [hrec]
  simp [EncodeCall.header]

/--
**HPACK round trip with table agreement.**  Two equal contexts, any sequence
of blocks that the encoder produced: the decoder reports the same headers in
the same order, and the two contexts are equal again after every block.
-/
theorem decodeBlocks_encodeBlocks (encoder decoder : HpackContext) (hwf : encoder.Wf)
    (heq : decoder = encoder) (blocks : List (List EncodeCall))
    (results : List (HpackContext × Bytes)) (henc : encodeBlocks encoder blocks = some results) :
    decodeBlocks decoder (results.map Prod.snd) = List.zipWith
        (fun r calls => ⟨r.1, calls.map EncodeCall.header, true⟩)
        results blocks := by
  subst heq
  induction blocks generalizing decoder results with
  | nil =>
    simp only [encodeBlocks, Option.some.injEq] at henc
    subst henc
    rfl
  | cons block blocks ih =>
  unfold encodeBlocks at henc
  cases hblock : encodeBlock decoder block with
  | none =>
    rw [hblock] at henc
    simp at henc
  | some r =>
  obtain ⟨hpack', bs⟩ := r
  rw [hblock] at henc
  obtain ⟨rest, hrest, rfl⟩ := Option.map_eq_some_iff.mp henc
  obtain ⟨hdec, hwf'⟩ :=
    hpackDecodeHeadersLoop_encodeBlock hwf hblock bs.length le_rfl false []
  have hrec := ih hpack' rest hwf' hrest
  simp only [map_cons, decodeBlocks, hpackDecodeHeaders, hdec, zipWith_cons_cons, nil_append]
  rw [hrec]

/-- Two blocks that use all three representations of the encoder. -/
def sampleBlocks : List (List EncodeCall) :=
  [[⟨CStr.ofString ":method", CStr.ofString "GET", 64, by decide⟩,
    ⟨CStr.ofString ":path", CStr.ofString "/dns-query", 64, by decide⟩,
    ⟨CStr.ofString "x-id", CStr.ofString "7", 64, by decide⟩],
   [⟨CStr.ofString ":path", CStr.ofString "/dns-query", 64, by decide⟩,
    ⟨CStr.ofString "x-id", CStr.ofString "8", 64, by decide⟩]]

theorem decodeBlocks_encodeBlocks_sample :
    ∃ results, encodeBlocks hpackInitContext sampleBlocks = some results ∧
      decodeBlocks hpackInitContext (results.map Prod.snd) = List.zipWith
          (fun r calls => ⟨r.1, calls.map EncodeCall.header, true⟩)
          results sampleBlocks := by
  have hsome : (encodeBlocks hpackInitContext sampleBlocks).isSome := by decide +kernel
  have hget : encodeBlocks hpackInitContext sampleBlocks =
        some ((encodeBlocks hpackInitContext sampleBlocks).get hsome) :=
    (Option.some_get hsome).symm
  exact ⟨_, hget, decodeBlocks_encodeBlocks hpackInitContext hpackInitContext
        hpackInitContext_wf rfl sampleBlocks _ hget⟩

end SmartDns.Hpack
