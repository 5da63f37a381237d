import SmartDns.Hpack.HuffmanCode
import SmartDns.Http3.Qpack

/-!
# The Huffman decoders of HTTP/2 and HTTP/3

`qpack_huffman_decode` walks a tree of 512 nodes where `hpack_decode_huffman`
searches a table.  Every codeword of the table leads from the root to the leaf
of its symbol, and the word of thirty ones leads out of the tree.

Both decoders therefore read the same symbols from a string, but they treat the
rest differently.
-/

namespace SmartDns.Http3

open Hpack HuffmanWalk List

variable {rest word : List Bool}

/-- The node reached by one bit. -/
def huffmanChild (index : Nat) (bit : Bool) : Nat :=
  if bit then index + qpackHuffmanVal.getD index 0 else index + 1

/-- The word leads through inner nodes to a leaf with the symbol. -/
def HuffmanLeads (symbol : UInt8) : (index : Nat) → List Bool → Prop
  | index, [] => huffmanInner index = false ∧ UInt8.ofNat (qpackHuffmanVal.getD index 0) = symbol
  | index, bit :: bits =>
    huffmanInner index = true ∧ huffmanChild index bit < 512 ∧
      HuffmanLeads symbol (huffmanChild index bit) bits

/-- The leaves below a node from left to right, with the words that lead to them.  The values
are those from the node on. -/
def huffmanLeaves : (depth index : Nat) → (values : List Nat) → List (List Bool × UInt8)
  | 0, _, _ => []
  | _ + 1, _, [] => []
  | depth + 1, index, value :: values =>
    if huffmanInner index then
      (huffmanLeaves depth (index + 1) values).map (fun leaf => (false :: leaf.1, leaf.2)) ++
        (huffmanLeaves depth (index + value) ((value :: values).drop value)).map
          (fun leaf => (true :: leaf.1, leaf.2))
    else [([], UInt8.ofNat value)]

/-- `n` ones lead through inner nodes out of the tree. -/
def OnesLeadOut : (n index : Nat) → Prop
  | 0, index => 512 ≤ index
  | n + 1, index =>
    index < 512 ∧ huffmanInner index = true ∧ OnesLeadOut n (huffmanChild index true)

instance decidableOnesLeadOut : ∀ n index, Decidable (OnesLeadOut n index)
  | 0, index => inferInstanceAs (Decidable (512 ≤ index))
  | n + 1, index =>
    have := decidableOnesLeadOut n (huffmanChild index true)
    inferInstanceAs (Decidable (index < 512 ∧ huffmanInner index = true ∧
      OnesLeadOut n (huffmanChild index true)))

/-! ## The tree and the table -/

/-- What is read off the tree: its size, its leaves, which are the table in its order, and that
thirty ones lead out of it. -/
theorem qpackHuffmanVal_facts :
    qpackHuffmanVal.length = 512 ∧
      huffmanLeaves 31 0 qpackHuffmanVal = huffmanTable.map (fun e => (e.word, e.symbol)) ∧
      OnesLeadOut 30 0 ∧ huffmanInner 0 = true := by
  decide +kernel

theorem huffmanLeaves_leads {depth index : Nat} {symbol : UInt8}
    (h : (word, symbol) ∈ huffmanLeaves depth index (qpackHuffmanVal.drop index)) :
    index < 512 ∧ HuffmanLeads symbol index word := by
  induction depth generalizing index word with
  | zero => cases h
  | succ depth ih =>
  by_cases hindex : index < 512
  · have hdrop : qpackHuffmanVal.drop index =
        qpackHuffmanVal.getD index 0 :: qpackHuffmanVal.drop (index + 1) := by
      rw [getD_eq_getElem _ _ (qpackHuffmanVal_facts.1 ▸ hindex), getElem_cons_drop]
    rw [hdrop, huffmanLeaves, ← hdrop, drop_drop] at h
    refine ⟨hindex, ?_⟩
    by_cases hinner : huffmanInner index = true
    · rw [if_pos hinner, mem_append, mem_map, mem_map] at h
      rcases h with ⟨⟨word, symbol⟩, hleaf, heq⟩ | ⟨⟨word, symbol⟩, hleaf, heq⟩
      · obtain ⟨rfl, rfl⟩ := heq
        exact ⟨hinner, ih hleaf⟩
      · obtain ⟨rfl, rfl⟩ := heq
        exact ⟨hinner, ih hleaf⟩
    · rw [if_neg hinner, mem_singleton] at h
      obtain ⟨rfl, rfl⟩ := h
      exact ⟨by simpa using hinner, rfl⟩
  · rw [drop_eq_nil_of_le (qpackHuffmanVal_facts.1 ▸ not_lt.mp hindex)] at h
    cases h

theorem huffmanTable_leads (e : HuffmanDecodeEntry) (he : e ∈ huffmanTable) :
    HuffmanLeads e.symbol 0 e.word := by
  have hleaf : (e.word, e.symbol) ∈ huffmanLeaves 31 0 (qpackHuffmanVal.drop 0) := by
    rw [drop_zero, qpackHuffmanVal_facts.2.1]
    exact mem_map.mpr ⟨e, he, rfl⟩
  exact (huffmanLeaves_leads hleaf).2

theorem ones_leadOut : OnesLeadOut 30 0 :=
  qpackHuffmanVal_facts.2.2.1

theorem huffmanInner_root : huffmanInner 0 = true :=
  qpackHuffmanVal_facts.2.2.2

/-! ## The walk -/

section Walk

variable {maxDecoded : Nat} {symbol : UInt8} {index : Nat} {ones : Bool} {decoded : Bytes}

theorem qpackHuffmanLoop_nil (hinner : huffmanInner index = true) :
    qpackHuffmanLoop maxDecoded [] ⟨index, ones, decoded⟩ =
      if ones then some decoded else none := by
  simp [qpackHuffmanLoop, emit, finish, hinner]

theorem qpackHuffmanLoop_cons (hinner : huffmanInner index = true) (bit : Bool) (bits : List Bool) :
    qpackHuffmanLoop maxDecoded (bit :: bits) ⟨index, ones, decoded⟩ =
      if 512 ≤ huffmanChild index bit then
        if ones && bit then some decoded else none
      else
        qpackHuffmanLoop maxDecoded bits ⟨huffmanChild index bit, ones && bit, decoded⟩ := by
  cases bit with
  | false | true => simp [qpackHuffmanLoop, emit, finish, hinner, huffmanChild]

/-- At a leaf the symbol is put out, and the walk goes on at the root. -/
theorem qpackHuffmanLoop_leaf (hleaf : huffmanInner index = false) (bits : List Bool) :
    qpackHuffmanLoop maxDecoded bits ⟨index, ones, decoded⟩ = if decoded.length < maxDecoded then
        qpackHuffmanLoop maxDecoded bits
          ⟨0, true, decoded ++ [UInt8.ofNat (qpackHuffmanVal.getD index 0)]⟩
      else
        none := by
  by_cases hroom : decoded.length < maxDecoded
  · cases bits with
    | nil | cons => simp [qpackHuffmanLoop, emit, hleaf, hroom, huffmanInner_root]
  · cases bits with
    | nil | cons => simp [qpackHuffmanLoop, emit, hleaf, hroom]

theorem qpackHuffmanLoop_leads (h : HuffmanLeads symbol index word) (rest : List Bool) :
    qpackHuffmanLoop maxDecoded (word ++ rest) ⟨index, ones, decoded⟩ =
      if decoded.length < maxDecoded then
        qpackHuffmanLoop maxDecoded rest ⟨0, true, decoded ++ [symbol]⟩
      else
        none := by
  induction word generalizing index ones with
  | nil =>
    obtain ⟨hleaf, hsymbol⟩ := h
    rw [nil_append, qpackHuffmanLoop_leaf hleaf, hsymbol]
  | cons bit word ih =>
    obtain ⟨hinner, hlt, hrest⟩ := h
    rw [cons_append, qpackHuffmanLoop_cons hinner, if_neg (by omega), ih hrest]

/-- A string that ends inside a codeword is accepted when it ended with ones. -/
theorem qpackHuffmanLoop_inside
    {bits : List Bool} (h : HuffmanLeads symbol index word) (hinit : bits <+: word)
    (hne : bits ≠ word) :
    qpackHuffmanLoop maxDecoded bits ⟨index, ones, decoded⟩ =
      if ones && bits.all id then some decoded else none := by
  induction bits generalizing index ones word with
  | nil =>
    cases word with
    | nil => exact absurd rfl hne
    | cons bit word => rw [qpackHuffmanLoop_nil h.1, all_nil, Bool.and_true]
  | cons bit bits ih =>
  cases word with
  | nil => simp at hinit
  | cons bit' word =>
  obtain ⟨rfl, hinit'⟩ := cons_prefix_cons.mp hinit
  obtain ⟨hinner, hlt, hrest⟩ := h
  have hne' : bits ≠ word := fun heq => hne (by rw [heq])
  rw [qpackHuffmanLoop_cons hinner, if_neg (by omega), ih hrest hinit' hne',
    all_cons, Bool.and_assoc]
  rfl

/-- A string that goes on with ones is accepted, whether it ends inside the tree or leaves it. -/
theorem qpackHuffmanLoop_ones {n : Nat} (h : OnesLeadOut (n + 1) index) {bits : List Bool}
    (hones : bits.take (n + 1) = List.replicate (min bits.length (n + 1)) true) :
    qpackHuffmanLoop maxDecoded bits ⟨index, true, decoded⟩ = some decoded := by
  induction n generalizing index bits with
  | zero =>
    obtain ⟨-, hinner, hout⟩ := h
    cases bits with
    | nil => rw [qpackHuffmanLoop_nil hinner, if_pos rfl]
    | cons bit bits =>
      obtain rfl : bit = true := by simpa using hones
      have hleaves : 512 ≤ huffmanChild index true := hout
      rw [qpackHuffmanLoop_cons hinner, if_pos hleaves]
      rfl
  | succ n ih =>
  obtain ⟨-, hinner, hrest⟩ := h
  cases bits with
  | nil => rw [qpackHuffmanLoop_nil hinner, if_pos rfl]
  | cons bit bits =>
  have hlt : huffmanChild index true < 512 := hrest.1
  rw [take_succ_cons, length_cons, Nat.add_min_add_right, replicate_succ,
    List.cons.injEq] at hones
  obtain ⟨rfl, hbits⟩ := hones
  rw [qpackHuffmanLoop_cons hinner, if_neg (by omega)]
  exact ih hrest hbits

end Walk

theorem qpackHuffmanLoop_rest (hstuck : HuffmanStuck rest) (maxDecoded : Nat) (decoded : Bytes) :
    qpackHuffmanLoop maxDecoded rest ⟨0, true, decoded⟩ =
      if rest.take 30 = List.replicate (min rest.length 30) true then some decoded else none := by
  rcases huffmanTable_tiles.stuck_cases hstuck with hones | ⟨hshort, e, he, hinit⟩
  · rw [if_pos hones]
    exact qpackHuffmanLoop_ones ones_leadOut hones
  · have hne : rest ≠ e.word := fun heq => hstuck e he (heq ▸ prefix_rfl)
    rw [qpackHuffmanLoop_inside (huffmanTable_leads e he) hinit hne,
      take_of_length_le (by omega), min_eq_left (by omega), Bool.true_and]
    simp [eq_replicate_iff]

theorem qpackHuffmanLoop_symbols
    (hstuck : HuffmanStuck rest) (maxDecoded : Nat) (out decoded : Bytes)
    (hroom : decoded.length ≤ maxDecoded) :
    qpackHuffmanLoop maxDecoded (out.flatMap huffmanCode ++ rest) ⟨0, true, decoded⟩ =
      if decoded.length + out.length ≤ maxDecoded ∧
          rest.take 30 = List.replicate (min rest.length 30) true then
        some (decoded ++ out)
      else
        none := by
  induction out generalizing decoded with
  | nil =>
    rw [flatMap_nil, nil_append, qpackHuffmanLoop_rest hstuck, length_nil, Nat.add_zero, append_nil]
    simp [hroom]
  | cons symbol out ih =>
  obtain ⟨hmem, hsymbol⟩ := huffmanEntry_spec symbol
  have hleads := huffmanTable_leads _ hmem
  rw [hsymbol] at hleads
  rw [flatMap_cons, append_assoc, huffmanCode, qpackHuffmanLoop_leads hleads]
  by_cases hlt : decoded.length < maxDecoded
  · have hlen : (decoded ++ [symbol]).length = decoded.length + 1 := by simp
    rw [if_pos hlt, ih _ (by omega), hlen, length_cons, append_assoc,
      singleton_append, Nat.add_right_comm, Nat.add_assoc]
  · rw [if_neg hlt, if_neg]
    rintro ⟨hle, -⟩
    rw [length_cons] at hle
    omega

/-! ## Agreement -/

/--
Behind its symbols the string goes on with ones for a whole byte or longer: the
padding is too long, or the code of thirty ones stands in the string.
-/
def OverlongOnes (src : Bytes) : Prop :=
  ∃ (out : Bytes) (rest : List Bool), bitsOfBytes src = out.flatMap huffmanCode ++ rest ∧
    8 ≤ rest.length ∧ rest.take 30 = List.replicate (min rest.length 30) true

/-- A string whose first thirty bits are ones, as far as it has them, starts with no codeword. -/
theorem huffmanStuck_of_ones (hones : rest.take 30 = List.replicate (min rest.length 30) true) :
    HuffmanStuck rest := by
  by_cases hlong : 30 ≤ rest.length
  · rw [min_eq_right hlong] at hones
    exact (huffmanTable_tiles.stuck_iff hlong).mpr hones
  · rw [take_of_length_le (by omega), min_eq_left (by omega)] at hones
    rw [hones]
    exact huffmanTable_tiles.stuck_replicate _

/--
With room for the output, the two decoders agree on a string exactly when it does
not go on with ones for a byte or longer behind its symbols.
-/
theorem huffmanDecoders_agree_iff
    (src : Bytes) (dstLen maxDecoded : Nat) (hdst : 2 * src.length ≤ dstLen)
    (hmax : 2 * src.length ≤ maxDecoded) :
    hpackDecodeHuffman src dstLen = qpackHuffmanDecode src maxDecoded ↔ ¬ OverlongOnes src := by
  obtain ⟨out, rest, hstuck, hread⟩ := exists_huffman (bitsOfBytes src)
  have hroom : out.length ≤ 2 * src.length := by
    have hfive := five_mul_length_le out
    have hlen := congrArg List.length hread
    rw [length_bitsOfBytes, length_append] at hlen
    omega
  have hoverlong : OverlongOnes src ↔
      8 ≤ rest.length ∧ rest.take 30 = List.replicate (min rest.length 30) true := by
    constructor
    · rintro ⟨out', rest', hread', hlong, hones⟩
      obtain ⟨-, rfl⟩ :=
        huffman_unique hstuck (huffmanStuck_of_ones hones) (hread.symm.trans hread')
      exact ⟨hlong, hones⟩
    · rintro ⟨hlong, hones⟩
      exact ⟨out, rest, hread, hlong, hones⟩
  have hqpack := qpackHuffmanLoop_symbols hstuck maxDecoded out [] (Nat.zero_le _)
  rw [length_nil, Nat.zero_add, nil_append, ← hread] at hqpack
  change qpackHuffmanDecode src maxDecoded = _ at hqpack
  rw [hpackDecodeHuffman_eq hread hstuck, hqpack, hoverlong]
  simp only [hroom.trans hdst, hroom.trans hmax, true_and]
  by_cases hlong : 8 ≤ rest.length
  · rw [if_neg (by omega)]
    by_cases hones : rest.take 30 = List.replicate (min rest.length 30) true
    · simp [hones, hlong]
    · simp [hones]
  · -- a short rest is read alike
    rw [take_of_length_le (by omega), min_eq_left (by omega)]
    simp [hlong, Nat.lt_of_not_le hlong]

/-- `a` and three ones are read alike. -/
theorem huffmanDecoders_agree_iff_letter :
    hpackDecodeHuffman [0x1f] 2 = qpackHuffmanDecode [0x1f] 2 ↔ ¬ OverlongOnes [0x1f] :=
  huffmanDecoders_agree_iff [0x1f] 2 2 (by decide) (by decide)

/-- A byte of ones is refused by HPACK and is the empty string for QPACK. -/
theorem huffmanDecoders_differ :
    hpackDecodeHuffman [0xff] 2 = none ∧ qpackHuffmanDecode [0xff] 2 = some [] := by
  decide +kernel

end SmartDns.Http3
