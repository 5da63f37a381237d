import SmartDns.Lib.PrefixCode
import SmartDns.Hpack.Huffman

/-!
# The HPACK code and its decoder

The codes of `huffman_table` tile the words of thirty bits except the word of
ones, which RFC 7541 reserves for the end of the string.  So a string of bits is
in one way a sequence of codewords and a rest that starts with none.  This rest is
what the decoder keeps in its bit buffer.
-/

namespace SmartDns.Hpack

open HuffmanDecodeEntry List

/-- The bits of a string of bytes, the most significant first. -/
def bitsOfBytes (bytes : Bytes) : List Bool :=
  bytes.flatMap fun byte => bitsOfNat 8 byte.toNat

abbrev HuffmanDecodeEntry.word : HuffmanDecodeEntry → List Bool :=
  codeword bits nbits

/-- No codeword of the table begins the word. -/
abbrev HuffmanStuck : List Bool → Prop :=
  Stuck bits nbits huffmanTable

def huffmanEntry (symbol : UInt8) : HuffmanDecodeEntry :=
  (huffmanTable.find? (fun e => e.symbol.toNat == symbol.toNat)).getD ⟨0, 0, symbol⟩

def huffmanCode (symbol : UInt8) : List Bool :=
  (huffmanEntry symbol).word

/-- The bytes are the codewords of the output, filled up with fewer than eight ones. -/
def HuffmanEncodes (src out : Bytes) : Prop :=
  ∃ pad < 8, bitsOfBytes src = out.flatMap huffmanCode ++ List.replicate pad true

/-! ## The table -/

/-- What is read off the table: its size, the codes, and its symbols as the bits of a number. -/
theorem huffmanTable_facts :
    huffmanTable.length = 256 ∧ TilesBelowOnes bits nbits 30 huffmanTable ∧
      (∀ e ∈ huffmanTable, 5 ≤ e.nbits) ∧
      huffmanTable.foldl (fun m e => m ||| 1 <<< e.symbol.toNat) 0 = 2 ^ 256 - 1 := by
  unfold TilesBelowOnes
  decide +kernel

theorem huffmanTable_tiles : TilesBelowOnes bits nbits 30 huffmanTable :=
  huffmanTable_facts.2.1

theorem five_le_nbits : ∀ e ∈ huffmanTable, 5 ≤ e.nbits :=
  huffmanTable_facts.2.2.1

theorem testBit_foldl_lor {α : Type} (f : α → Nat) (as : List α) (mask n : Nat) :
    (as.foldl (fun m a => m ||| 1 <<< f a) mask).testBit n = true ↔
      mask.testBit n = true ∨ ∃ a ∈ as, f a = n := by
  induction as generalizing mask with
  | nil => simp
  | cons a as ih =>
    rw [foldl_cons, ih, Nat.testBit_or, Nat.one_shiftLeft, Nat.testBit_two_pow,
      Bool.or_eq_true, decide_eq_true_eq, exists_mem_cons_iff, or_assoc]

theorem huffmanTable_covers {n : Nat} (hn : n < 256) : ∃ e ∈ huffmanTable, e.symbol.toNat = n := by
  have hbit := testBit_foldl_lor (fun e => e.symbol.toNat) huffmanTable 0 n
  rw [huffmanTable_facts.2.2.2, Nat.testBit_two_pow_sub_one, Nat.zero_testBit,
    decide_eq_true_eq] at hbit
  simpa using hbit.mp hn

/-- The table has as many entries as there are symbols, so no symbol comes twice. -/
theorem huffmanTable_nodup : (huffmanTable.map fun e => e.symbol.toNat).Nodup := by
  rw [← dedup_eq_self]
  refine (dedup_sublist _).eq_of_length_le ?_
  rw [← card_toFinset, length_map]
  calc huffmanTable.length = (Finset.range 256).card := by
        rw [huffmanTable_facts.1, Finset.card_range]
    _ ≤ (huffmanTable.map fun e => e.symbol.toNat).toFinset.card := by
        refine Finset.card_le_card fun n hn => ?_
        simpa using huffmanTable_covers (Finset.mem_range.mp hn)

theorem huffmanEntry_spec (symbol : UInt8) :
    huffmanEntry symbol ∈ huffmanTable ∧ (huffmanEntry symbol).symbol = symbol := by
  have hsome : (huffmanTable.find? (fun e => e.symbol.toNat == symbol.toNat)).isSome := by
    rw [find?_isSome]
    obtain ⟨e, he, hsymbol⟩ := huffmanTable_covers symbol.toNat_lt
    exact ⟨e, he, beq_iff_eq.mpr hsymbol⟩
  obtain ⟨e, he⟩ := Option.isSome_iff_exists.mp hsome
  have hsymbol := find?_some he
  rw [huffmanEntry, he]
  exact ⟨mem_of_find?_eq_some he, UInt8.toNat_inj.mp (beq_iff_eq.mp hsymbol)⟩

theorem huffmanEntry_symbol (e : HuffmanDecodeEntry) (he : e ∈ huffmanTable) :
    huffmanEntry e.symbol = e := by
  obtain ⟨hmem, hsymbol⟩ := huffmanEntry_spec e.symbol
  exact inj_on_of_nodup_map huffmanTable_nodup hmem he (congrArg UInt8.toNat hsymbol)

theorem huffmanEntry_mem {out : Bytes} {e : HuffmanDecodeEntry} (he : e ∈ out.map huffmanEntry) :
    e ∈ huffmanTable := by
  obtain ⟨symbol, -, rfl⟩ := mem_map.mp he
  exact (huffmanEntry_spec symbol).1

theorem huffmanEntry_injective : Function.Injective huffmanEntry := by
  intro s s' h
  rw [← (huffmanEntry_spec s).2, h, (huffmanEntry_spec s').2]

theorem flatMap_huffmanCode (out : Bytes) :
    out.flatMap huffmanCode = (out.map huffmanEntry).flatMap word := by
  rw [flatMap_map]
  rfl

theorem five_mul_length_le (out : Bytes) : 5 * out.length ≤ (out.flatMap huffmanCode).length := by
  induction out with
  | nil => simp
  | cons symbol out ih =>
    have := five_le_nbits _ (huffmanEntry_spec symbol).1
    rw [flatMap_cons, length_append, length_cons, huffmanCode, length_codeword]
    omega

theorem length_bitsOfBytes (src : Bytes) : (bitsOfBytes src).length = 8 * src.length := by
  induction src with
  | nil => rfl
  | cons byte src ih =>
    rw [bitsOfBytes, flatMap_cons, length_append, length_bitsOfNat, ← bitsOfBytes, ih, length_cons]
    ring

/-! ### The one way to read a string -/

/-- The symbols read from a string go on for as long as there are codewords. -/
theorem huffman_prefix {out out' : Bytes} {t t' : List Bool} (hstuck : HuffmanStuck t)
    (heq : out.flatMap huffmanCode ++ t = out'.flatMap huffmanCode ++ t') :
    ∃ more, out = out' ++ more := by
  rw [flatMap_huffmanCode, flatMap_huffmanCode] at heq
  obtain ⟨gs, hgs, -⟩ :=
    huffmanTable_tiles.prefix_of_flatMap_eq (fun _ => huffmanEntry_mem)
      (fun _ => huffmanEntry_mem) hstuck heq
  obtain ⟨front, more, rfl, hfront, -⟩ := map_eq_append_iff.mp hgs
  exact ⟨more, by rw [map_injective_iff.mpr huffmanEntry_injective hfront]⟩

theorem huffman_unique
    {out out' : Bytes} {t t' : List Bool} (hstuck : HuffmanStuck t) (hstuck' : HuffmanStuck t')
    (heq : out.flatMap huffmanCode ++ t = out'.flatMap huffmanCode ++ t') :
    out = out' ∧ t = t' := by
  rw [flatMap_huffmanCode, flatMap_huffmanCode] at heq
  obtain ⟨hout, ht⟩ :=
    huffmanTable_tiles.parse_unique (fun _ => huffmanEntry_mem)
      (fun _ => huffmanEntry_mem) hstuck hstuck' heq
  exact ⟨map_injective_iff.mpr huffmanEntry_injective hout, ht⟩

theorem exists_huffman (u : List Bool) :
    ∃ (out : Bytes) (t : List Bool), HuffmanStuck t ∧ u = out.flatMap huffmanCode ++ t := by
  obtain ⟨es, t, hes, hstuck, rfl⟩ :=
    exists_parse bits (fun e he => Nat.lt_of_lt_of_le (by decide) (five_le_nbits e he)) u
  refine ⟨es.map symbol, t, hstuck, ?_⟩
  have hback : (es.map symbol).map huffmanEntry = es := by
    rw [map_map]
    exact (map_congr_left fun e he => huffmanEntry_symbol e (hes e he)).trans (map_id es)
  rw [flatMap_huffmanCode, hback]

/-! ## The decoder -/

theorem huffmanSearch_spec (code len : Nat) :
    match huffmanSearch code len with
    | some symbol => ∃ e ∈ huffmanTable, e.nbits = len ∧ e.bits = code ∧ e.symbol = symbol
    | none => ∀ e ∈ huffmanTable, e.nbits = len → e.bits ≠ code := by
  unfold huffmanSearch
  cases hfind : huffmanTable.find? (fun e => e.nbits == len && e.bits == code) with
  | none =>
    intro e he hlen hcode
    have := find?_eq_none.mp hfind e he
    simp [hlen, hcode] at this
  | some e =>
    have hkey := find?_some hfind
    simp only [Bool.and_eq_true, beq_iff_eq] at hkey
    exact ⟨e, mem_of_find?_eq_some hfind, hkey.1, hkey.2, rfl⟩

/-- A table entry begins the buffer when the leading bits are its code. -/
theorem word_prefix_iff
    {e : HuffmanDecodeEntry} (he : e ∈ huffmanTable) {u : List Bool} (hlen : e.nbits ≤ u.length) :
    e.word <+: u ↔ (natOfBits u >>> (u.length - e.nbits)) &&& (2 ^ e.nbits - 1) = e.bits := by
  have hlt := natOfBits_lt (u.take e.nbits)
  rw [length_take, min_eq_left hlen] at hlt
  rw [Nat.and_two_pow_sub_one_eq_mod, Nat.shiftRight_eq_div_pow, ← natOfBits_take,
    Nat.mod_eq_of_lt hlt]
  exact codeword_prefix_iff_take (huffmanTable_tiles.value_lt he) hlen

/-- The lengths up to `len` are searched for a codeword that begins the buffer. -/
theorem huffmanMatch_upto (u : List Bool) (len : Nat) (hlen : len ≤ u.length) :
    match huffmanMatch (natOfBits u) u.length len with
    | some (n, symbol) => ∃ e ∈ huffmanTable, e.word <+: u ∧ e.nbits = n ∧ e.symbol = symbol
    | none => ∀ e ∈ huffmanTable, e.nbits ≤ len → ¬ e.word <+: u := by
  induction len with
  | zero =>
    intro e he hle
    have := five_le_nbits e he
    omega
  | succ len ih =>
  unfold huffmanMatch
  by_cases hshort : len + 1 < 5
  · rw [if_pos hshort]
    intro e he hle
    have := five_le_nbits e he
    omega
  rw [if_neg hshort]
  have hsearch :=
    huffmanSearch_spec ((natOfBits u >>> (u.length - (len + 1))) &&& (2 ^ (len + 1) - 1))
      (len + 1)
  cases hfound : huffmanSearch
      ((natOfBits u >>> (u.length - (len + 1))) &&& (2 ^ (len + 1) - 1)) (len + 1) with
  | some symbol =>
    rw [hfound] at hsearch
    obtain ⟨e, he, hn, hcode, hsymbol⟩ := hsearch
    simp only [hfound]
    refine ⟨e, he, ?_, hn, hsymbol⟩
    rw [word_prefix_iff he (by omega), hn, hcode]
  | none =>
  rw [hfound] at hsearch
  specialize ih (by omega)
  simp only [hfound]
  cases hrest : huffmanMatch (natOfBits u) u.length len with
  | some found =>
    rw [hrest] at ih
    exact ih
  | none =>
  rw [hrest] at ih
  intro e he hle hinit
  rcases Nat.lt_or_eq_of_le hle with hlt | heq
  · exact ih e he (by omega) hinit
  · rw [word_prefix_iff he (by omega), heq] at hinit
    exact hsearch e he heq hinit.symm

/-- The search finds the codeword that begins the buffer, if there is one. -/
theorem huffmanMatch_spec (u : List Bool) :
    match huffmanMatch (natOfBits u) u.length (min u.length 30) with
    | some (n, symbol) => ∃ rest, u = huffmanCode symbol ++ rest ∧ n = (huffmanCode symbol).length
    | none => HuffmanStuck u := by
  have hupto := huffmanMatch_upto u (min u.length 30) (by omega)
  cases hmatch : huffmanMatch (natOfBits u) u.length (min u.length 30) with
  | some found =>
    rw [hmatch] at hupto
    obtain ⟨e, he, ⟨rest, hrest⟩, hn, hsymbol⟩ := hupto
    have hword : huffmanCode found.2 = e.word := by
      rw [huffmanCode, ← hsymbol, huffmanEntry_symbol e he]
    exact ⟨rest, by rw [hword, hrest], by rw [hword, length_codeword, hn]⟩
  | none =>
    rw [hmatch] at hupto
    intro e he hinit
    have hle := hinit.length_le
    rw [length_codeword] at hle
    exact hupto e he (le_min hle (huffmanTable_tiles.len_le he)) hinit

theorem huffmanStuck_of_short {u : List Bool} (h : u.length < 5) : HuffmanStuck u := by
  intro e he hinit
  have hle := hinit.length_le
  have hfive := five_le_nbits e he
  rw [length_codeword] at hle
  omega

theorem five_le_huffmanCode (symbol : UInt8) : 5 ≤ (huffmanCode symbol).length := by
  rw [huffmanCode, length_codeword]
  exact five_le_nbits _ (huffmanEntry_spec symbol).1

/--
What a part of the loop leaves when it was given the word `u` and had put out
`dst`: the symbols read from `u` and the rest of `u`; or it failed since there
were more symbols than there is room.
-/
def HuffmanReads (dstLen : Nat) (u : List Bool) (dst : Bytes) :
    Option (Nat × Nat × Bytes) → Prop
  | some (bits, nbits, dst') =>
    ∃ out rest, u = out.flatMap huffmanCode ++ rest ∧ HuffmanStuck rest ∧
      bits = natOfBits rest ∧ nbits = rest.length ∧ dst' = dst ++ out ∧
      (dst.length ≤ dstLen → dst'.length ≤ dstLen)
  | none => ∃ out rest, u = out.flatMap huffmanCode ++ rest ∧ dstLen < (dst ++ out).length

theorem huffmanSymbols_spec
    (dstLen fuel : Nat) (u : List Bool) (dst : Bytes) (hfuel : u.length ≤ fuel) :
    HuffmanReads dstLen u dst (huffmanSymbols dstLen fuel (natOfBits u) u.length dst) := by
  induction fuel generalizing u dst with
  | zero =>
    have hstuck : HuffmanStuck u := huffmanStuck_of_short (by omega)
    exact ⟨[], u, rfl, hstuck, rfl, rfl, by simp, id⟩
  | succ fuel ih =>
  unfold huffmanSymbols
  by_cases hshort : u.length < 5
  · rw [if_pos hshort]
    exact ⟨[], u, rfl, huffmanStuck_of_short hshort, rfl, rfl, by simp, id⟩
  rw [if_neg hshort]
  have hmatch := huffmanMatch_spec u
  cases hfound : huffmanMatch (natOfBits u) u.length (min u.length 30) with
  | none =>
    rw [hfound] at hmatch
    exact ⟨[], u, rfl, hmatch, rfl, rfl, by simp, id⟩
  | some found =>
  obtain ⟨len, symbol⟩ := found
  rw [hfound] at hmatch
  obtain ⟨rest, rfl, rfl⟩ := hmatch
  have hfive := five_le_huffmanCode symbol
  simp only
  by_cases hroom : dstLen ≤ dst.length
  · rw [if_pos hroom]
    refine ⟨[symbol], rest, by simp, ?_⟩
    rw [length_append, length_singleton]
    omega
  rw [if_neg hroom]
  -- what is left of the number is the rest of the word
  have hdrop := natOfBits_drop (huffmanCode symbol ++ rest) (huffmanCode symbol).length
  rw [drop_left] at hdrop
  have hlen : (huffmanCode symbol ++ rest).length - (huffmanCode symbol).length =
      rest.length := by
    rw [length_append, Nat.add_sub_cancel_left]
  rw [Nat.and_two_pow_sub_one_eq_mod, ← hdrop, hlen]
  have hrest := ih rest (dst ++ [symbol]) (by omega)
  cases hresult : huffmanSymbols dstLen fuel (natOfBits rest) rest.length (dst ++ [symbol]) with
  | none =>
    rw [hresult] at hrest
    obtain ⟨out, tail, rfl, hlong⟩ := hrest
    refine ⟨symbol :: out, tail, by simp, ?_⟩
    simpa using hlong
  | some result =>
  rw [hresult] at hrest
  obtain ⟨out, tail, rfl, hstuck, hbits, hnbits, hdst, hle⟩ := hrest
  refine ⟨symbol :: out, tail, by simp, hstuck, hbits, hnbits, ?_, ?_⟩
  · rw [hdst, append_assoc, singleton_append]
  intro _
  apply hle
  rw [length_append, length_singleton]
  omega

theorem natOfBits_push (u : List Bool) (byte : UInt8) :
    (natOfBits u <<< 8) ||| byte.toNat = natOfBits (u ++ bitsOfNat 8 byte.toNat) := by
  have hlt : byte.toNat < 2 ^ 8 := byte.toNat_lt
  rw [← Nat.shiftLeft_add_eq_or_of_lt hlt, natOfBits_append, natOfBits_bitsOfNat,
    length_bitsOfNat, Nat.mod_eq_of_lt hlt, Nat.shiftLeft_eq]

/--
The outer loop.  It also fails when its buffer is full, and then the rest of the
string starts with thirty ones.
-/
theorem huffmanBytes_spec
    (dstLen : Nat) (src : Bytes) (u : List Bool) (dst : Bytes) (hstuck : HuffmanStuck u) :
    HuffmanReads dstLen (u ++ bitsOfBytes src) dst
        (huffmanBytes dstLen src (natOfBits u) u.length dst) ∨
      huffmanBytes dstLen src (natOfBits u) u.length dst = none ∧
        ∃ (out : Bytes) (rest : List Bool), u ++ bitsOfBytes src =
          out.flatMap huffmanCode ++ rest ∧ HuffmanStuck rest ∧ 8 ≤ rest.length := by
  induction src generalizing u dst with
  | nil =>
    left
    exact ⟨[], u, by simp [bitsOfBytes], hstuck, rfl, rfl, by simp, id⟩
  | cons byte src ih =>
  unfold huffmanBytes
  by_cases hfull : 56 < u.length
  · right
    rw [if_pos hfull]
    refine ⟨rfl, [], u ++ bitsOfBytes (byte :: src), rfl, ?_, ?_⟩
    · exact huffmanTable_tiles.stuck_append (by omega) hstuck _
    · rw [length_append]
      omega
  · rw [if_neg hfull]
    have hsplit : u ++ bitsOfBytes (byte :: src) =
        (u ++ bitsOfNat 8 byte.toNat) ++ bitsOfBytes src := by
      rw [bitsOfBytes, flatMap_cons, append_assoc]
      rfl
    have hlen : u.length + 8 = (u ++ bitsOfNat 8 byte.toNat).length := by
      rw [length_append, length_bitsOfNat]
    have hsymbols :=
      huffmanSymbols_spec dstLen (u.length + 8) (u ++ bitsOfNat 8 byte.toNat) dst hlen.ge
    rw [natOfBits_push, hsplit]
    rw [← hlen] at hsymbols
    cases hresult : huffmanSymbols dstLen (u.length + 8)
        (natOfBits (u ++ bitsOfNat 8 byte.toNat)) (u.length + 8) dst with
    | none =>
      left
      rw [hresult] at hsymbols
      obtain ⟨out, rest, hread, hlong⟩ := hsymbols
      exact ⟨out, rest ++ bitsOfBytes src, by rw [hread, append_assoc], hlong⟩
    | some result =>
    obtain ⟨bits, nbits, dst'⟩ := result
    rw [hresult] at hsymbols
    obtain ⟨out, rest, hread, hstuck', rfl, rfl, rfl, hle⟩ := hsymbols
    rw [hread, append_assoc]
    simp only
    rcases ih rest (dst ++ out) hstuck' with hreads | ⟨hnone, out', rest', heq, hrest', h8⟩
    · left
      cases hbytes : huffmanBytes dstLen src (natOfBits rest) rest.length (dst ++ out) with
      | none =>
        rw [hbytes] at hreads
        obtain ⟨out', rest', heq, hlong⟩ := hreads
        refine ⟨out ++ out', rest', ?_, ?_⟩
        · rw [heq, flatMap_append, append_assoc]
        · rwa [← append_assoc]
      | some result =>
        rw [hbytes] at hreads
        obtain ⟨out', rest', heq, hrest', hbits, hnbits, hdst, hle'⟩ := hreads
        refine ⟨out ++ out', rest', ?_, hrest', hbits, hnbits, ?_, ?_⟩
        · rw [heq, flatMap_append, append_assoc]
        · rw [hdst, append_assoc]
        · exact fun h => hle' (hle h)
    · right
      refine ⟨hnone, out ++ out', rest', ?_, hrest', h8⟩
      rw [heq, flatMap_append, append_assoc]

/--
The result of the decoder from the reading of the string: it succeeds when the
rest is shorter than a byte and consists of ones, and there is room.
-/
theorem hpackDecodeHuffman_eq
    {src out : Bytes} {rest : List Bool} (hread : bitsOfBytes src = out.flatMap huffmanCode ++ rest)
    (hstuck : HuffmanStuck rest) (dstLen : Nat) :
    hpackDecodeHuffman src dstLen =
      if out.length ≤ dstLen ∧ rest.length < 8 ∧ rest = List.replicate rest.length true then
        some out
      else
        none := by
  have hempty : HuffmanStuck [] := huffmanStuck_of_short (by decide)
  have hspec := huffmanBytes_spec dstLen src [] [] hempty
  simp only [nil_append, natOfBits, length_nil] at hspec
  unfold hpackDecodeHuffman
  cases hbytes : huffmanBytes dstLen src 0 0 [] with
  | none =>
    rw [hbytes] at hspec
    rw [if_neg]
    rintro ⟨hroom, hshort, -⟩
    rcases hspec with ⟨out', rest', heq, hlong⟩ | ⟨-, out', rest', heq, hstuck', h8⟩
    · obtain ⟨more, rfl⟩ := huffman_prefix hstuck (hread.symm.trans heq)
      simp only [nil_append, length_append] at hlong hroom
      omega
    · obtain ⟨-, rfl⟩ := huffman_unique hstuck hstuck' (hread.symm.trans heq)
      omega
  | some result =>
  obtain ⟨bits, nbits, dst⟩ := result
  rw [hbytes] at hspec
  rcases hspec with ⟨out', rest', heq, hstuck', rfl, rfl, rfl, hroom⟩ | ⟨hnone, -⟩
  · obtain ⟨rfl, rfl⟩ := huffman_unique hstuck hstuck' (hread.symm.trans heq)
    have hones : natOfBits rest = 2 ^ rest.length - 1 ↔
        rest = List.replicate rest.length true := by
      rw [← natOfBits_replicate_true]
      exact ⟨natOfBits_inj (by rw [length_replicate]), fun h => congrArg natOfBits h⟩
    have hle : out.length ≤ dstLen := hroom (Nat.zero_le _)
    simp only [hones, ne_eq]
    by_cases hok : rest.length < 8 ∧ rest = List.replicate rest.length true
    · rw [if_neg (by rintro (h | h); exacts [by omega, h hok.2]), if_pos ⟨hle, hok⟩]
    · have hbad : 7 < rest.length ∨ ¬ rest = List.replicate rest.length true := by
        by_contra hnot
        rw [not_or, not_not, Nat.not_lt] at hnot
        exact hok ⟨by omega, hnot.2⟩
      rw [if_pos hbad, if_neg fun h => hok h.2]
  · cases hnone

/--
Huffman decoding is exact: a string is accepted when it is a sequence of
codewords filled up with fewer than eight ones, the symbols fit, and they are
the output; no string encodes two outputs.
-/
theorem hpackDecodeHuffman_exact (src : Bytes) :
    (∀ dstLen out, hpackDecodeHuffman src dstLen = some out ↔
      HuffmanEncodes src out ∧ out.length ≤ dstLen) ∧
    {out | HuffmanEncodes src out}.Subsingleton := by
  obtain ⟨out, rest, hstuck, hread⟩ := exists_huffman (bitsOfBytes src)
  have hencodes : ∀ out', HuffmanEncodes src out' →
      out' = out ∧ rest.length < 8 ∧ rest = List.replicate rest.length true := by
    rintro out' ⟨pad, hpad, heq⟩
    obtain ⟨rfl, rfl⟩ :=
      huffman_unique (huffmanTable_tiles.stuck_replicate pad) hstuck (heq.symm.trans hread)
    exact ⟨rfl, by simpa using hpad, by rw [length_replicate]⟩
  refine ⟨?_, ?_⟩
  · intro dstLen out'
    rw [hpackDecodeHuffman_eq hread hstuck]
    constructor
    · intro h
      obtain ⟨⟨hroom, hshort, hones⟩, hout⟩ := Option.ite_none_right_eq_some.mp h
      obtain rfl : out = out' := Option.some.inj hout
      exact ⟨⟨rest.length, hshort, hones ▸ hread⟩, hroom⟩
    · rintro ⟨henc, hroom⟩
      obtain ⟨rfl, hshort, hones⟩ := hencodes out' henc
      rw [if_pos ⟨hroom, hshort, hones⟩]
  · intro out₁ h₁ out₂ h₂
    rw [(hencodes out₁ h₁).1, (hencodes out₂ h₂).1]

end SmartDns.Hpack
