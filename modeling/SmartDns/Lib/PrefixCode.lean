import Mathlib.Tactic

/-!
# Prefix codes that tile

A word of bits is a number with a length.  A codeword of length `n` stands for
an interval of the words of length `w`: those that start with it.  When the
intervals of a table lie one behind another without a gap, no codeword is a
prefix of another one, and every word that falls into the covered part starts
with exactly one of them.

Here everything but the word of `w` ones is covered.  Every word is then a
sequence of codewords and a rest that starts with none, in one way only.
-/

namespace SmartDns

open List

variable {u : List Bool} {x : Nat}

/-! ## Words as numbers -/

/-- The low `n` bits of a number, the most significant first. -/
def bitsOfNat : (n value : Nat) → List Bool
  | 0, _ => []
  | n + 1, value => value.testBit n :: bitsOfNat n value

/-- The number that a word is. -/
def natOfBits : List Bool → Nat
  | [] => 0
  | b :: bs => b.toNat * 2 ^ bs.length + natOfBits bs

@[simp] theorem length_bitsOfNat (n value : Nat) : (bitsOfNat n value).length = n := by
  induction n with
  | zero => rfl
  | succ n ih => rw [bitsOfNat, length_cons, ih]

theorem natOfBits_lt (u : List Bool) : natOfBits u < 2 ^ u.length := by
  induction u with
  | nil => decide
  | cons b u ih =>
    rw [natOfBits, length_cons, pow_succ]
    cases b with
    | false => simp; omega
    | true => simp; omega

theorem natOfBits_append (u v : List Bool) :
    natOfBits (u ++ v) = natOfBits u * 2 ^ v.length + natOfBits v := by
  induction u with
  | nil => simp [natOfBits]
  | cons b u ih =>
    rw [cons_append, natOfBits, natOfBits, ih, length_append, pow_add]
    ring

theorem natOfBits_bitsOfNat (n value : Nat) : natOfBits (bitsOfNat n value) = value % 2 ^ n := by
  induction n with
  | zero => simp [bitsOfNat, natOfBits, Nat.mod_one]
  | succ n ih =>
    rw [bitsOfNat, natOfBits, length_bitsOfNat, ih, Nat.toNat_testBit, Nat.mod_pow_succ]
    ring

theorem natOfBits_inj {v : List Bool} (hlen : u.length = v.length) (h : natOfBits u = natOfBits v) :
    u = v := by
  induction u generalizing v with
  | nil => exact (eq_nil_of_length_eq_zero hlen.symm).symm
  | cons b u ih =>
  cases v with
  | nil => cases hlen
  | cons c v =>
  have hlen' : u.length = v.length := by simpa using hlen
  have hu := natOfBits_lt u
  have hv := natOfBits_lt v
  rw [natOfBits, natOfBits, hlen'] at h
  rw [hlen'] at hu
  -- the first bit is the quotient, the rest the remainder
  have hb : b = c := by
    cases b with
    | false =>
      cases c with
      | false => rfl
      | true => simp at h; omega
    | true =>
      cases c with
      | false => simp at h; omega
      | true => rfl
  subst hb
  rw [ih hlen' (by omega)]

theorem natOfBits_take (u : List Bool) (n : Nat) :
    natOfBits (u.take n) = natOfBits u / 2 ^ (u.length - n) := by
  have hsplit := natOfBits_append (u.take n) (u.drop n)
  have hlt := natOfBits_lt (u.drop n)
  rw [take_append_drop] at hsplit
  rw [length_drop] at hsplit hlt
  rw [hsplit, Nat.add_comm, Nat.add_mul_div_right _ _ (by positivity), Nat.div_eq_of_lt hlt,
    Nat.zero_add]

theorem natOfBits_drop (u : List Bool) (n : Nat) :
    natOfBits (u.drop n) = natOfBits u % 2 ^ (u.length - n) := by
  have hsplit := natOfBits_append (u.take n) (u.drop n)
  have hlt := natOfBits_lt (u.drop n)
  rw [take_append_drop] at hsplit
  rw [length_drop] at hsplit hlt
  rw [hsplit, Nat.mul_add_mod_self_right, Nat.mod_eq_of_lt hlt]

theorem natOfBits_replicate_true (n : Nat) : natOfBits (List.replicate n true) = 2 ^ n - 1 := by
  induction n with
  | zero => rfl
  | succ n ih =>
    rw [replicate_succ, natOfBits, ih, length_replicate, pow_succ]
    simp only [Bool.toNat_true]
    omega

/-! ## Tilings -/

section Tiling

variable {ι : Type*} (value len : ι → Nat) (w : Nat)

def codeword (c : ι) : List Bool :=
  bitsOfNat (len c) (value c)

@[simp] theorem length_codeword (c : ι) : (codeword value len c).length = len c :=
  length_bitsOfNat _ _

/-- The intervals of the entries lie one behind another from `lo` to `hi`. -/
def Tiles : Nat → List ι → Nat → Prop
  | lo, [], hi => lo = hi
  | lo, c :: cs, hi =>
    len c ≤ w ∧ value c * 2 ^ (w - len c) = lo ∧ Tiles ((value c + 1) * 2 ^ (w - len c)) cs hi

instance decidableTiles : ∀ lo cs hi, Decidable (Tiles value len w lo cs hi)
  | lo, [], hi => inferInstanceAs (Decidable (lo = hi))
  | lo, c :: cs, hi =>
    have := decidableTiles ((value c + 1) * 2 ^ (w - len c)) cs hi
    inferInstanceAs (Decidable (len c ≤ w ∧ value c * 2 ^ (w - len c) = lo ∧
      Tiles value len w ((value c + 1) * 2 ^ (w - len c)) cs hi))

variable {value len w}
variable {lo hi : Nat} {cs : List ι}

theorem Tiles.bounds (h : Tiles value len w lo cs hi) :
    lo ≤ hi ∧ ∀ c ∈ cs, len c ≤ w ∧ lo ≤ value c * 2 ^ (w - len c) ∧
      (value c + 1) * 2 ^ (w - len c) ≤ hi := by
  induction cs generalizing lo with
  | nil => exact ⟨le_of_eq h, by simp⟩
  | cons c cs ih =>
  obtain ⟨hlen, hlo, hrest⟩ := h
  obtain ⟨hle, hall⟩ := ih hrest
  have hstep : value c * 2 ^ (w - len c) ≤ (value c + 1) * 2 ^ (w - len c) := by
    gcongr
    omega
  refine ⟨by omega, ?_⟩
  intro d hd
  rcases mem_cons.mp hd with rfl | hd
  · exact ⟨hlen, hlo.ge, hle⟩
  · obtain ⟨h₁, h₂, h₃⟩ := hall d hd
    exact ⟨h₁, by omega, h₃⟩

/-- An entry covers a point when the leading digits of the point are its value. -/
theorem covers_iff {c : ι} :
    x / 2 ^ (w - len c) = value c ↔
      value c * 2 ^ (w - len c) ≤ x ∧ x < (value c + 1) * 2 ^ (w - len c) := by
  rw [Nat.div_eq_iff (by positivity)]
  have hpos : 0 < 2 ^ (w - len c) := by positivity
  have hsucc : (value c + 1) * 2 ^ (w - len c) = value c * 2 ^ (w - len c) + 2 ^ (w - len c) := by
    ring
  omega

theorem Tiles.exists_covers (h : Tiles value len w lo cs hi) (hlo : lo ≤ x) (hhi : x < hi) :
    ∃ c ∈ cs, x / 2 ^ (w - len c) = value c := by
  induction cs generalizing lo with
  | nil =>
    have : lo = hi := h
    omega
  | cons c cs ih =>
    obtain ⟨hlen, rfl, hrest⟩ := h
    by_cases hx : x < (value c + 1) * 2 ^ (w - len c)
    · exact ⟨c, mem_cons_self, covers_iff.mpr ⟨hlo, hx⟩⟩
    · obtain ⟨d, hd, hcovers⟩ := ih hrest (by omega)
      exact ⟨d, mem_cons_of_mem _ hd, hcovers⟩

theorem Tiles.covers_unique (h : Tiles value len w lo cs hi) {c d : ι} (hc : c ∈ cs) (hd : d ∈ cs)
    (hxc : x / 2 ^ (w - len c) = value c) (hxd : x / 2 ^ (w - len d) = value d) :
    c = d := by
  rw [covers_iff] at hxc hxd
  induction cs generalizing lo with
  | nil => cases hc
  | cons e cs ih =>
  obtain ⟨-, rfl, hrest⟩ := h
  rcases mem_cons.mp hc with rfl | hc'
  · rcases mem_cons.mp hd with rfl | hd'
    · rfl
    · have := (hrest.bounds.2 d hd').2.1
      omega
  rcases mem_cons.mp hd with rfl | hd'
  · have := (hrest.bounds.2 c hc').2.1
    omega
  · exact ih hrest hc' hd'

/-- A codeword begins a word when the leading digits of the word are its value. -/
theorem codeword_prefix_iff_take {c : ι} (hvalue : value c < 2 ^ len c) (hu : len c ≤ u.length) :
    codeword value len c <+: u ↔ natOfBits (u.take (len c)) = value c := by
  have hword : natOfBits (codeword value len c) = value c := by
    rw [codeword, natOfBits_bitsOfNat, Nat.mod_eq_of_lt hvalue]
  rw [prefix_iff_eq_take, length_codeword]
  constructor
  · intro h
    rw [← h, hword]
  intro h
  refine natOfBits_inj ?_ (hword.trans h.symm)
  rw [length_codeword, length_take, min_eq_left hu]

/-- A codeword begins a word of length `w` when it covers its number. -/
theorem codeword_prefix_iff
    {c : ι} (hlen : len c ≤ w) (hvalue : value c < 2 ^ len c) (hu : w ≤ u.length) :
    codeword value len c <+: u ↔ natOfBits (u.take w) / 2 ^ (w - len c) = value c := by
  have htake := natOfBits_take (u.take w) (len c)
  rw [take_take, min_eq_left hlen, length_take, min_eq_left hu] at htake
  rw [← htake]
  exact codeword_prefix_iff_take hvalue (hlen.trans hu)

end Tiling

/-! ## Codes with one reserved word -/

section Reserved

variable {ι : Type*} {value len : ι → Nat} {w : Nat} {cs : List ι}

/-- The entries cover every word of length `w` but the one of ones. -/
def TilesBelowOnes (value len : ι → Nat) (w : Nat) (cs : List ι) : Prop :=
  Tiles value len w 0 cs (2 ^ w - 1)

def Stuck (value len : ι → Nat) (cs : List ι) (u : List Bool) : Prop :=
  ∀ c ∈ cs, ¬ codeword value len c <+: u

section

variable (h : TilesBelowOnes value len w cs)
include h

theorem TilesBelowOnes.len_le {c : ι} (hc : c ∈ cs) : len c ≤ w :=
  (Tiles.bounds h).2 c hc |>.1

theorem TilesBelowOnes.value_lt {c : ι} (hc : c ∈ cs) : value c < 2 ^ len c := by
  obtain ⟨hlen, -, hstop⟩ := (Tiles.bounds h).2 c hc
  have hpow : 2 ^ w = 2 ^ len c * 2 ^ (w - len c) := by rw [← pow_add, Nat.add_sub_cancel' hlen]
  have hpos : 0 < 2 ^ (w - len c) := by positivity
  have hle : (value c + 1) * 2 ^ (w - len c) ≤ 2 ^ len c * 2 ^ (w - len c) := by omega
  exact Nat.le_of_mul_le_mul_right hle hpos

theorem TilesBelowOnes.codeword_unique {c d : ι} (hc : c ∈ cs) (hd : d ∈ cs)
    (hcu : codeword value len c <+: u) (hdu : codeword value len d <+: u) :
    c = d := by
  -- made long enough, the word has a number that both cover
  have hlong : w ≤ (u ++ List.replicate w true).length := by simp
  have hcu' := hcu.trans (prefix_append u (List.replicate w true))
  have hdu' := hdu.trans (prefix_append u (List.replicate w true))
  rw [codeword_prefix_iff (h.len_le hc) (h.value_lt hc) hlong] at hcu'
  rw [codeword_prefix_iff (h.len_le hd) (h.value_lt hd) hlong] at hdu'
  exact Tiles.covers_unique h hc hd hcu' hdu'

/-- A long word starts with a codeword or with the reserved word. -/
theorem TilesBelowOnes.stuck_iff (hu : w ≤ u.length) :
    Stuck value len cs u ↔ u.take w = List.replicate w true := by
  have hlen : (u.take w).length = w := by rw [length_take, min_eq_left hu]
  have hlt := natOfBits_lt (u.take w)
  have hones := natOfBits_replicate_true w
  rw [hlen] at hlt
  constructor
  · intro hstuck
    by_contra hne
    have hx : natOfBits (u.take w) < 2 ^ w - 1 := by
      have hneq : natOfBits (u.take w) ≠ natOfBits (List.replicate w true) := by
        intro heq
        exact hne (natOfBits_inj (by rw [hlen, length_replicate]) heq)
      omega
    obtain ⟨c, hc, hcovers⟩ := Tiles.exists_covers h (Nat.zero_le _) hx
    exact hstuck c hc ((codeword_prefix_iff (h.len_le hc) (h.value_lt hc) hu).mpr hcovers)
  · intro hall c hc hinit
    rw [codeword_prefix_iff (h.len_le hc) (h.value_lt hc) hu, covers_iff, hall, hones] at hinit
    have := ((Tiles.bounds h).2 c hc).2.2
    omega

theorem TilesBelowOnes.stuck_replicate (n : Nat) : Stuck value len cs (List.replicate n true) := by
  intro c hc hinit
  have hlong : w ≤ (List.replicate (n + w) true).length := by simp
  have hstuck : Stuck value len cs (List.replicate (n + w) true) := by
    rw [h.stuck_iff hlong, take_replicate, min_eq_left (Nat.le_add_left w n)]
  refine hstuck c hc (hinit.trans ?_)
  rw [replicate_add]
  exact prefix_append _ _

theorem TilesBelowOnes.stuck_append (hu : w ≤ u.length) (hstuck : Stuck value len cs u)
    (v : List Bool) :
    Stuck value len cs (u ++ v) := by
  rw [h.stuck_iff hu] at hstuck
  have hlong : w ≤ (u ++ v).length := by
    rw [length_append]
    omega
  rw [h.stuck_iff hlong, take_append_of_le_length hu]
  exact hstuck

/-- A word that starts with no codeword is the beginning of one, or of the reserved word. -/
theorem TilesBelowOnes.stuck_cases (hstuck : Stuck value len cs u) :
    u.take w = List.replicate (min u.length w) true ∨
      u.length < w ∧ ∃ c ∈ cs, u <+: codeword value len c := by
  by_cases hu : w ≤ u.length
  · left
    rw [min_eq_right hu]
    exact (h.stuck_iff hu).mp hstuck
  by_cases hones : u = List.replicate u.length true
  · left
    rw [take_of_length_le (by omega), min_eq_left (by omega)]
    exact hones
  right
  refine ⟨by omega, ?_⟩
  by_contra hnone
  -- filled up with ones the word starts with a codeword; it would be one of these two
  have hlong : w ≤ (u ++ List.replicate w true).length := by simp
  have hfull : Stuck value len cs (u ++ List.replicate w true) := by
    intro c hc hinit
    rcases prefix_or_prefix_of_prefix hinit (prefix_append u _) with hcu | huc
    · exact hstuck c hc hcu
    · exact hnone ⟨c, hc, huc⟩
  rw [h.stuck_iff hlong] at hfull
  have htake := congrArg (List.take u.length) hfull
  rw [take_take, min_eq_left (by omega), take_left, take_replicate,
    min_eq_left (by omega)] at htake
  exact hones htake

/-! ### Sequences of codewords -/

/-- A word that goes on in two ways goes on in the same way as long as there are codewords. -/
theorem TilesBelowOnes.prefix_of_flatMap_eq {es fs : List ι} {t t' : List Bool}
    (hes : ∀ e ∈ es, e ∈ cs) (hfs : ∀ f ∈ fs, f ∈ cs) (hstuck : Stuck value len cs t)
    (heq : es.flatMap (codeword value len) ++ t = fs.flatMap (codeword value len) ++ t') :
    ∃ gs, es = fs ++ gs ∧ t' = gs.flatMap (codeword value len) ++ t := by
  induction fs generalizing es with
  | nil => exact ⟨es, rfl, heq.symm⟩
  | cons f fs ih =>
  have hf : f ∈ cs := hfs f mem_cons_self
  rw [flatMap_cons, append_assoc] at heq
  cases es with
  | nil => exact absurd ⟨_, heq.symm⟩ (hstuck f hf)
  | cons e es =>
  rw [flatMap_cons, append_assoc] at heq
  have hef : e = f :=
    h.codeword_unique (hes e mem_cons_self) hf (prefix_append _ _) ⟨_, heq.symm⟩
  subst hef
  have htail := append_cancel_left heq
  obtain ⟨gs, rfl, ht'⟩ :=
    ih (fun x hx => hes x (mem_cons_of_mem _ hx))
      (fun x hx => hfs x (mem_cons_of_mem _ hx)) htail
  exact ⟨gs, rfl, ht'⟩

theorem TilesBelowOnes.parse_unique {es fs : List ι} {t t' : List Bool}
    (hes : ∀ e ∈ es, e ∈ cs) (hfs : ∀ f ∈ fs, f ∈ cs)
    (hstuck : Stuck value len cs t) (hstuck' : Stuck value len cs t')
    (heq : es.flatMap (codeword value len) ++ t = fs.flatMap (codeword value len) ++ t') :
    es = fs ∧ t = t' := by
  obtain ⟨gs, rfl, rfl⟩ := h.prefix_of_flatMap_eq hes hfs hstuck heq
  cases gs with
  | nil => simp
  | cons g gs =>
    have hg : g ∈ cs := hes g (by simp)
    refine absurd ?_ (hstuck' g hg)
    rw [flatMap_cons, append_assoc]
    exact prefix_append _ _

end

/-- Every word is a sequence of codewords and a rest, when no codeword is empty. -/
theorem exists_parse (value : ι → Nat) (hpos : ∀ c ∈ cs, 0 < len c) (u : List Bool) :
    ∃ (es : List ι) (t : List Bool), (∀ e ∈ es, e ∈ cs) ∧ Stuck value len cs t ∧
      u = es.flatMap (codeword value len) ++ t := by
  obtain ⟨n, hn⟩ : ∃ n, u.length ≤ n := ⟨_, le_rfl⟩
  induction n generalizing u with
  | zero =>
    refine ⟨[], u, by simp, ?_, rfl⟩
    intro c hc hinit
    have hle := hinit.length_le
    rw [length_codeword] at hle
    have := hpos c hc
    omega
  | succ n ih =>
  by_cases hstuck : Stuck value len cs u
  · exact ⟨[], u, by simp, hstuck, rfl⟩
  simp only [Stuck, not_forall, not_not] at hstuck
  obtain ⟨c, hc, rest, rfl⟩ := hstuck
  have hshort : rest.length ≤ n := by
    rw [length_append, length_codeword] at hn
    have := hpos c hc
    omega
  obtain ⟨es, t, hes, ht, rfl⟩ := ih rest hshort
  refine ⟨c :: es, t, ?_, ht, ?_⟩
  · rintro e he
    rcases mem_cons.mp he with rfl | he
    · exact hc
    · exact hes e he
  · rw [flatMap_cons, append_assoc]

end Reserved

end SmartDns
