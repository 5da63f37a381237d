import SmartDns.Lib.Bytes

/-!
# Flat memory and partial images of it

A memory is a list of cells.  Reading and writing a range fails outside of
it; an empty range may stand anywhere.  An image fixes the contents of some cells
only, so what is stated of it survives every write to the others.

Integers stand in memory with their most significant byte first (`beBytes`)
or last (`leBytes`).
-/

namespace SmartDns

open List

section Memory

variable {α : Type*}

/-- The `n` cells from `i` on. -/
def readAt (m : List α) (i n : Nat) : Option (List α) :=
  if n = 0 ∨ i + n ≤ m.length then some ((m.drop i).take n) else none

/-- The memory after `bs` was written from `i` on. -/
def overwrite (m : List α) (i : Nat) (bs : List α) : List α :=
  m.take i ++ bs ++ m.drop (i + bs.length)

/-- Write `bs` from `i` on. -/
def writeAt (m : List α) (i : Nat) (bs : List α) : Option (List α) :=
  if bs = [] ∨ i + bs.length ≤ m.length then some (overwrite m i bs) else none

theorem length_overwrite {m : List α} {i : Nat} {bs : List α} (h : i + bs.length ≤ m.length) :
    (overwrite m i bs).length = m.length := by
  simp only [overwrite, length_append, length_take, length_drop]
  omega

theorem getElem?_overwrite
    {m : List α} {i : Nat} {bs : List α} (h : i + bs.length ≤ m.length) (j : Nat) :
    (overwrite m i bs)[j]? = if i ≤ j ∧ j < i + bs.length then bs[j - i]? else m[j]? := by
  have htake : (m.take i).length = i := by
    rw [length_take]
    omega
  by_cases hlow : j < i
  · have hleft : j < (m.take i ++ bs).length := by
      rw [length_append, htake]
      omega
    rw [overwrite, getElem?_append_left hleft,
      getElem?_append_left (by rw [htake]; exact hlow), getElem?_take_of_lt hlow,
      if_neg (by omega)]
  by_cases hmid : j < i + bs.length
  · have hleft : j < (m.take i ++ bs).length := by
      rw [length_append, htake]
      exact hmid
    rw [overwrite, getElem?_append_left hleft,
      getElem?_append_right (by rw [htake]; omega), htake, if_pos ⟨by omega, hmid⟩]
  have hright : (m.take i ++ bs).length ≤ j := by
    rw [length_append, htake]
    omega
  rw [overwrite, getElem?_append_right hright, length_append, htake,
    getElem?_drop, if_neg (by omega)]
  congr 1
  omega

@[simp] theorem overwrite_nil (m : List α) (i : Nat) : overwrite m i [] = m := by
  simp [overwrite]

theorem overwrite_append
    {m : List α} {i : Nat} (bs cs : List α) (h : i + (bs ++ cs).length ≤ m.length) :
    overwrite (overwrite m i bs) (i + bs.length) cs = overwrite m i (bs ++ cs) := by
  rw [length_append] at h
  have hlen : (overwrite m i bs).length = m.length := length_overwrite (by omega)
  apply ext_getElem?
  intro j
  rw [getElem?_overwrite (by omega), getElem?_overwrite (by omega),
    getElem?_overwrite (by rw [length_append]; omega), length_append]
  by_cases hright : i + bs.length ≤ j ∧ j < i + bs.length + cs.length
  · rw [if_pos hright, if_pos ⟨by omega, by omega⟩, getElem?_append_right (by omega)]
    congr 1
    omega
  rw [if_neg hright]
  by_cases hleft : i ≤ j ∧ j < i + bs.length
  · rw [if_pos hleft, if_pos ⟨by omega, by omega⟩, getElem?_append_left (by omega)]
  · rw [if_neg hleft, if_neg (by omega)]

theorem writeAt_of_le {m : List α} {i : Nat} {bs : List α} (h : i + bs.length ≤ m.length) :
    writeAt m i bs = some (overwrite m i bs) := by
  rw [writeAt, if_pos (Or.inr h)]

theorem readAt_of_le {m : List α} {i n : Nat} (h : i + n ≤ m.length) :
    ∃ bs, readAt m i n = some bs ∧ bs.length = n := by
  refine ⟨(m.drop i).take n, by rw [readAt, if_pos (Or.inr h)], ?_⟩
  rw [length_take, length_drop]
  omega

theorem readAt_congr {m m' : List α} {i n : Nat} (hlen : m'.length = m.length)
    (h : ∀ k, i ≤ k → k < i + n → m'[k]? = m[k]?) :
    readAt m' i n = readAt m i n := by
  have heq : (m'.drop i).take n = (m.drop i).take n := by
    apply ext_getElem?
    intro k
    rw [getElem?_take, getElem?_take]
    split
    · rw [getElem?_drop, getElem?_drop]
      exact h (i + k) (by omega) (by omega)
    · rfl
  rw [readAt, readAt, hlen, heq]

/-- A partial memory. -/
abbrev Image (α : Type*) := Nat → Option α

namespace Image

/-- Everything that stands in a memory. -/
def ofList (m : List α) : Image α :=
  fun i => m[i]?

/-- `H` fixes at least what `G` fixes. -/
def Le (G H : Image α) : Prop :=
  ∀ i a, G i = some a → H i = some a

/-- No cell from `n` on is fixed. -/
def Below (G : Image α) (n : Nat) : Prop :=
  ∀ i, n ≤ i → G i = none

/-- The cells `bs` stand from `i` on. -/
def At (G : Image α) (i : Nat) (bs : List α) : Prop :=
  ∀ k a, bs[k]? = some a → G (i + k) = some a

/-- The image that also fixes the cells from `i` to `j` as they stand in `m`. -/
def cover (G : Image α) (m : List α) (i j : Nat) : Image α :=
  fun k => if i ≤ k ∧ k < j then m[k]? else G k

variable {G H K : Image α} {m m' : List α} {i j n : Nat} {bs cs : List α}

theorem Le.refl (G : Image α) : Le G G :=
  fun _ _ h => h

theorem Below.mono (h : Below G i) (hij : i ≤ j) : Below G j :=
  fun k hk => h k (hij.trans hk)

@[simp] theorem at_nil : At G i [] := by
  intro k a h
  simp at h

theorem at_cons {b : α} : At G i (b :: bs) ↔ G i = some b ∧ At G (i + 1) bs := by
  constructor
  · intro h
    refine ⟨h 0 b rfl, ?_⟩
    intro k a hk
    have h' := h (k + 1) a (by simpa using hk)
    rwa [show i + (k + 1) = i + 1 + k by omega] at h'
  rintro ⟨hb, hbs⟩ k a hk
  cases k with
  | zero =>
    obtain rfl : b = a := by simpa using hk
    exact hb
  | succ k =>
    have h' := hbs k a (by simpa using hk)
    rwa [show i + (k + 1) = i + 1 + k by omega]

theorem at_append : At G i (bs ++ cs) ↔ At G i bs ∧ At G (i + bs.length) cs := by
  induction bs generalizing i with
  | nil => simp
  | cons b bs ih =>
    rw [cons_append, at_cons, ih, at_cons, and_assoc, length_cons,
      show i + 1 + bs.length = i + (bs.length + 1) by omega]

theorem At.mono (h : At G i bs) (hle : Le G H) : At H i bs :=
  fun k a hk => hle _ a (h k a hk)

theorem at_ofList_iff : At (ofList m) i bs ↔ ∀ k, k < bs.length → m[i + k]? = bs[k]? := by
  constructor
  · intro h k hk
    have hsome : bs[k]? = some bs[k] := getElem?_eq_getElem hk
    rw [hsome]
    exact h k _ hsome
  intro h k a hk
  have hlt : k < bs.length := (List.getElem?_eq_some_iff.mp hk).1
  rw [ofList, h k hlt]
  exact hk

theorem At.length_le (h : At (ofList m) i bs) (hne : bs ≠ []) : i + bs.length ≤ m.length := by
  have hpos : 0 < bs.length := List.length_pos_iff.mpr hne
  have hlast := at_ofList_iff.mp h (bs.length - 1) (by omega)
  have hsome : bs[bs.length - 1]? = some bs[bs.length - 1] := List.getElem?_eq_getElem (by omega)
  rw [hsome] at hlast
  have := (List.getElem?_eq_some_iff.mp hlast).1
  omega

theorem At.read (h : At (ofList m) i bs) : readAt m i bs.length = some bs := by
  by_cases hne : bs = []
  · subst hne
    simp [readAt]
  have hle := h.length_le hne
  rw [readAt, if_pos (Or.inr hle)]
  congr 1
  apply ext_getElem?
  intro k
  rw [getElem?_take]
  split
  next hk =>
    rw [getElem?_drop]
    exact at_ofList_iff.mp h k hk
  next hk => exact (getElem?_eq_none (by omega)).symm

theorem at_of_read (h : readAt m i n = some bs) : bs.length = n ∧ At (ofList m) i bs := by
  simp only [readAt] at h
  split at h
  next hle =>
    simp only [Option.some.injEq] at h
    subst h
    constructor
    · rw [length_take, length_drop]
      omega
    rw [at_ofList_iff]
    intro k hk
    rw [length_take] at hk
    rw [getElem?_take_of_lt (by omega), getElem?_drop]
  next => cases h

theorem at_overwrite (h : i + bs.length ≤ m.length) : At (ofList (overwrite m i bs)) i bs := by
  rw [at_ofList_iff]
  intro k hk
  rw [getElem?_overwrite h, if_pos ⟨by omega, by omega⟩, Nat.add_sub_cancel_left]

theorem cover_self_le (hle : Le G (ofList m)) : Le G (cover G m i j) := by
  intro k a hk
  simp only [cover]
  split
  · exact hle k a hk
  · exact hk

theorem Le.overwrite (hle : Le G (ofList m)) (h : i + bs.length ≤ m.length)
    (hfree : ∀ k, i ≤ k → k < i + bs.length → G k = none) :
    Le G (ofList (overwrite m i bs)) := by
  intro k a hk
  have hout : ¬ (i ≤ k ∧ k < i + bs.length) := by
    rintro ⟨h1, h2⟩
    rw [hfree k h1 h2] at hk
    cases hk
  rw [ofList, getElem?_overwrite h, if_neg hout]
  exact hle k a hk

theorem cover_le_ofList (hle : Le G (ofList m)) : Le (cover G m i j) (ofList m) := by
  intro k a hk
  simp only [cover] at hk
  split at hk
  · exact hk
  · exact hle k a hk

/-- Covering a range takes in every image that agrees with the memory and is
contained in the old image outside of the range. -/
theorem le_cover (hH : Le H (ofList m))
    (hout : ∀ k a, ¬ (i ≤ k ∧ k < j) → H k = some a → G k = some a) :
    Le H (cover G m i j) := by
  intro k a hk
  by_cases hin : i ≤ k ∧ k < j
  · rw [cover, if_pos hin]
    exact hH k a hk
  · rw [cover, if_neg hin]
    exact hout k a hin hk

theorem Below.cover (hG : Below G i) (hij : i ≤ j) : Below (cover G m i j) j := by
  intro k hk
  rw [Image.cover, if_neg (by omega)]
  exact hG k (by omega)

theorem At.cover (h : At (ofList m) n bs) (hi : i ≤ n) (hj : n + bs.length ≤ j) :
    At (cover G m i j) n bs := by
  intro k a hk
  have hlt : k < bs.length := (List.getElem?_eq_some_iff.mp hk).1
  rw [Image.cover, if_pos ⟨by omega, by omega⟩]
  exact h k a hk

theorem At.congr (h : At (ofList m) i bs) (heq : ∀ k, i ≤ k → k < i + bs.length → m'[k]? = m[k]?) :
    At (ofList m') i bs := by
  intro k a hk
  have hlt : k < bs.length := (List.getElem?_eq_some_iff.mp hk).1
  rw [ofList, heq (i + k) (by omega) (by omega)]
  exact h k a hk

theorem At.overwrite (h : At (ofList m) i bs) (hin : j + cs.length ≤ m.length)
    (hdisjoint : i + bs.length ≤ j ∨ j + cs.length ≤ i) :
    At (ofList (overwrite m j cs)) i bs := by
  refine h.congr ?_
  intro k hk hk'
  rw [getElem?_overwrite hin, if_neg (by omega)]

theorem Le.congr (hle : Le G (ofList m)) (hG : Below G n) (heq : ∀ k, k < n → m'[k]? = m[k]?) :
    Le G (ofList m') := by
  intro k a hk
  by_cases hkn : k < n
  · rw [ofList, heq k hkn]
    exact hle k a hk
  · rw [hG k (by omega)] at hk
    cases hk

end Image

end Memory

section Integers

/-- The `w` low bytes of a number, most significant first. -/
def beBytes : Nat → Nat → Bytes
  | 0, _ => []
  | w + 1, n => beBytes w (n / 256) ++ [UInt8.ofNat n]

/-- The number that stands in a byte string, most significant byte first. -/
def beNat (bs : Bytes) : Nat :=
  bs.foldl (fun n b => 256 * n + b.toNat) 0

/-- The `w` low bytes of a number, least significant first. -/
def leBytes (w n : Nat) : Bytes :=
  (beBytes w n).reverse

/-- The number that stands in a byte string, least significant byte first. -/
def leNat (bs : Bytes) : Nat :=
  beNat bs.reverse

@[simp] theorem length_beBytes (w n : Nat) : (beBytes w n).length = w := by
  induction w generalizing n with
  | zero => rfl
  | succ w ih => simp [beBytes, ih]

@[simp] theorem length_leBytes (w n : Nat) : (leBytes w n).length = w := by
  simp [leBytes]

theorem beNat_beBytes (w n : Nat) : beNat (beBytes w n) = n % 256 ^ w := by
  induction w generalizing n with
  | zero => simp [beBytes, beNat, Nat.mod_one]
  | succ w ih =>
  have hlow : (UInt8.ofNat n).toNat = n % 256 := by simp
  have hhigh : beNat (beBytes w (n / 256)) = n / 256 % 256 ^ w := ih (n / 256)
  simp only [beNat] at hhigh
  simp only [beBytes, beNat, foldl_append, foldl_cons, foldl_nil, hhigh, hlow]
  rw [Nat.pow_succ, Nat.mul_comm (256 ^ w) 256, Nat.mod_mul]
  omega

theorem leNat_leBytes (w n : Nat) : leNat (leBytes w n) = n % 256 ^ w := by
  simp [leNat, leBytes, beNat_beBytes]

theorem beNat_lt (bs : Bytes) : beNat bs < 256 ^ bs.length := by
  induction bs using List.reverseRecOn with
  | nil => simp [beNat]
  | append_singleton bs b ih =>
    have hb : b.toNat < 256 := b.toNat_lt
    simp only [beNat] at ih
    simp only [beNat, foldl_append, foldl_cons, foldl_nil, length_append,
      length_singleton, Nat.pow_succ]
    omega

theorem beBytes_beNat (bs : Bytes) : beBytes bs.length (beNat bs) = bs := by
  induction bs using List.reverseRecOn with
  | nil => rfl
  | append_singleton bs b ih =>
  have hb : b.toNat < 256 := b.toNat_lt
  have hval : beNat (bs ++ [b]) = 256 * beNat bs + b.toNat := by simp [beNat]
  have hhigh : (256 * beNat bs + b.toNat) / 256 = beNat bs := by omega
  have hlow : UInt8.ofNat (256 * beNat bs + b.toNat) = b := by
    apply UInt8.toNat_inj.mp
    rw [UInt8.toNat_ofNat']
    omega
  rw [length_append, length_singleton, beBytes, hval, hhigh, hlow, ih]

end Integers

end SmartDns
