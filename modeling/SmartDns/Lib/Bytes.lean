import Mathlib.Data.List.TakeWhile
import Mathlib.Data.Nat.Bitwise
import Mathlib.Tactic

/-!
# Byte strings and C strings

The vocabulary shared by every codec of the development: byte strings, the
ASCII image of a literal, and C strings, which carry the proof that no NUL
byte stands before their end.
-/

namespace SmartDns

/-- A byte string. -/
abbrev Bytes := List UInt8

/-- The bytes of an ASCII literal. -/
def ascii (s : String) : Bytes :=
  s.toList.map (fun c => UInt8.ofNat c.toNat)

/-- `tolower` in the C locale. -/
def toLower (b : UInt8) : UInt8 :=
  if 65 ≤ b ∧ b ≤ 90 then b + 32 else b

theorem toLower_ne_zero {b : UInt8} (h : b ≠ 0) : toLower b ≠ 0 := by
  unfold toLower
  split
  next hb =>
    have hlow := UInt8.le_iff_toNat_le.mp hb.1
    have hhigh := UInt8.le_iff_toNat_le.mp hb.2
    intro h0
    have hsum := congrArg UInt8.toNat h0
    simp [UInt8.toNat_add] at hsum hlow hhigh
    omega
  · exact h

@[simp] theorem toLower_toLower (b : UInt8) : toLower (toLower b) = toLower b := by
  unfold toLower
  split
  next hb =>
    have hlow := UInt8.le_iff_toNat_le.mp hb.1
    have hhigh := UInt8.le_iff_toNat_le.mp hb.2
    rw [if_neg]
    rw [UInt8.le_iff_toNat_le, UInt8.le_iff_toNat_le]
    simp [UInt8.toNat_add] at hlow hhigh ⊢
    omega
  · rfl

theorem and_two_pow_eq_zero_iff (n i : Nat) : n &&& 2 ^ i = 0 ↔ n / 2 ^ i % 2 = 0 := by
  rw [Nat.and_two_pow, Nat.testBit_eq_decide_div_mod_eq]
  have hpos : 2 ^ i ≠ 0 := (Nat.two_pow_pos i).ne'
  by_cases h : n / 2 ^ i % 2 = 1
  · simp [h]
  · have h0 : n / 2 ^ i % 2 = 0 := by omega
    simp [h0]

/-- A C string: the bytes in front of its terminating NUL. -/
structure CStr where
  bytes : Bytes
  noNul : ∀ b ∈ bytes, b ≠ 0
deriving DecidableEq

namespace CStr

@[ext] theorem ext {s t : CStr} (h : s.bytes = t.bytes) : s = t := by
  cases s
  cases t
  simp only at h
  subst h
  rfl

/-- The C string found at the start of a buffer. -/
def ofBuffer (buf : Bytes) : CStr where
  bytes := buf.takeWhile (fun b => b != 0)
  noNul := by
    intro b hb
    have h := List.mem_takeWhile_imp hb
    simpa using h

def ofString (s : String) : CStr :=
  ofBuffer (ascii s)

def strlen (s : CStr) : Nat :=
  s.bytes.length

/-- Reading a buffer back that holds a C string gives that string. -/
@[simp] theorem ofBuffer_bytes (s : CStr) : ofBuffer s.bytes = s := by
  apply CStr.ext
  have h : ∀ b ∈ s.bytes, (b != 0) = true := by
    intro b hb
    simpa using s.noNul b hb
  exact List.takeWhile_eq_self_iff.mpr h

instance : Inhabited CStr :=
  ⟨⟨[], by simp⟩⟩

end CStr

end SmartDns
