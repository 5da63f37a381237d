import SmartDns.Lib.Framing

/-!
# Checksums of the ping packets

`_fast_ping_checksum` adds the words of a packet and folds the carries into the sum once.
That fold can carry again, and then the packet does not verify.
-/

namespace SmartDns.Ping

open Framing

/-- The sum of the words of a packet. -/
def wordSum : Bytes → Nat
  | hi :: lo :: rest => ntohs hi lo + wordSum rest
  | _ => 0

/-- `_fast_ping_checksum`: the sum has 32 bits, and the result is cut to 16. -/
def fastPingChecksum (header : Bytes) : Bytes :=
  let sum := wordSum header % 2 ^ 32
  lengthPrefix (2 ^ 16 - 1 - (sum / 2 ^ 16 + sum % 2 ^ 16) % 2 ^ 16)

/-- One's-complement addition: a carry goes in at the other end. -/
def onesAdd (a b : Nat) : Nat :=
  if a + b < 2 ^ 16 then a + b else a + b - (2 ^ 16 - 1)

/-- The sum that a receiver checks. -/
def onesSum : Bytes → Nat
  | hi :: lo :: rest => onesAdd (ntohs hi lo) (onesSum rest)
  | _ => 0

theorem ntohs_lt (hi lo : UInt8) : ntohs hi lo < 2 ^ 16 := by
  have hhi := hi.toNat_lt
  have hlo := lo.toNat_lt
  rw [ntohs]
  omega

theorem wordSum_append {front : Bytes} (h : front.length % 2 = 0) (rest : Bytes) :
    wordSum (front ++ rest) = wordSum front + wordSum rest := by
  fun_induction wordSum front with
  | case1 hi lo front ih =>
    simp only [List.length_cons] at h
    rw [List.cons_append, List.cons_append, wordSum, ih (by omega), Nat.add_assoc]
  | case2 front hshort =>
    rcases front with _ | ⟨hi, _ | ⟨lo, front⟩⟩
    · rw [List.nil_append, Nat.zero_add]
    · simp at h
    · exact absurd rfl (hshort hi lo front)

theorem wordSum_le (bytes : Bytes) : 2 * wordSum bytes ≤ 65535 * bytes.length := by
  fun_induction wordSum bytes with
  | case1 hi lo rest ih =>
    have := ntohs_lt hi lo
    simp only [List.length_cons]
    omega
  | case2 => exact Nat.zero_le _

/-- The two sums agree up to multiples of `0xFFFF`, and only zeros add up to zero. -/
theorem onesSum_spec (bytes : Bytes) :
    onesSum bytes < 2 ^ 16 ∧ onesSum bytes % 65535 = wordSum bytes % 65535 ∧
      (onesSum bytes = 0 → wordSum bytes = 0) := by
  fun_induction wordSum bytes with
  | case1 hi lo rest ih =>
    have := ntohs_lt hi lo
    rw [onesSum, onesAdd]
    split
    · omega
    · omega
  | case2 bytes hshort =>
    rw [onesSum.eq_def]
    split
    · exact absurd rfl (hshort _ _ _)
    · exact ⟨by decide, rfl, fun _ => rfl⟩

/-- **A packet with its checksum stored verifies exactly when the two halves of the sum of
its words add up without a carry.** -/
theorem checksum_verifies_iff {front tail : Bytes} (hfront : front.length % 2 = 0)
    (hsize : (front ++ [0, 0] ++ tail).length ≤ 4096) :
    onesSum (front ++ fastPingChecksum (front ++ [0, 0] ++ tail) ++ tail) = 0xFFFF ↔
      wordSum (front ++ [0, 0] ++ tail) / 2 ^ 16 + wordSum (front ++ [0, 0] ++ tail) % 2 ^ 16 <
        2 ^ 16 := by
  have hle := wordSum_le (front ++ [0, 0] ++ tail)
  have hpacket : wordSum (front ++ [0, 0] ++ tail) = wordSum front + wordSum tail := by
    rw [List.append_assoc, wordSum_append hfront]
    exact congrArg (wordSum front + ·) (Nat.zero_add _)
  have hsmall : wordSum (front ++ [0, 0] ++ tail) % 2 ^ 32 = wordSum (front ++ [0, 0] ++ tail) :=
    Nat.mod_eq_of_lt (by omega)
  rw [fastPingChecksum, hsmall]
  generalize wordSum (front ++ [0, 0] ++ tail) = sum at hle hpacket ⊢
  have hcheck : 2 ^ 16 - 1 - (sum / 2 ^ 16 + sum % 2 ^ 16) % 2 ^ 16 +
      (sum / 2 ^ 16 + sum % 2 ^ 16) % 2 ^ 16 = 65535 := by omega
  generalize 2 ^ 16 - 1 - (sum / 2 ^ 16 + sum % 2 ^ 16) % 2 ^ 16 = check at hcheck ⊢
  have hstored : wordSum (front ++ lengthPrefix check ++ tail) = sum + check := by
    rw [List.append_assoc, wordSum_append hfront, hpacket, Nat.add_assoc, Nat.add_comm _ check]
    have hword : ntohs (UInt8.ofNat (check / 256)) (UInt8.ofNat check) = check :=
      ntohs_lengthPrefix (by omega)
    exact congrArg (fun word => wordSum front + (word + wordSum tail)) hword
  obtain ⟨hlt, hmod, hzero⟩ := onesSum_spec (front ++ lengthPrefix check ++ tail)
  rw [hstored] at hmod hzero
  have hhalf : sum / 2 ^ 16 < 2048 := by omega
  by_cases hcarry : sum / 2 ^ 16 + sum % 2 ^ 16 < 2 ^ 16
  · rw [Nat.mod_eq_of_lt hcarry] at hcheck
    omega
  · omega

theorem checksum_verifies_iff_echo :
    onesSum ([8, 0] ++ fastPingChecksum ([8, 0] ++ [0, 0] ++ [0, 1]) ++ [0, 1]) = 0xFFFF ↔
      wordSum ([8, 0] ++ [0, 0] ++ [0, 1]) / 2 ^ 16 +
        wordSum ([8, 0] ++ [0, 0] ++ [0, 1]) % 2 ^ 16 < 2 ^ 16 :=
  checksum_verifies_iff rfl (by decide)

/-- The words `0xFFFF`, `0xFFFF` and `1` carry twice. -/
theorem second_carry_lost :
    onesSum (fastPingChecksum [0, 0, 0xFF, 0xFF, 0xFF, 0xFF, 0, 1] ++
      [0xFF, 0xFF, 0xFF, 0xFF, 0, 1]) ≠ 0xFFFF := by
  decide

end SmartDns.Ping
