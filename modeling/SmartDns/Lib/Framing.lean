import SmartDns.Lib.Bytes

/-!
# Length-prefixed messages

DNS over a stream: every message stands behind its length in two bytes, most
significant first.  A stream that was cut somewhere is a list of whole frames
followed by a piece of the next one, and the frames in front of a cut are
determined by how many bytes stand in front of it.
-/

namespace SmartDns.Framing

open List

/-- `ntohs` on two bytes. -/
def ntohs (hi lo : UInt8) : Nat :=
  hi.toNat * 256 + lo.toNat

/-- `htons` as two bytes. -/
def lengthPrefix (n : Nat) : Bytes :=
  [UInt8.ofNat (n / 256), UInt8.ofNat n]

/-- The length that the first two bytes announce. -/
def announced (bytes : Bytes) : Nat :=
  ntohs (bytes.getD 0 0) (bytes.getD 1 0)

/-- A message behind its length. -/
def frame (message : Bytes) : Bytes :=
  lengthPrefix message.length ++ message

/-- A stream of messages. -/
def frames (messages : List Bytes) : Bytes :=
  messages.flatMap frame

/-- A piece of a stream that does not contain the whole of its first message. -/
def Incomplete (bytes : Bytes) : List Bytes → Prop
  | [] => bytes = []
  | message :: _ => bytes.length < (frame message).length

@[simp] theorem length_lengthPrefix (n : Nat) : (lengthPrefix n).length = 2 := rfl

@[simp] theorem length_frame (message : Bytes) : (frame message).length = message.length + 2 := by
  rw [frame, length_append, length_lengthPrefix, Nat.add_comm]

@[simp] theorem frames_nil : frames [] = [] := rfl

@[simp] theorem frames_cons (message : Bytes) (messages : List Bytes) :
    frames (message :: messages) = frame message ++ frames messages := by
  rw [frames, flatMap_cons, ← frames]

@[simp] theorem frames_append (xs ys : List Bytes) :
    frames (xs ++ ys) = frames xs ++ frames ys := by
  rw [frames, flatMap_append, ← frames, ← frames]

theorem ntohs_lengthPrefix {n : Nat} (h : n < 65536) :
    ntohs (UInt8.ofNat (n / 256)) (UInt8.ofNat n) = n := by
  rw [ntohs, UInt8.toNat_ofNat', UInt8.toNat_ofNat']
  omega

theorem announced_lengthPrefix {n : Nat} (h : n < 65536) (rest : Bytes) :
    announced (lengthPrefix n ++ rest) = n :=
  ntohs_lengthPrefix h

theorem announced_frame {message : Bytes} (h : message.length < 65536) (rest : Bytes) :
    announced (frame message ++ rest) = message.length := by
  rw [frame, append_assoc, announced_lengthPrefix h]

theorem lengthPrefix_ntohs (hi lo : UInt8) : lengthPrefix (ntohs hi lo) = [hi, lo] := by
  have hlo := lo.toNat_lt
  have hdiv : (hi.toNat * 256 + lo.toNat) / 256 = hi.toNat := by omega
  have hmod : UInt8.ofNat (hi.toNat * 256 + lo.toNat) = lo := by
    apply UInt8.toNat_inj.mp
    rw [UInt8.toNat_ofNat']
    omega
  rw [lengthPrefix, ntohs, hdiv, hmod, UInt8.ofNat_toNat]

/-- Bytes that contain as much as they announce start with a frame. -/
theorem eq_frame_append {bytes : Bytes} (htwo : 2 ≤ bytes.length)
    (hlen : announced bytes ≤ bytes.length - 2) :
    bytes = frame ((bytes.drop 2).take (announced bytes)) ++ bytes.drop (2 + announced bytes) := by
  have hbytes : bytes = lengthPrefix (announced bytes) ++ bytes.drop 2 := by
    rw [announced, lengthPrefix_ntohs]
    cases bytes with
    | nil => simp at htwo
    | cons hi bytes =>
      cases bytes with
      | nil => simp at htwo
      | cons lo rest => rfl
  have hmessage : ((bytes.drop 2).take (announced bytes)).length = announced bytes := by
    rw [length_take, length_drop, Nat.min_eq_left hlen]
  rw [frame, hmessage, ← drop_drop, append_assoc, take_append_drop]
  exact hbytes

theorem Incomplete.lt_frames {bytes : Bytes} {xs ys : List Bytes} (h : Incomplete bytes (xs ++ ys))
    (hne : xs ≠ []) : bytes.length < (frames xs).length := by
  cases xs with
  | nil => exact absurd rfl hne
  | cons x xs =>
    rw [frames_cons, length_append]
    exact Nat.lt_of_lt_of_le h (Nat.le_add_right _ _)

/-- Two cuts of one stream after the same number of bytes leave the same frames
in front of them. -/
theorem frames_unique {done₁ todo₁ done₂ todo₂ : List Bytes} {b₁ b₂ : Bytes}
    (hsame : done₁ ++ todo₁ = done₂ ++ todo₂) (h₁ : Incomplete b₁ todo₁) (h₂ : Incomplete b₂ todo₂)
    (hlen : (frames done₁ ++ b₁).length = (frames done₂ ++ b₂).length) :
    done₁ = done₂ ∧ todo₁ = todo₂ := by
  induction done₁ generalizing done₂ with
  | nil =>
    cases done₂ with
    | nil => exact ⟨rfl, hsame⟩
    | cons message done₂ =>
      rw [nil_append] at hsame
      subst hsame
      simp only [frames_nil, nil_append, frames_cons, length_append] at hlen
      simp only [cons_append, Incomplete] at h₁
      omega
  | cons message done₁ ih =>
  cases done₂ with
  | nil =>
    rw [nil_append] at hsame
    subst hsame
    simp only [frames_nil, nil_append, frames_cons, length_append] at hlen
    simp only [cons_append, Incomplete] at h₂
    omega
  | cons message' done₂ =>
  simp only [cons_append, List.cons.injEq] at hsame
  obtain ⟨rfl, hsame⟩ := hsame
  have hrest : (frames done₁ ++ b₁).length = (frames done₂ ++ b₂).length := by
    simp only [frames_cons, length_append] at hlen ⊢
    omega
  obtain ⟨rfl, rfl⟩ := ih hsame hrest
  exact ⟨rfl, rfl⟩

end SmartDns.Framing
