import Mathlib.Tactic

/-!
# Slots of a timing wheel

A ring of `width` slots, each `unit` ticks wide, is emptied slot by slot: at every
multiple of `unit` the slot of that time.  A deadline is filed under its own slot.
It is parked in the ring when the time at which its slot is emptied next is the
time at which the deadline's stretch of `unit` ticks begins.
-/

namespace SmartDns.Wheel

variable {unit width clock deadline : Nat}

/-- The time at which the slot of a deadline is emptied for it. -/
def due (unit deadline : Nat) : Nat :=
  deadline / unit * unit

/-- The slot of a time in the ring. -/
def slot (unit width time : Nat) : Nat :=
  time / unit % width

/-- The slot of the deadline is emptied for it within one turn of the ring. -/
structure Parked (unit width clock deadline : Nat) : Prop where
  not_past : clock ≤ due unit deadline
  one_turn : due unit deadline < clock + width * unit

theorem due_le (unit deadline : Nat) : due unit deadline ≤ deadline :=
  Nat.div_mul_le_self deadline unit

theorem lt_due_add (hunit : 0 < unit) : deadline < due unit deadline + unit := by
  have hsplit : deadline % unit + deadline / unit * unit = deadline := by
    rw [Nat.mul_comm]
    exact Nat.mod_add_div deadline unit
  have hrest := Nat.mod_lt deadline hunit
  rw [due]
  omega

/-- A deadline that is at least a slot and less than a turn away is parked, and its slot
is not the one to be emptied now. -/
theorem parked_of_within (hunit : 0 < unit) (hlow : clock + unit ≤ deadline)
    (hhigh : deadline < clock + width * unit) :
    Parked unit width clock deadline ∧ clock < due unit deadline := by
  have hle := due_le unit deadline
  have hlt : deadline < due unit deadline + unit := lt_due_add hunit
  exact ⟨⟨by omega, by omega⟩, by omega⟩

/-- The slot that is emptied now holds the deadlines of this stretch and no others. -/
theorem Parked.due_eq
    (h : Parked unit width clock deadline) (hunit : 0 < unit) (hclock : unit ∣ clock)
    (hslot : slot unit width deadline = slot unit width clock) :
    due unit deadline = clock := by
  obtain ⟨time, rfl⟩ := hclock
  obtain ⟨hpast, hturn⟩ := h
  rw [slot, slot, Nat.mul_div_cancel_left time hunit] at hslot
  have hdue : due unit deadline = unit * (deadline / unit) := Nat.mul_comm _ _
  rw [hdue] at hpast hturn ⊢
  have hlow : time ≤ deadline / unit := Nat.le_of_mul_le_mul_left hpast hunit
  have hhigh : deadline / unit < time + width := by
    rw [Nat.mul_comm width unit, ← Nat.mul_add] at hturn
    exact Nat.lt_of_mul_lt_mul_left hturn
  have hmod : (deadline / unit - time) % width = 0 := Nat.sub_mod_eq_zero_of_mod_eq hslot
  rw [Nat.mod_eq_of_lt (by omega)] at hmod
  have hturns : deadline / unit = time := by omega
  rw [hturns]

/-- A deadline whose time to be emptied is now stands in the slot of now. -/
theorem slot_of_due (hunit : 0 < unit) (width : Nat) (h : clock = due unit deadline) :
    slot unit width clock = slot unit width deadline := by
  rw [slot, slot, h, due, Nat.mul_div_cancel _ hunit]

theorem Parked.tick (h : Parked unit width clock deadline) (hkept : clock < due unit deadline) :
    Parked unit width (clock + 1) deadline :=
  ⟨hkept, by have := h.one_turn; omega⟩

theorem Parked.lt_due (h : Parked unit width clock deadline) (hclock : ¬ unit ∣ clock) :
    clock < due unit deadline := by
  refine lt_of_le_of_ne h.not_past ?_
  rintro rfl
  exact hclock (Nat.dvd_mul_left unit _)

end SmartDns.Wheel
