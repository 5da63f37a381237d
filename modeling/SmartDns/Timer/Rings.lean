import SmartDns.Timer.Wheel

/-!
# Timers in the rings

The clock of the wheel and the times of expiry are words of 64 bits; they read times
that are natural numbers.  A pending timer stands in one list of one ring, and is
parked there: the list is moved down, or in the first ring emptied, at the right
time.  Every step on another timer leaves it there, and a tick that reaches its
list puts it where it is parked again, until the tick of its deadline takes it to
the work list.
-/

namespace SmartDns.Timer

open Level List

variable {word : UInt64} {i time : Nat} {level : Level}

/-! ## Words and times -/

namespace Level

/-- The ticks that a list of the ring stands for. -/
def unit : Level → Nat
  | tv1 => 1
  | tv2 => 2 ^ 10
  | tv3 => 2 ^ 16
  | tv4 => 2 ^ 22
  | tv5 => 2 ^ 28

/-- `TVR_SIZE` and `TVN_SIZE`. -/
def width : Level → Nat
  | tv1 => 1024
  | _ => 64

theorem unit_pos (level : Level) : 0 < level.unit := by
  cases level <;> decide

/-- The list of a time. -/
abbrev slot (level : Level) (time : Nat) : Nat :=
  Wheel.slot level.unit level.width time

abbrev due (level : Level) (deadline : Nat) : Nat :=
  Wheel.due level.unit deadline

abbrev Parked (level : Level) (clock deadline : Nat) : Prop :=
  Wheel.Parked level.unit level.width clock deadline

end Level

/-- The word is the time, as far as 64 bits go. -/
def Reads (word : UInt64) (time : Nat) : Prop :=
  word.toNat = time % 2 ^ 64

theorem index_toNat (level : Level) (word : UInt64) : level.index word = level.slot word.toNat := by
  have hmask : ∀ a : Nat, a &&& 1023 = a % 1024 := fun a => Nat.and_two_pow_sub_one_eq_mod a 10
  have hmask' : ∀ a : Nat, a &&& 63 = a % 64 := fun a => Nat.and_two_pow_sub_one_eq_mod a 6
  cases level <;>
    simp [index, slot, Wheel.slot, shift, mask, unit, width,
      UInt64.toNat_and, UInt64.toNat_shiftRight, Nat.shiftRight_eq_div_pow, hmask, hmask']

theorem Reads.index (h : Reads word time) (level : Level) : level.index word = level.slot time := by
  rw [index_toNat, h]
  cases level <;> simp only [slot, Wheel.slot, unit, width] <;> omega

theorem Reads.succ (h : Reads word time) : Reads (word + 1) (time + 1) := by
  rw [Reads, UInt64.toNat_add, h]
  simp

/-- **Where a timer is put.**  It is parked, and above the first ring its list is not the
one that is to be moved down now. -/
theorem twSlot_parked
    {jiffies expires : UInt64} {clock deadline : Nat} (hjiffies : Reads jiffies clock)
    (hexpires : Reads expires deadline) (hle : clock ≤ deadline) (hlt : deadline < clock + 2 ^ 34) :
    ∃ level : Level, twSlot jiffies expires = (level, level.slot deadline) ∧
      level.Parked clock deadline ∧ (level ≠ .tv1 → clock < level.due deadline) := by
  have hidx : (expires - jiffies).toNat = deadline - clock := by
    rw [UInt64.toNat_sub, hexpires, hjiffies]
    omega
  have hpast : ¬ 2 ^ 63 ≤ deadline - clock := by omega
  have hmax : ¬ maxTval < expires - jiffies := by
    rw [UInt64.lt_iff_toNat_lt, hidx]
    have : maxTval.toNat = 2 ^ 34 - 1 := by decide
    omega
  have hwithin : ∀ level : Level, clock + level.unit ≤ deadline →
      deadline < clock + level.width * level.unit →
      level.Parked clock deadline ∧ clock < level.due deadline :=
    fun level => Wheel.parked_of_within level.unit_pos
  simp only [twSlot, hidx, hpast, hmax, if_false, hexpires.index]
  split
  · refine ⟨.tv1, rfl, ⟨?_, ?_⟩, fun h => absurd rfl h⟩ <;>
      simp only [Wheel.due, unit, width] <;> omega
  split
  · obtain ⟨hparked, hdue⟩ := hwithin .tv2 (by simp only [unit]; omega)
      (by simp only [unit, width]; omega)
    exact ⟨.tv2, rfl, hparked, fun _ => hdue⟩
  split
  · obtain ⟨hparked, hdue⟩ := hwithin .tv3 (by simp only [unit]; omega)
      (by simp only [unit, width]; omega)
    exact ⟨.tv3, rfl, hparked, fun _ => hdue⟩
  split
  · obtain ⟨hparked, hdue⟩ := hwithin .tv4 (by simp only [unit]; omega)
      (by simp only [unit, width]; omega)
    exact ⟨.tv4, rfl, hparked, fun _ => hdue⟩
  obtain ⟨hparked, hdue⟩ := hwithin .tv5 (by simp only [unit]; omega)
    (by simp only [unit, width]; omega)
  exact ⟨.tv5, rfl, hparked, fun _ => hdue⟩

/-! ## Where a timer stands -/

namespace TwBase

/-- The timer stands once in this list, and in no other. -/
def Stands (b : TwBase) (t : Nat) (level : Level) (i : Nat) : Prop :=
  ∀ l j, (b.vec l j).count t = if (l, j) = (level, i) then 1 else 0

/-- The timer stands in no list. -/
structure Loose (b : TwBase) (t : Nat) : Prop where
  vec : ∀ l i, t ∉ b.vec l i
  workList : t ∉ b.workList

/-- Nothing has changed for the timer. -/
structure SameFor (t : Nat) (b b' : TwBase) : Prop where
  jiffies : b'.jiffies = b.jiffies
  timer : b'.timers t = b.timers t
  vec : ∀ l i, (b'.vec l i).count t = (b.vec l i).count t
  workList : b'.workList.count t = b.workList.count t

section SameFor

variable {b b' b'' : TwBase} {t x : Nat}

theorem SameFor.refl (t : Nat) (b : TwBase) : SameFor t b b :=
  ⟨rfl, rfl, fun _ _ => rfl, rfl⟩

theorem SameFor.trans (h : SameFor t b b') (h' : SameFor t b' b'') : SameFor t b b'' :=
  ⟨h'.jiffies.trans h.jiffies, h'.timer.trans h.timer,
    fun l i => (h'.vec l i).trans (h.vec l i), h'.workList.trans h.workList⟩

theorem SameFor.stands (h : SameFor t b b') (hb : b.Stands t level i) : b'.Stands t level i :=
  fun l j => (h.vec l j).trans (hb l j)

theorem SameFor.loose (h : SameFor t b b') (hb : b.Loose t) : b'.Loose t := by
  constructor
  · intro l i
    rw [← count_eq_zero, h.vec, count_eq_zero]
    exact hb.vec l i
  · rw [← count_eq_zero, h.workList, count_eq_zero]
    exact hb.workList

variable (b : TwBase)

variable (hx : t ≠ x)
include hx

theorem sameFor_setTimer (timer : TwTimer) : SameFor t b (b.setTimer x timer) :=
  ⟨rfl, Function.update_of_ne hx _ _, fun _ _ => rfl, rfl⟩

theorem sameFor_enqueue : SameFor t b (b.enqueue x) := by
  refine ⟨rfl, rfl, ?_, rfl⟩
  intro l i
  simp only [enqueue, setVec]
  split
  next heq =>
    obtain ⟨rfl, rfl⟩ := Prod.mk.inj heq
    simp [count_append, Ne.symm hx]
  · rfl

theorem sameFor_twAddTimerAt : SameFor t b (b.twAddTimerAt x) :=
  (sameFor_enqueue b hx).trans (sameFor_setTimer _ hx _)

theorem sameFor_twDetachTimer : SameFor t b (b.twDetachTimer x) := by
  refine ⟨rfl, Function.update_of_ne hx _ _, ?_, ?_⟩
  · intro l i
    exact count_filter (by simpa using hx)
  · exact count_filter (by simpa using hx)

theorem sameFor_twAddTimer : SameFor t b (b.twAddTimer x) := by
  simp only [twAddTimer]
  split
  · exact (sameFor_setTimer b hx _).trans (sameFor_twAddTimerAt _ hx)
  · exact SameFor.refl t b

theorem sameFor_twDelTimer : SameFor t b (b.twDelTimer x) := by
  simp only [twDelTimer]
  split
  · exact sameFor_twDetachTimer b hx
  · exact SameFor.refl t b

theorem sameFor_twModTimerPending (delay : UInt64) : SameFor t b (b.twModTimerPending x delay) := by
  simp only [twModTimerPending]
  have hset := sameFor_setTimer b hx { b.timers x with expires := delay + b.jiffies - 1 }
  split
  · exact hset.trans ((sameFor_twDetachTimer _ hx).trans (sameFor_twAddTimerAt _ hx))
  · exact hset

end SameFor

/-! ## Moving timers down -/

section Cascade

variable (b : TwBase)

/-- Timers that are put into the wheel one after the other, list by list. -/
theorem foldl_enqueue (timers : List Nat) :
    (timers.foldl enqueue b).jiffies = b.jiffies ∧ (timers.foldl enqueue b).timers = b.timers ∧
      (timers.foldl enqueue b).workList = b.workList ∧
      ∀ l i, (timers.foldl enqueue b).vec l i =
        b.vec l i ++ timers.filter (fun t => (l, i) = b.slotOf t) := by
  induction timers generalizing b with
  | nil => simp
  | cons t timers ih =>
  obtain ⟨hjiffies, htimers, hwork, hvec⟩ := ih (b.enqueue t)
  refine ⟨hjiffies, htimers, hwork, ?_⟩
  intro l i
  have hslot : (b.enqueue t).slotOf = b.slotOf := rfl
  rw [foldl_cons, hvec, hslot, filter_cons]
  simp only [enqueue, setVec, Prod.mk.eta, decide_eq_true_eq]
  split
  next heq =>
    rw [← heq]
    simp
  · rfl

theorem twCascade_fields (level : Level) (i : Nat) :
    (b.twCascade level i).jiffies = b.jiffies ∧ (b.twCascade level i).timers = b.timers ∧
      (b.twCascade level i).workList = b.workList := by
  obtain ⟨hjiffies, htimers, hwork, -⟩ := foldl_enqueue (b.setVec level i []) (b.vec level i)
  exact ⟨hjiffies, htimers, hwork⟩

theorem twCascade_vec (level : Level) (i : Nat) (l : Level) (j : Nat) :
    (b.twCascade level i).vec l j = (if (l, j) = (level, i) then [] else b.vec l j) ++
        (b.vec level i).filter (fun t => (l, j) = b.slotOf t) :=
  (foldl_enqueue (b.setVec level i []) (b.vec level i)).2.2.2 l j

variable {b}
variable {t : Nat}

theorem Stands.twCascade_of_ne
    (h : b.Stands t level i) {level' : Level} {i' : Nat} (hne : (level', i') ≠ (level, i)) :
    (b.twCascade level' i').Stands t level i := by
  intro l j
  have hempty : (b.vec level' i').count t = 0 := by rw [h, if_neg hne]
  have hfilter : ((b.vec level' i').filter (fun t => (l, j) = b.slotOf t)).count t = 0 :=
    Nat.le_zero.mp (hempty ▸ filter_sublist.count_le t)
  rw [twCascade_vec, count_append, hfilter, ← h l j]
  split
  next heq =>
    obtain ⟨rfl, rfl⟩ := Prod.mk.inj heq
    simp [hempty]
  · rfl

theorem Stands.twCascade_self (h : b.Stands t level i) :
    (b.twCascade level i).Stands t (b.slotOf t).1 (b.slotOf t).2 := by
  intro l j
  have hone : (b.vec level i).count t = 1 := by rw [h, if_pos rfl]
  rw [twCascade_vec, count_append, Prod.mk.eta]
  have hold : (if (l, j) = (level, i) then ([] : List Nat) else b.vec l j).count t = 0 := by
    split
    · rfl
    next hne => rw [h, if_neg hne]
  rw [hold, Nat.zero_add]
  split
  next heq => rw [count_filter (by simpa using heq), hone]
  rename_i hne
  rw [count_eq_zero]
  intro hmem
  exact hne (by simpa using (mem_filter.mp hmem).2)

theorem Loose.twCascade (h : b.Loose t) (level : Level) (i : Nat) :
    (b.twCascade level i).Loose t := by
  constructor
  · intro l j
    rw [twCascade_vec]
    intro hmem
    rcases mem_append.mp hmem with hold | hmoved
    · split at hold
      · cases hold
      · exact h.vec l j hold
    · exact h.vec level i (mem_filter.mp hmoved).1
  · rw [(twCascade_fields b level i).2.2]
    exact h.workList

end Cascade

/-! ## Ticks -/

/-- The timer waits in the wheel for its deadline.  The lists of the rings `done` have
been moved down at this time already. -/
structure Waits (b : TwBase) (t clock deadline : Nat) (done : List Level) : Prop where
  jiffies : Reads b.jiffies clock
  pending : (b.timers t).pending = true
  expires : Reads (b.timers t).expires deadline
  near : deadline < clock + 2 ^ 34
  place : ∃ level : Level, b.Stands t level (level.slot deadline) ∧
    level.Parked clock deadline ∧ (level ∈ done → clock < level.due deadline)
  workList : t ∉ b.workList

section Ticks

variable {b b' : TwBase} {t clock deadline : Nat} {done : List Level}

theorem SameFor.waits (h : SameFor t b b') (hb : b.Waits t clock deadline done) :
    b'.Waits t clock deadline done where
  jiffies := h.jiffies ▸ hb.jiffies
  pending := h.timer ▸ hb.pending
  expires := h.timer ▸ hb.expires
  near := hb.near
  place := by
    obtain ⟨level, hstands, hrest⟩ := hb.place
    exact ⟨level, h.stands hstands, hrest⟩
  workList := by
    rw [← count_eq_zero, h.workList, count_eq_zero]
    exact hb.workList

theorem Waits.le (h : b.Waits t clock deadline done) : clock ≤ deadline := by
  obtain ⟨level, -, hparked, -⟩ := h.place
  exact hparked.not_past.trans (Wheel.due_le _ _)

theorem Waits.twCascade
    (h : b.Waits t clock deadline done) (hclock : level.unit ∣ clock) (hdone : .tv1 ∉ done)
    (hlevel : level ≠ .tv1) :
    (b.twCascade level (level.slot clock)).Waits t clock deadline (level :: done) := by
  obtain ⟨hjiffies, htimers, hwork⟩ := twCascade_fields b level (level.slot clock)
  refine ⟨hjiffies ▸ h.jiffies, htimers ▸ h.pending, htimers ▸ h.expires, h.near, ?_,
    hwork ▸ h.workList⟩
  obtain ⟨level', hstands, hparked, hcleared⟩ := h.place
  by_cases hhere : (level, level.slot clock) = (level', level'.slot deadline)
  · -- its list is the one: it is put where its remaining time belongs
    obtain ⟨rfl, hslot⟩ := Prod.mk.inj hhere
    obtain ⟨level'', hput, hparked'', hdue⟩ :=
      twSlot_parked h.jiffies h.expires h.le h.near
    rw [hslot]
    have hmoved := hstands.twCascade_self
    rw [slotOf, hput] at hmoved
    refine ⟨level'', hmoved, hparked'', ?_⟩
    intro hmem
    refine hdue ?_
    rintro rfl
    rcases mem_cons.mp hmem with heq | hmem
    · exact hlevel heq.symm
    · exact hdone hmem
  · refine ⟨level', hstands.twCascade_of_ne hhere, hparked, ?_⟩
    intro hmem
    rcases mem_cons.mp hmem with rfl | hmem
    · refine lt_of_le_of_ne hparked.not_past ?_
      intro heq
      exact hhere (Prod.ext rfl (Wheel.slot_of_due level'.unit_pos _ heq))
    · exact hcleared hmem

theorem unit_dvd_iff (clock : Nat) :
    (tv2.unit ∣ clock ↔ tv1.slot clock = 0) ∧
      (tv3.unit ∣ clock ↔ tv1.slot clock = 0 ∧ tv2.slot clock = 0) ∧
      (tv4.unit ∣ clock ↔ tv1.slot clock = 0 ∧ tv2.slot clock = 0 ∧ tv3.slot clock = 0) ∧
      (tv5.unit ∣ clock ↔ tv1.slot clock = 0 ∧ tv2.slot clock = 0 ∧
        tv3.slot clock = 0 ∧ tv4.slot clock = 0) := by
  simp only [slot, Wheel.slot, unit, width]
  refine ⟨?_, ?_, ?_, ?_⟩ <;> omega

theorem Waits.cascades (h : b.Waits t clock deadline []) :
    ∃ done : List Level, b.cascades.Waits t clock deadline done ∧
      ∀ level : Level, level ≠ .tv1 → level ∉ done → ¬ level.unit ∣ clock := by
  have hindex := h.jiffies.index
  obtain ⟨h2, h3, h4, h5⟩ := unit_dvd_iff clock
  simp only [TwBase.cascades, hindex]
  by_cases hz1 : tv1.slot clock = 0
  · rw [if_pos hz1]
    have hw2 := h.twCascade (h2.mpr hz1) (by simp) (by simp)
    by_cases hz2 : tv2.slot clock = 0
    · rw [if_pos hz2]
      have hw3 := hw2.twCascade (h3.mpr ⟨hz1, hz2⟩) (by simp) (by simp)
      by_cases hz3 : tv3.slot clock = 0
      · rw [if_pos hz3]
        have hw4 := hw3.twCascade (h4.mpr ⟨hz1, hz2, hz3⟩) (by simp) (by simp)
        by_cases hz4 : tv4.slot clock = 0
        · rw [if_pos hz4]
          refine ⟨_, hw4.twCascade (h5.mpr ⟨hz1, hz2, hz3, hz4⟩) (by simp) (by simp), ?_⟩
          intro level
          cases level <;> simp
        rw [if_neg hz4]
        refine ⟨_, hw4, ?_⟩
        intro level
        cases level <;> simp [h5, hz4]
      · rw [if_neg hz3]
        refine ⟨_, hw3, ?_⟩
        intro level
        cases level <;> simp [h4, h5, hz3]
    · rw [if_neg hz2]
      refine ⟨_, hw2, ?_⟩
      intro level
      cases level <;> simp [h3, h4, h5, hz2]
  · rw [if_neg hz1]
    refine ⟨_, h, ?_⟩
    intro level
    cases level <;> simp [h2, h3, h4, h5, hz1]

/-- The timer is about to fire: it stands once in the work list and nowhere else. -/
structure Fires (b : TwBase) (t : Nat) : Prop where
  vec : ∀ l i, t ∉ b.vec l i
  workList : b.workList.count t = 1

/-- **A tick.**  A timer whose deadline is this tick comes to the work list, and any other
goes on waiting. -/
theorem Waits.runTimers (h : b.Waits t clock deadline []) :
    (deadline = clock ∧ b.runTimers.Fires t) ∨
      (clock < deadline ∧ b.runTimers.Waits t (clock + 1) deadline []) := by
  obtain ⟨done, hcascades, hdone⟩ := h.cascades
  obtain ⟨level, hstands, hparked, hcleared⟩ := hcascades.place
  have hindex : tv1.index b.jiffies = tv1.slot clock := h.jiffies.index .tv1
  by_cases hnow : level = .tv1 ∧ tv1.slot deadline = tv1.slot clock
  · obtain ⟨rfl, hslot⟩ := hnow
    have hdue := hparked.due_eq tv1.unit_pos (one_dvd clock) hslot
    refine .inl ⟨by simpa [Wheel.due, unit] using hdue, ?_, ?_⟩
    · intro l i
      rw [← count_eq_zero]
      simp only [TwBase.runTimers, setVec, hindex, ← hslot]
      split
      · rfl
      next hne => rw [hstands, if_neg hne]
    · simp only [TwBase.runTimers, hindex, ← hslot]
      rw [hstands, if_pos rfl]
  have hlater : clock < level.due deadline := by
    by_cases hlevel : level = .tv1
    · refine lt_of_le_of_ne hparked.not_past ?_
      intro heq
      exact hnow ⟨hlevel, hlevel ▸ (Wheel.slot_of_due level.unit_pos _ heq).symm⟩
    by_cases hmem : level ∈ done
    · exact hcleared hmem
    · exact hparked.lt_due (hdone level hlevel hmem)
  have hother : (level, level.slot deadline) ≠ (tv1, tv1.slot clock) := by
    intro heq
    obtain ⟨rfl, hslot⟩ := Prod.mk.inj heq
    exact hnow ⟨rfl, hslot⟩
  refine .inr ⟨hlater.trans_le (Wheel.due_le _ _), ?_⟩
  refine ⟨?_, hcascades.pending, hcascades.expires, by have := h.near; omega,
    ⟨level, ?_, hparked.tick hlater, by simp⟩, ?_⟩
  · exact hcascades.jiffies.succ
  · intro l i
    simp only [TwBase.runTimers, setVec, hindex]
    split
    next heq =>
      rw [heq, if_neg (fun h => hother h.symm)]
      rfl
    · exact hstands l i
  · simp only [TwBase.runTimers, hindex]
    rw [← count_eq_zero, hstands, if_neg (fun h => hother h.symm)]

theorem Loose.runTimers (h : b.Loose t) : b.runTimers.Loose t := by
  have hcascades : b.cascades.Loose t := by
    simp only [TwBase.cascades]
    split
    · split
      · split
        · split
          · exact (((h.twCascade _ _).twCascade _ _).twCascade _ _).twCascade _ _
          · exact ((h.twCascade _ _).twCascade _ _).twCascade _ _
        · exact (h.twCascade _ _).twCascade _ _
      · exact h.twCascade _ _
    · exact h
  constructor
  · intro l i
    simp only [TwBase.runTimers, setVec]
    split
    · simp
    · exact hcascades.vec l i
  · exact hcascades.vec _ _

theorem cascades_timers (b : TwBase) :
    b.cascades.timers = b.timers ∧ b.cascades.jiffies = b.jiffies := by
  have hfields := fun (b : TwBase) level i => twCascade_fields b level i
  simp only [TwBase.cascades]
  split
  · split
    · split
      · split <;> simp [hfields]
      · simp [hfields]
    · simp [hfields]
  · simp

theorem loose_twDetachTimer (b : TwBase) (t : Nat) : (b.twDetachTimer t).Loose t := by
  constructor
  · intro l i
    simp [twDetachTimer]
  · simp [twDetachTimer]

theorem twAddTimerAt_pending (b : TwBase) (t : Nat) :
    ((b.twAddTimerAt t).timers t).pending = true := by
  simp [twAddTimerAt, setTimer]

/-- A timer that is put into the wheel, with its deadline in reach, waits for it. -/
theorem Loose.waits (h : b.Loose t) (hjiffies : Reads b.jiffies clock)
    (hexpires : Reads (b.timers t).expires deadline) (hle : clock ≤ deadline)
    (hnear : deadline < clock + 2 ^ 34) :
    (b.twAddTimerAt t).Waits t clock deadline [] := by
  obtain ⟨level, hput, hparked, -⟩ := twSlot_parked hjiffies hexpires hle hnear
  refine ⟨hjiffies, twAddTimerAt_pending b t, by simpa [twAddTimerAt, setTimer] using hexpires,
    hnear, ⟨level, ?_, hparked, by simp⟩, h.workList⟩
  intro l i
  have hzero : ∀ l i, (b.vec l i).count t = 0 := fun l i => count_eq_zero.mpr (h.vec l i)
  simp only [twAddTimerAt, setTimer, enqueue, setVec, slotOf, hput]
  split
  · simp [hzero]
  · exact hzero l i

end Ticks

end TwBase

end SmartDns.Timer
