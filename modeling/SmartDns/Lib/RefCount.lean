import Mathlib.Algebra.BigOperators.Fin
import Mathlib.Tactic

/-!
# Counted references

A reference count is right when it equals the number of places that hold a
reference.  The account of one object records whether it is allocated, its counter,
the number of places that use it, and the number of parties that have seen the
counter reach zero and are about to free it.
-/

namespace SmartDns

section Account

/--
The account of one object.  While it is allocated the counter is the number of
its uses, and one party is about to free it exactly when nothing uses it.
-/
structure Accounted (live : Prop) (count : ℤ) (uses frees : ℕ) : Prop where
  count_eq : live → count = uses
  frees_eq : live → frees = if uses = 0 then 1 else 0
  dead_uses : ¬ live → uses = 0
  dead_frees : ¬ live → frees = 0

namespace Accounted

variable {live : Prop} {count : ℤ} {uses frees : ℕ}

section

variable (h : Accounted live count uses frees)
include h

theorem live_of_uses (hpos : 0 < uses) : live := by
  by_contra hdead
  have := h.dead_uses hdead
  omega

theorem live_of_frees (hpos : 0 < frees) : live := by
  by_contra hdead
  have := h.dead_frees hdead
  omega

theorem uses_eq_zero (hpos : 0 < frees) : uses = 0 := by
  have hfrees := h.frees_eq (h.live_of_frees hpos)
  by_contra hne
  rw [if_neg hne] at hfrees
  omega

theorem take (hpos : 0 < uses) : Accounted live (count + 1) (uses + 1) frees := by
  have hlive : live := h.live_of_uses hpos
  have hcount := h.count_eq hlive
  have hfrees := h.frees_eq hlive
  rw [if_neg (by omega)] at hfrees
  refine ⟨fun _ => by push_cast; omega, fun _ => ?_, ?_, ?_⟩
  · rw [if_neg (by omega), hfrees]
  · exact fun hdead => absurd hlive hdead
  · exact fun hdead => absurd hlive hdead

end

/-- Dropping a reference; the party that drops the last one will free. -/
theorem drop (h : Accounted live count (uses + 1) frees) :
    Accounted live (count - 1) uses (frees + if count - 1 = 0 then 1 else 0) := by
  have hlive : live := h.live_of_uses (by omega)
  have hcount := h.count_eq hlive
  have hfrees := h.frees_eq hlive
  rw [if_neg (by omega)] at hfrees
  push_cast at hcount
  refine ⟨fun _ => by omega, fun _ => ?_, ?_, ?_⟩
  · by_cases hzero : uses = 0
    · rw [if_pos hzero, if_pos (by omega), hfrees]
    · rw [if_neg hzero, if_neg (by omega), hfrees]
  · exact fun hdead => absurd hlive hdead
  · exact fun hdead => absurd hlive hdead

theorem free (h : Accounted live count uses (frees + 1)) (count' : ℤ) :
    Accounted False count' uses frees := by
  have hlive : live := h.live_of_frees (by omega)
  have huses : uses = 0 := h.uses_eq_zero (by omega)
  have hfrees := h.frees_eq hlive
  rw [if_pos huses] at hfrees
  exact ⟨False.elim, False.elim, fun _ => huses, fun _ => by omega⟩

/-- A fresh object comes with one reference, held by its creator. -/
theorem fresh (h : Accounted live count uses frees) (hdead : ¬ live) :
    Accounted True 1 (uses + 1) frees := by
  have huses := h.dead_uses hdead
  have hfrees := h.dead_frees hdead
  refine ⟨fun _ => by simp [huses], fun _ => ?_, ?_, ?_⟩
  · rw [if_neg (by omega), hfrees]
  · exact fun hno => absurd trivial hno
  · exact fun hno => absurd trivial hno

theorem cast {live' : Prop} {count' : ℤ} {uses' frees' : ℕ}
    (h : Accounted live count uses frees) (hlive : live' ↔ live)
    (hcount : count' = count) (huses : uses' = uses) (hfrees : frees' = frees) :
    Accounted live' count' uses' frees' := by
  subst hcount huses hfrees
  exact ⟨fun hl => h.count_eq (hlive.mp hl), fun hl => h.frees_eq (hlive.mp hl),
    fun hd => h.dead_uses (fun hl => hd (hlive.mpr hl)),
    fun hd => h.dead_frees (fun hl => hd (hlive.mpr hl))⟩

end Accounted

end Account

section Holders

variable {ι : Type*} [DecidableEq ι]

/-- One more at `e`. -/
def oneMore (f : ι → ℕ) (e : ι) : ι → ℕ :=
  fun x => f x + if x = e then 1 else 0

@[simp] theorem oneMore_self (f : ι → ℕ) (e : ι) : oneMore f e e = f e + 1 := by
  simp [oneMore]

@[simp] theorem oneMore_of_ne (f : ι → ℕ) {e x : ι} (h : x ≠ e) : oneMore f e x = f x := by
  simp [oneMore, h]

/-- What the parties other than `t` hold. -/
def heldByOthers {n : ℕ} {α : Type*} (f : α → ℕ) (g : Fin n → α) (t : Fin n) : ℕ :=
  ∑ i ∈ Finset.univ.erase t, f (g i)

theorem sum_eq_heldByOthers {n : ℕ} {α : Type*} (f : α → ℕ) (g : Fin n → α) (t : Fin n) :
    ∑ i, f (g i) = heldByOthers f g t + f (g t) := by
  exact (Finset.sum_erase_add _ _ (Finset.mem_univ t)).symm

@[simp] theorem heldByOthers_update
    {n : ℕ} {α : Type*} (f : α → ℕ) (g : Fin n → α) (t : Fin n) (a : α) :
    heldByOthers f (Function.update g t a) t = heldByOthers f g t := by
  apply Finset.sum_congr rfl
  intro i hi
  rw [Function.update_of_ne (Finset.ne_of_mem_erase hi)]

end Holders

end SmartDns
