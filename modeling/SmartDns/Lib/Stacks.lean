import Mathlib.Tactic

/-!
# Threads with call stacks

Each thread is a stack of frames.  A step pops the frame on top of one stack and
pushes the calls it makes; it may also start new threads.  What the frames hold
in total, counted by a weight on frames, changes by what the popped frame held
and by what the new frames hold.
-/

namespace SmartDns.Stacks

universe u

variable {α : Type u}

def weight (φ : α → Nat) (stack : List α) : Nat :=
  (stack.map φ).sum

@[simp] theorem weight_nil (φ : α → Nat) : weight φ [] = 0 := rfl

@[simp] theorem weight_cons (φ : α → Nat) (f : α) (stack : List α) :
    weight φ (f :: stack) = φ f + weight φ stack := rfl

@[simp] theorem weight_append (φ : α → Nat) (top rest : List α) :
    weight φ (top ++ rest) = weight φ top + weight φ rest := by
  simp [weight]

def total (φ : α → Nat) (threads : List (List α)) : Nat :=
  (threads.map (weight φ)).sum

@[simp] theorem total_nil (φ : α → Nat) : total φ [] = 0 := rfl

@[simp] theorem total_cons (φ : α → Nat) (stack : List α) (threads : List (List α)) :
    total φ (stack :: threads) = weight φ stack + total φ threads := rfl

@[simp] theorem total_append (φ : α → Nat) (threads threads' : List (List α)) :
    total φ (threads ++ threads') = total φ threads + total φ threads' := by
  simp [total]

/-- Replacing one stack changes the total by the difference of the two. -/
theorem total_set (φ : α → Nat) {threads : List (List α)} {t : Nat} {stack : List α}
    (h : threads[t]? = some stack) (stack' : List α) :
    total φ (threads.set t stack') + weight φ stack = total φ threads + weight φ stack' := by
  induction threads generalizing t with
  | nil => cases h
  | cons first threads ih =>
  cases t with
  | zero =>
    obtain rfl : first = stack := by simpa using h
    simp only [List.set_cons_zero, total_cons]
    omega
  | succ t =>
    have hrest := ih (by simpa using h)
    simp only [List.set_cons_succ, total_cons]
    omega

theorem total_eq_zero
    (φ : α → Nat) {threads : List (List α)} (h : ∀ stack ∈ threads, ∀ f ∈ stack, φ f = 0) :
    total φ threads = 0 := by
  refine List.sum_eq_zero ?_
  intro n hn
  obtain ⟨stack, hstack, rfl⟩ := List.mem_map.mp hn
  refine List.sum_eq_zero ?_
  intro m hm
  obtain ⟨f, hf, rfl⟩ := List.mem_map.mp hm
  exact h stack hstack f hf

end SmartDns.Stacks
