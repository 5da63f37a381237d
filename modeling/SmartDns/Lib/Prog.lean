import Mathlib.Tactic

/-!
# Fallible stateful programs

A program runs on a state.  It returns a value and the new state, or it fails
and leaves a state behind, as a C function does that returns `-1` after it
wrote something, or it meets a fault, after which nothing is promised.

`wp` is the weakest precondition with one postcondition for a return and one
for a failure.  No precondition allows a fault, so `wp` of anything says that
the program meets none.
-/

namespace SmartDns

variable {n : Nat} {a : Unit}

inductive Outcome (ε σ α : Type) where
  | done (value : α) (state : σ)
  | failed (state : σ)
  | fault (reason : ε)
deriving DecidableEq, Repr

/-- The program has returned. -/
def Outcome.isDone {ε σ α : Type} : Outcome ε σ α → Bool
  | .done _ _ => true
  | _ => false

theorem Outcome.eq_done_of_isDone {ε σ α : Type} {o : Outcome ε σ α} (h : o.isDone = true) :
    ∃ a s, o = .done a s := by
  cases o with
  | done a s => exact ⟨a, s, rfl⟩
  | failed s => cases h
  | fault e => cases h

/-- A program with faults in `ε`, on states in `σ`, that returns an `α`. -/
def Prog (ε σ α : Type) : Type :=
  σ → Outcome ε σ α

namespace Prog

variable {ε σ τ α β : Type}

instance : Monad (Prog ε σ) where
  pure a := fun s => .done a s
  bind m f := fun s =>
    match m s with
    | .done a t => f a t
    | .failed t => .failed t
    | .fault e => .fault e

/-- Stop with a failure. -/
def fail : Prog ε σ α :=
  fun s => .failed s

/-- Stop with a fault. -/
def abort (e : ε) : Prog ε σ α :=
  fun _ => .fault e

def get : Prog ε σ σ :=
  fun s => .done s s

/-- Change the state. -/
def modify (f : σ → σ) : Prog ε σ Unit :=
  fun s => .done () (f s)

/-- Fail when the state has a property. -/
def failWhen (p : σ → Prop) [DecidablePred p] : Prog ε σ Unit :=
  fun s => if p s then .failed s else .done () s

/-- The value of an option; a missing value is a fault. -/
def orAbort (e : ε) : Option α → Prog ε σ α
  | some a => pure a
  | none => abort e

/-- Run a program and go on after its failure. -/
def attempt (m : Prog ε σ α) : Prog ε σ (Option α) := fun s =>
  match m s with
  | .done a t => .done (some a) t
  | .failed t => .done none t
  | .fault e => .fault e

/-- Run a program on a part of the state. -/
def zoom (view : σ → τ) (put : σ → τ → σ) (m : Prog ε τ α) : Prog ε σ α := fun s =>
  match m (view s) with
  | .done a t => .done a (put s t)
  | .failed t => .failed (put s t)
  | .fault e => .fault e

/-- Run a program on a state of its own, and return that state with the value. -/
def aside (t : τ) (m : Prog ε τ α) : Prog ε σ (α × τ) := fun s =>
  match m t with
  | .done a u => .done (a, u) s
  | .failed _ => .failed s
  | .fault e => .fault e

/-- Run a program a number of times and collect what it returns. -/
def collect (m : Prog ε σ α) : Nat → Prog ε σ (List α)
  | 0 => pure []
  | n + 1 => do
      let a ← m
      let rest ← collect m n
      pure (a :: rest)

/-- Run one program for each element of a list. -/
def forEach (f : β → Prog ε σ Unit) : List β → Prog ε σ Unit
  | [] => pure ()
  | b :: rest => do
      f b
      forEach f rest

/-- `while (cond) body`.  The loop has a number of rounds; to need more of them
is the fault `e`. -/
def loop (e : ε) (cond : σ → Prop) [DecidablePred cond] (body : Prog ε σ Unit) :
    Nat → Prog ε σ Unit
  | 0 => fun s => if cond s then .fault e else .done () s
  | n + 1 => fun s => if cond s then (do body; loop e cond body n : Prog ε σ Unit) s else .done () s

/-- Weakest precondition: a return meets `Q`, a failure meets `E`, and there is
no fault. -/
def wp (m : Prog ε σ α) (Q : α → σ → Prop) (E : σ → Prop) (s : σ) : Prop :=
  match m s with
  | .done a t => Q a t
  | .failed t => E t
  | .fault _ => False

section Rules

variable {Q Q' : α → σ → Prop} {E E' : σ → Prop} {s t : σ} {m : Prog ε σ α} {a : α}

theorem wp_mono (h : wp m Q E s) (hQ : ∀ a t, Q a t → Q' a t) (hE : ∀ t, E t → E' t) :
    wp m Q' E' s := by
  simp only [wp] at h ⊢
  cases hm : m s with
  | done a t =>
    rw [hm] at h
    exact hQ a t h
  | failed t =>
    rw [hm] at h
    exact hE t h
  | fault e =>
    rw [hm] at h
    exact h

/-- Only the postcondition is weakened. -/
theorem wp_post (h : wp m Q E s) (hQ : ∀ a t, Q a t → Q' a t) : wp m Q' E s :=
  wp_mono h hQ fun _ h => h

theorem wp_and (h : wp m Q E s) (h' : wp m Q' E' s) :
    wp m (fun a t => Q a t ∧ Q' a t) (fun t => E t ∧ E' t) s := by
  simp only [wp] at h h' ⊢
  cases hm : m s with
  | done | failed =>
    rw [hm] at h h'
    exact ⟨h, h'⟩
  | fault e =>
    rw [hm] at h
    exact h

theorem wp.post (h : wp m Q E s) (hm : m s = .done a t) : Q a t := by
  simpa only [wp, hm] using h

theorem wp.returns (h : wp m Q (fun _ => False) s) : ∃ a t, m s = .done a t ∧ Q a t := by
  simp only [wp] at h
  cases hm : m s with
  | done a t =>
    rw [hm] at h
    exact ⟨a, t, rfl, h⟩
  | failed | fault =>
    rw [hm] at h
    exact h.elim

theorem wp.eq_done (h : wp m (fun b u => b = a ∧ u = t) (fun _ => False) s) : m s = .done a t := by
  obtain ⟨b, u, hdone, rfl, rfl⟩ := h.returns
  exact hdone

theorem wp_of_done (hm : m s = .done a t) (h : Q a t) : wp m Q E s := by
  simpa only [wp, hm] using h

@[simp] theorem wp_pure (a : α) : wp (pure a : Prog ε σ α) Q E s ↔ Q a s := Iff.rfl

@[simp] theorem wp_bind (m : Prog ε σ β) (f : β → Prog ε σ α) :
    wp (m >>= f) Q E s ↔ wp m (fun b t => wp (f b) Q E t) E s := by
  simp only [wp, bind]
  cases m s with
  | done b t => exact Iff.rfl
  | failed t => exact Iff.rfl
  | fault e => exact Iff.rfl

@[simp] theorem wp_abort (e : ε) : wp (abort e : Prog ε σ α) Q E s ↔ False := Iff.rfl

@[simp] theorem wp_get {Q : σ → σ → Prop} : wp (get : Prog ε σ σ) Q E s ↔ Q s s := Iff.rfl

@[simp] theorem wp_modify {Q : Unit → σ → Prop} (f : σ → σ) :
    wp (modify f : Prog ε σ Unit) Q E s ↔ Q () (f s) := Iff.rfl

@[simp] theorem wp_failWhen {Q : Unit → σ → Prop} (p : σ → Prop) [DecidablePred p] :
    wp (failWhen p : Prog ε σ Unit) Q E s ↔ (p s → E s) ∧ (¬ p s → Q () s) := by
  by_cases h : p s
  · simp [wp, failWhen, h]
  · simp [wp, failWhen, h]

@[simp] theorem wp_orAbort (e : ε) (o : Option α) :
    wp (orAbort e o : Prog ε σ α) Q E s ↔ ∃ a, o = some a ∧ Q a s := by
  cases o with
  | none => simp [orAbort]
  | some a => simp [orAbort]

@[simp] theorem wp_attempt {Q : Option α → σ → Prop} (m : Prog ε σ α) :
    wp (attempt m) Q E s ↔ wp m (fun a t => Q (some a) t) (fun t => Q none t) s := by
  simp only [wp, attempt]
  cases m s with
  | done a t => exact Iff.rfl
  | failed t => exact Iff.rfl
  | fault e => exact Iff.rfl

@[simp] theorem wp_zoom (view : σ → τ) (put : σ → τ → σ) (m : Prog ε τ α) :
    wp (zoom view put m) Q E s ↔
      wp m (fun a t => Q a (put s t)) (fun t => E (put s t)) (view s) := by
  simp only [wp, zoom]
  cases m (view s) with
  | done a t => exact Iff.rfl
  | failed t => exact Iff.rfl
  | fault e => exact Iff.rfl

@[simp] theorem wp_aside {Q : α × τ → σ → Prop} (t : τ) (m : Prog ε τ α) :
    wp (aside t m) Q E s ↔ wp m (fun a u => Q (a, u) s) (fun _ => E s) t := by
  simp only [wp, aside]
  cases m t with
  | done a u => exact Iff.rfl
  | failed u => exact Iff.rfl
  | fault e => exact Iff.rfl

theorem wp_ite {c : Prop} [Decidable c] {m n : Prog ε σ α}
    (hm : c → wp m Q E s) (hn : ¬ c → wp n Q E s) :
    wp (if c then m else n) Q E s := by
  by_cases h : c
  · rw [if_pos h]
    exact hm h
  · rw [if_neg h]
    exact hn h

end Rules

section Returns

variable {s t : σ}

@[simp] theorem pure_eq_done {a b : α} : (pure a : Prog ε σ α) s = .done b t ↔ a = b ∧ s = t := by
  change (Outcome.done a s : Outcome ε σ α) = .done b t ↔ _
  rw [Outcome.done.injEq]

@[simp] theorem bind_eq_done {m : Prog ε σ α} {f : α → Prog ε σ β} {b : β} :
    (m >>= f) s = .done b t ↔ ∃ a u, m s = .done a u ∧ f a u = .done b t := by
  simp only [bind]
  cases hm : m s with
  | done a u => simp
  | failed u => simp
  | fault e => simp

theorem bind_eq_failed {m : Prog ε σ α} {f : α → Prog ε σ β} :
    (m >>= f) s = .failed t ↔ m s = .failed t ∨ ∃ a u, m s = .done a u ∧ f a u = .failed t := by
  simp only [bind]
  cases hm : m s with
  | done a u => simp
  | failed u => simp
  | fault e => simp

@[simp] theorem fail_ne_done {a : α} : (fail : Prog ε σ α) s ≠ .done a t := by
  exact nofun

@[simp] theorem abort_ne_done {e : ε} {a : α} : (abort e : Prog ε σ α) s ≠ .done a t := by
  exact nofun

@[simp] theorem get_eq_done {u : σ} : (get : Prog ε σ σ) s = .done u t ↔ s = u ∧ s = t := by
  change (Outcome.done s s : Outcome ε σ σ) = .done u t ↔ _
  rw [Outcome.done.injEq]

@[simp] theorem modify_eq_done {f : σ → σ} :
    (modify f : Prog ε σ Unit) s = .done a t ↔ f s = t := by
  change (Outcome.done () (f s) : Outcome ε σ Unit) = .done a t ↔ _
  simp

@[simp] theorem failWhen_eq_done {p : σ → Prop} [DecidablePred p] :
    (failWhen p : Prog ε σ Unit) s = .done a t ↔ ¬ p s ∧ s = t := by
  by_cases h : p s
  · simp [failWhen, h]
  · simp [failWhen, h]

@[simp] theorem orAbort_eq_done {e : ε} {o : Option α} {a : α} :
    (orAbort e o : Prog ε σ α) s = .done a t ↔ o = some a ∧ s = t := by
  cases o with
  | none => simp [orAbort]
  | some b => simp [orAbort]

@[simp] theorem aside_eq_done {m : Prog ε τ α} {u v : τ} {a : α} :
    (aside u m : Prog ε σ (α × τ)) s = .done (a, v) t ↔ m u = .done a v ∧ s = t := by
  simp only [aside]
  cases m u with
  | done b w => simp [and_assoc]
  | failed w => simp
  | fault e => simp

@[simp] theorem zoom_eq_done {view : σ → τ} {put : σ → τ → σ} {m : Prog ε τ α} {a : α} :
    zoom view put m s = .done a t ↔ ∃ u, m (view s) = .done a u ∧ put s u = t := by
  simp only [zoom]
  cases hm : m (view s) with
  | done b u =>
    constructor
    · rintro ⟨⟩
      exact ⟨u, rfl, rfl⟩
    · rintro ⟨u', hu, rfl⟩
      cases hu
      rfl
  | failed u => simp
  | fault e => simp

theorem zoom_eq_failed {view : σ → τ} {put : σ → τ → σ} {m : Prog ε τ α} :
    zoom view put m s = .failed t ↔ ∃ u, m (view s) = .failed u ∧ put s u = t := by
  simp only [zoom]
  cases hm : m (view s) with
  | done b u => simp
  | failed u => simp
  | fault e => simp

/-- A loop that returns and whose condition holds makes a round. -/
theorem loop_returns {e : ε} {cond : σ → Prop} [DecidablePred cond] {body : Prog ε σ Unit}
    (h : loop e cond body (n + 1) s = .done a t) (hcond : cond s) :
    ∃ u, body s = .done () u ∧ loop e cond body n u = .done a t := by
  simp only [loop, if_pos hcond] at h
  obtain ⟨b, u, hbody, hrest⟩ := bind_eq_done.mp h
  exact ⟨u, hbody, hrest⟩

theorem loop_returns_of_not {e : ε} {cond : σ → Prop} [DecidablePred cond] {body : Prog ε σ Unit}
    (h : loop e cond body n s = .done a t) (hcond : ¬ cond s) :
    s = t := by
  cases n with
  | zero | succ => simpa [loop, hcond] using h

end Returns

end Prog

end SmartDns
