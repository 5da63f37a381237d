import Mathlib.Tactic

/-!
# Runs of a deterministic system

A system is a step function on states, driven by events.  A run is a list of
events; it is admissible when every event meets a side condition in the state
in which it happens.  An invariant of the admissible steps holds at the end of
every admissible run, hence in every state that such a run reaches.
-/

namespace SmartDns

universe u v

section Runs

variable {σ : Type u}
variable {ε : Type v}
variable (step : σ → ε → σ)

/-- The state after a list of events. -/
def run (s : σ) (events : List ε) : σ :=
  events.foldl step s

@[simp] theorem run_nil (s : σ) : run step s [] = s := rfl

@[simp] theorem run_cons (s : σ) (e : ε) (events : List ε) :
    run step s (e :: events) = run step (step s e) events := rfl

theorem run_append (s : σ) (es fs : List ε) :
    run step s (es ++ fs) = run step (run step s es) fs := by
  simp [run]

/-- Every event of the run meets `ok` in the state in which it happens. -/
def Admissible (ok : σ → ε → Prop) : σ → List ε → Prop
  | _, [] => True
  | s, e :: events => ok s e ∧ Admissible ok (step s e) events

instance decidableAdmissible (ok : σ → ε → Prop) [∀ s e, Decidable (ok s e)] :
    ∀ s events, Decidable (Admissible step ok s events)
  | _, [] => isTrue trivial
  | s, e :: events =>
    have := decidableAdmissible ok (step s e) events
    inferInstanceAs (Decidable (ok s e ∧ Admissible step ok (step s e) events))

@[simp] theorem admissible_true (s : σ) (events : List ε) :
    Admissible step (fun _ _ => True) s events := by
  induction events generalizing s with
  | nil => trivial
  | cons e events ih => exact ⟨trivial, ih _⟩

theorem admissible_congr {ok ok' : σ → ε → Prop} (h : ∀ s e, ok s e ↔ ok' s e)
    (s : σ) (events : List ε) :
    Admissible step ok s events ↔ Admissible step ok' s events := by
  induction events generalizing s with
  | nil => exact Iff.rfl
  | cons e events ih => exact and_congr (h s e) (ih _)

theorem admissible_append {ok : σ → ε → Prop} (s : σ) (es fs : List ε) :
    Admissible step ok s (es ++ fs) ↔
      Admissible step ok s es ∧ Admissible step ok (run step s es) fs := by
  induction es generalizing s with
  | nil => simp [Admissible]
  | cons e es ih => simp [Admissible, ih, and_assoc]

theorem Admissible.mono {ok ok' : σ → ε → Prop} (h : ∀ s e, ok s e → ok' s e)
    {s : σ} {events : List ε} (hok : Admissible step ok s events) :
    Admissible step ok' s events := by
  induction events generalizing s with
  | nil => trivial
  | cons e events ih => exact ⟨h s e hok.1, ih hok.2⟩

/-- **Invariant rule.** -/
theorem run_invariant {ok : σ → ε → Prop} (inv : σ → Prop)
    (hstep : ∀ s e, inv s → ok s e → inv (step s e)) {s : σ} (hinit : inv s)
    {events : List ε} (hok : Admissible step ok s events) :
    inv (run step s events) := by
  induction events generalizing s with
  | nil => exact hinit
  | cons e events ih => exact ih (hstep s e hinit hok.1) hok.2

/-- A property that a step keeps exactly when its event meets a condition holds
throughout exactly the runs all of whose events meet it. -/
theorem holds_throughout_iff {P : σ → Prop} {ok : σ → ε → Prop} {possible : ε → Prop}
    (hstep : ∀ s e, P s → possible e → (P (step s e) ↔ ok s e)) {s : σ} (hinit : P s)
    {events : List ε} (hevents : ∀ e ∈ events, possible e) :
    (∀ seen, seen <+: events → P (run step s seen)) ↔ Admissible step ok s events := by
  induction events generalizing s with
  | nil => simpa [Admissible] using hinit
  | cons e events ih =>
  have hiff := hstep s e hinit (hevents e List.mem_cons_self)
  have hrest := fun e' he' => hevents e' (List.mem_cons_of_mem e he')
  constructor
  · intro h
    have hnext : P (step s e) := h [e] (by simp)
    refine ⟨hiff.mp hnext, (ih hnext hrest).mp fun seen hseen => ?_⟩
    exact h (e :: seen) (List.cons_prefix_cons.mpr ⟨rfl, hseen⟩)
  · rintro ⟨hok, hrun⟩ seen hseen
    cases seen with
    | nil => exact hinit
    | cons e' seen =>
      obtain ⟨rfl, htail⟩ := List.cons_prefix_cons.mp hseen
      exact (ih (hiff.mpr hok) hrest).mpr hrun seen htail

/-- Two runs side by side: every pair of events meets `ok` in the states in which it happens. -/
def Alongside (ok : σ → σ → ε → ε → Prop) : σ → σ → List ε → List ε → Prop
  | _, _, [], [] => True
  | s, s', e :: events, e' :: events' =>
    ok s s' e e' ∧ Alongside ok (step s e) (step s' e') events events'
  | _, _, _, _ => False

/-- **Two runs.**  A relation between states that every pair of steps keeps holds at the end
of two runs side by side. -/
theorem run_related {ok : σ → σ → ε → ε → Prop} (related : σ → σ → Prop)
    (hstep : ∀ s s' e e', related s s' → ok s s' e e' → related (step s e) (step s' e'))
    {s s' : σ} (hinit : related s s') {events events' : List ε}
    (h : Alongside step ok s s' events events') :
    related (run step s events) (run step s' events') := by
  induction events generalizing s s' events' with
  | nil =>
    cases events' with
    | nil => exact hinit
    | cons e' events' => exact h.elim
  | cons e events ih =>
    cases events' with
    | nil => exact h.elim
    | cons e' events' => exact ih (hstep s s' e e' hinit h.1) h.2

/-- What an observer of the run has recorded at its end. -/
def observed {ω : Type*} (observe : σ → ε → ω → ω) : σ → ω → List ε → ω
  | _, w, [] => w
  | s, w, e :: events => observed observe (step s e) (observe s e w) events

/-- **Invariant rule with an observer.** -/
theorem observed_invariant {ω : Type*} {ok : σ → ε → Prop} (observe : σ → ε → ω → ω)
    (inv : σ → ω → Prop) (hstep : ∀ s w e, inv s w → ok s e → inv (step s e) (observe s e w))
    {s : σ} {w : ω} (hinit : inv s w) {events : List ε} (hok : Admissible step ok s events) :
    inv (run step s events) (observed step observe s w events) := by
  induction events generalizing s w with
  | nil => exact hinit
  | cons e events ih => exact ih (hstep s w e hinit hok.1) hok.2

/-- The sum of an amount over the events of a run, each taken in the state in
which the event happens. -/
def runSum (amount : σ → ε → Nat) : σ → List ε → Nat
  | _, [] => 0
  | s, e :: events => amount s e + runSum amount (step s e) events

theorem runSum_eq_zero_iff (amount : σ → ε → Nat) (s : σ) (events : List ε) :
    runSum step amount s events = 0 ↔ Admissible step (fun s e => amount s e = 0) s events := by
  induction events generalizing s with
  | nil => simp [runSum, Admissible]
  | cons e events ih => simp [runSum, Admissible, ih]

end Runs

end SmartDns
