import Mathlib.Tactic

/-!
# Chains of links

A store links places: `next n` is the place that follows `n`, and `fin` marks
the end of a chain.  `Path next fin s ns e` says that the chain from `s` visits
the places `ns` and then stands at `e`; a chain that ends is a path to `fin`.
-/

namespace SmartDns

/-- Two different members of an ordered list are in order one way or the other. -/
theorem pairwise_or_of_ne {α : Type*} {R : α → α → Prop} {l : List α} (h : l.Pairwise R) {a b : α}
    (ha : a ∈ l) (hb : b ∈ l) (hne : a ≠ b) : R a b ∨ R b a :=
  haveI : Std.Symm fun a b => R a b ∨ R b a := ⟨fun _ _ => Or.symm⟩
  List.Pairwise.forall (R := fun a b => R a b ∨ R b a) (h.imp Or.inl) ha hb hne

section Linked

variable {α : Type*} {next next' : α → Option α} {fin : α}

/-- From `s` the links lead through `ns` to `e`. -/
def Path (next : α → Option α) (fin : α) : α → List α → α → Prop
  | s, [], e => s = e
  | s, n :: ns, e => s = n ∧ n ≠ fin ∧ ∃ m, next n = some m ∧ Path next fin m ns e

/-- From `s` the links lead through `ns` to the end. -/
def Linked (next : α → Option α) (fin : α) (s : α) (ns : List α) : Prop :=
  Path next fin s ns fin

theorem path_append {s e : α} {ns ms : List α} :
    Path next fin s (ns ++ ms) e ↔ ∃ m, Path next fin s ns m ∧ Path next fin m ms e := by
  induction ns generalizing s with
  | nil => simp [Path]
  | cons n ns ih =>
  simp only [List.cons_append, Path, ih]
  constructor
  · rintro ⟨hs, hn, k, hk, m, hleft, hright⟩
    exact ⟨m, ⟨hs, hn, k, hk, hleft⟩, hright⟩
  · rintro ⟨m, ⟨hs, hn, k, hk, hleft⟩, hright⟩
    exact ⟨hs, hn, k, hk, m, hleft, hright⟩

theorem Path.congr {s e : α} {ns : List α} (h : Path next fin s ns e)
    (heq : ∀ n ∈ ns, next' n = next n) :
    Path next' fin s ns e := by
  induction ns generalizing s with
  | nil => exact h
  | cons n ns ih =>
    obtain ⟨hs, hn, m, hm, hrest⟩ := h
    refine ⟨hs, hn, m, ?_, ih hrest (fun k hk => heq k (List.mem_cons_of_mem _ hk))⟩
    rw [heq n (List.mem_cons_self ..)]
    exact hm

theorem Linked.snoc {s last new : α} {ns : List α} (h : Linked next fin s (ns ++ [last]))
    (hkeep : ∀ n ∈ ns, next' n = next n) (hlast : next' last = some new)
    (hnew : next' new = some fin) (hne : new ≠ fin) :
    Linked next' fin s (ns ++ [last] ++ [new]) := by
  obtain ⟨m, hpath, hend⟩ := path_append.mp h
  obtain ⟨rfl, hlastne, -⟩ := hend
  rw [Linked, List.append_assoc, path_append]
  exact ⟨m, hpath.congr hkeep, rfl, hlastne, new, hlast, rfl, hne, fin, hnew, rfl⟩

end Linked

end SmartDns
