import SmartDns.Cache.Head

/-!
# The account of the entries

The reference of the list, the reference of the timer and the references that
others are owed add up to the counter of an entry.  Each section of the cache
keeps that account; the sections that hand a reference out or take one back
change what is owed by one.
-/

namespace SmartDns.Cache
namespace CacheHead

def listRef (s : CacheHead) (e : Nat) : ℕ :=
  if e ∈ s.cacheList then 1 else 0

def timerRef (s : CacheHead) (e : Nat) : ℕ :=
  if (s.entries e).timerPending then 1 else 0

/--
The account of every entry, with `owed` references held outside the cache and
`frees` parties that are about to free the entry.
-/
def Balanced (s : CacheHead) (owed frees : Nat → ℕ) : Prop :=
  ∀ e, Accounted (s.live e) (s.entries e).ref
    (s.listRef e + s.timerRef e + owed e) (frees e)

section Primitives

variable {s : CacheHead} {owed frees : Nat → ℕ} {e : Nat}

/-- A change that touches one entry leaves the account of the others. -/
theorem Balanced.of_self {s' : CacheHead} {owed' frees' : Nat → ℕ} (h : s.Balanced owed frees)
    (hnext : ∀ x, x ≠ e → (x < s'.next ↔ x < s.next))
    (hentries : ∀ x, x ≠ e → s'.entries x = s.entries x)
    (hlist : ∀ x, x ≠ e → (x ∈ s'.cacheList ↔ x ∈ s.cacheList))
    (howed : ∀ x, x ≠ e → owed' x = owed x) (hfrees : ∀ x, x ≠ e → frees' x = frees x)
    (hself : Accounted (s'.live e) (s'.entries e).ref
      (s'.listRef e + s'.timerRef e + owed' e) (frees' e)) :
    s'.Balanced owed' frees' := by
  intro x
  by_cases hx : x = e
  · subst hx
    exact hself
  have hold := h x
  simp only [live, listRef, timerRef] at hold ⊢
  simp only [hnext x hx, hentries x hx, hlist x hx, howed x hx, hfrees x hx]
  exact hold

/-- A change of one entry that keeps its counter, its timer and its memory. -/
theorem Balanced.modify (h : s.Balanced owed frees) {f : CacheEntry → CacheEntry}
    (href : (f (s.entries e)).ref = (s.entries e).ref)
    (htimer : (f (s.entries e)).timerPending = (s.entries e).timerPending)
    (hfreed : (f (s.entries e)).freed = (s.entries e).freed) :
    (s.modify e f).Balanced owed frees := by
  have hold := h e
  refine h.of_self (e := e) (fun _ _ => Iff.rfl) (fun x hx => modify_of_ne s f hx)
    (fun _ _ => Iff.rfl) (fun _ _ => rfl) (fun _ _ => rfl) ?_
  simpa [live, listRef, timerRef, href, htimer, hfreed] using hold

theorem Balanced.dnsCacheGet (h : s.Balanced owed frees)
    (hused : 0 < s.listRef e + s.timerRef e + owed e) :
    (s.dnsCacheGet e).Balanced (oneMore owed e) frees := by
  have hold := (h e).take hused
  refine h.of_self (e := e) (fun _ _ => Iff.rfl) (fun x hx => modify_of_ne s _ hx)
    (fun _ _ => Iff.rfl) (fun x hx => oneMore_of_ne _ hx) (fun _ _ => rfl) ?_
  simpa [CacheHead.dnsCacheGet, live, listRef, timerRef, add_assoc] using hold

theorem Balanced.dropRef (h : s.Balanced (oneMore owed e) frees) :
    (s.dropRef e).Balanced owed (if s.exhausted e then oneMore frees e else frees) := by
  have hself : Accounted (s.live e) ((s.entries e).ref - 1) (s.listRef e + s.timerRef e + owed e)
      (frees e + if (s.entries e).ref - 1 = 0 then 1 else 0) := by
    apply Accounted.drop
    have hold := h e
    rwa [oneMore_self, ← add_assoc] at hold
  have hexhausted : (s.exhausted e = true) ↔ (s.entries e).ref - 1 = 0 := by
    simp [exhausted, CacheHead.dropRef]
  refine h.of_self (e := e) (fun _ _ => Iff.rfl) (fun x hx => modify_of_ne s _ hx)
    (fun _ _ => Iff.rfl) (fun x hx => (oneMore_of_ne owed hx).symm) ?_ ?_
  · intro x hx
    split <;> simp [hx]
  by_cases hzero : (s.entries e).ref - 1 = 0
  · rw [if_pos (hexhausted.mpr hzero)]
    simpa [CacheHead.dropRef, live, listRef, timerRef, hzero] using hself
  · rw [if_neg (fun hno => hzero (hexhausted.mp hno))]
    simpa [CacheHead.dropRef, live, listRef, timerRef, hzero] using hself

theorem Balanced.unused (h : s.Balanced owed frees) (hfrees : 0 < frees e) :
    e ∉ s.cacheList ∧ (s.entries e).timerPending = false ∧ owed e = 0 := by
  have hzero := (h e).uses_eq_zero hfrees
  have hlist : s.listRef e = 0 := by omega
  have htimer : s.timerRef e = 0 := by omega
  refine ⟨?_, ?_, by omega⟩
  · intro hmem
    rw [listRef, if_pos hmem] at hlist
    omega
  by_contra hpending
  rw [timerRef, if_pos (by simpa using hpending)] at htimer
  omega

theorem Balanced.dnsCacheDelete (h : s.Balanced owed (oneMore frees e)) :
    (s.dnsCacheDelete e).Balanced owed frees := by
  obtain ⟨hlist, hpending, -⟩ := h.unused (e := e) (by simp)
  have hself : Accounted False ((s.dnsCacheDelete e).entries e).ref
      (s.listRef e + s.timerRef e + owed e) (frees e) := by
    have hold := h e
    rw [oneMore_self] at hold
    exact hold.free _
  refine h.of_self (e := e) (fun _ _ => Iff.rfl) ?_ ?_ (fun _ _ => rfl)
    (fun x hx => (oneMore_of_ne frees hx).symm) ?_
  · intro x hx
    simp [CacheHead.dnsCacheDelete, CacheHead.modify, detachTimer, unlink, hx]
  · intro x hx
    simp [CacheHead.dnsCacheDelete, CacheHead.modify, detachTimer, unlink, hx]
  · simpa [CacheHead.dnsCacheDelete, CacheHead.modify, detachTimer, unlink, live, listRef,
      timerRef, hlist, hpending] using hself

theorem Balanced.dnsCacheRelease (h : s.Balanced (oneMore owed e) frees) :
    (s.dnsCacheRelease e).Balanced owed frees := by
  have hdrop := h.dropRef
  rw [CacheHead.dnsCacheRelease]
  by_cases hzero : s.exhausted e
  · rw [if_pos hzero] at hdrop ⊢
    exact hdrop.dnsCacheDelete
  · rw [if_neg hzero] at hdrop ⊢
    exact hdrop

theorem Balanced.unlink (h : s.Balanced owed frees) (hmem : e ∈ s.cacheList) :
    (s.unlink e).Balanced (oneMore owed e) frees := by
  have hold := h e
  refine h.of_self (e := e) (fun _ _ => Iff.rfl) (fun _ _ => rfl) ?_
    (fun x hx => oneMore_of_ne _ hx) (fun _ _ => rfl) ?_
  · intro x hx
    simp [CacheHead.unlink, hx]
  simp only [listRef, hmem, if_true] at hold
  have huses : (s.unlink e).listRef e + (s.unlink e).timerRef e + oneMore owed e e
      = 1 + s.timerRef e + owed e := by
    have hlist : (s.unlink e).listRef e = 0 := by simp [listRef, CacheHead.unlink]
    have htimer : (s.unlink e).timerRef e = s.timerRef e := rfl
    rw [hlist, htimer, oneMore_self]
    omega
  rw [huses]
  exact hold

theorem Balanced.detachTimer
    (h : s.Balanced owed frees) (hpending : (s.entries e).timerPending = true) :
    (s.detachTimer e).Balanced (oneMore owed e) frees := by
  have hold := h e
  refine h.of_self (e := e) (fun _ _ => Iff.rfl) (fun x hx => modify_of_ne s _ hx)
    (fun _ _ => Iff.rfl) (fun x hx => oneMore_of_ne _ hx) (fun _ _ => rfl) ?_
  simp only [timerRef, hpending, if_true] at hold
  have huses : (s.detachTimer e).listRef e + (s.detachTimer e).timerRef e + oneMore owed e e
      = s.listRef e + 1 + owed e := by
    simp [listRef, timerRef, CacheHead.detachTimer]
    omega
  rw [huses]
  simpa [CacheHead.detachTimer, live] using hold

theorem Balanced.dnsTimerAdd
    (h : s.Balanced (oneMore owed e) frees) (hpending : (s.entries e).timerPending = false) :
    (s.dnsTimerAdd e).Balanced owed frees := by
  have hold := h e
  refine h.of_self (e := e) (fun _ _ => Iff.rfl) (fun x hx => modify_of_ne s _ hx)
    (fun _ _ => Iff.rfl) (fun x hx => (oneMore_of_ne owed hx).symm) (fun _ _ => rfl) ?_
  simp only [timerRef, hpending, oneMore_self] at hold
  have huses : (s.dnsTimerAdd e).listRef e + (s.dnsTimerAdd e).timerRef e + owed e
      = s.listRef e + 0 + (owed e + 1) := by
    simp [listRef, timerRef, CacheHead.dnsTimerAdd]
    omega
  rw [huses]
  simpa [CacheHead.dnsTimerAdd, live] using hold

theorem Balanced.link (h : s.Balanced (oneMore owed e) frees) (hmem : e ∉ s.cacheList) :
    (s.link e).Balanced owed frees := by
  have hold := h e
  refine h.of_self (e := e) (fun _ _ => Iff.rfl) (fun _ _ => rfl) ?_
    (fun x hx => (oneMore_of_ne owed hx).symm) (fun _ _ => rfl) ?_
  · intro x hx
    simp [CacheHead.link, hx]
  simp only [listRef, hmem, if_false, oneMore_self] at hold
  have huses : (s.link e).listRef e + (s.link e).timerRef e + owed e
      = 0 + s.timerRef e + (owed e + 1) := by
    have hlist : (s.link e).listRef e = 1 := by simp [listRef, CacheHead.link]
    have htimer : (s.link e).timerRef e = s.timerRef e := rfl
    omega
  rw [huses]
  exact hold

theorem Balanced.allocate (h : s.Balanced owed frees) (k : CacheKey) (timeout : UInt64) :
    (s.allocate k timeout).Balanced (oneMore owed s.next) frees := by
  have hdead : ¬ s.live s.next := fun hlive => absurd hlive.1 (lt_irrefl _)
  have hold := h s.next
  have huses := hold.dead_uses hdead
  refine h.of_self (e := s.next) ?_ ?_ (fun _ _ => Iff.rfl)
    (fun x hx => oneMore_of_ne _ hx) (fun _ _ => rfl) ?_
  · intro x hx
    simp only [CacheHead.allocate]
    omega
  · intro x hx
    simp [CacheHead.allocate, hx]
  have hfresh := hold.fresh hdead
  have hlist : s.listRef s.next = 0 := by omega
  have howed : owed s.next = 0 := by omega
  rw [huses] at hfresh
  have hlist' : s.next ∉ s.cacheList := by
    intro hmem
    rw [listRef, if_pos hmem] at hlist
    omega
  simpa [CacheHead.allocate, live, listRef, timerRef, hlist', howed] using hfresh

end Primitives

section Sections

variable {s : CacheHead} {owed frees : Nat → ℕ}

theorem Balanced.dnsCacheRemove (h : s.Balanced owed frees) (e : Nat) :
    (s.dnsCacheRemove e).Balanced owed frees := by
  rw [CacheHead.dnsCacheRemove]
  split
  next hmem =>
    have hunlinked := h.unlink hmem
    apply Balanced.dnsCacheRelease
    split
    next hpending => exact (hunlinked.detachTimer hpending).dnsCacheRelease
    next => exact hunlinked
  next => exact h

theorem Balanced.moveToTail (h : s.Balanced owed frees) {e : Nat} (hmem : e ∈ s.cacheList) :
    (s.moveToTail e).Balanced owed frees := by
  intro x
  have hold := h x
  simp only [live, listRef, timerRef] at hold ⊢
  simp only [mem_moveToTail hmem]
  exact hold

theorem Touch.balanced {arms moves writes : Prop} {x y : CacheHead × (Nat → ℕ)}
    (ht : Touch arms moves writes x y) (h : x.1.Balanced x.2 frees) : y.1.Balanced y.2 frees := by
  cases ht with
  | edit href htimer hfreed _ => exact h.modify href htimer hfreed
  | get hmem => exact h.dnsCacheGet (by rw [listRef, if_pos hmem]; omega)
  | add _ _ hoff => exact h.dnsTimerAdd hoff
  | move _ hmem => exact h.moveToTail hmem
  | remove e => exact h.dnsCacheRemove e
  | release => exact h.dnsCacheRelease

theorem Touches.balanced {x y : CacheHead × (Nat → ℕ)} (ht : Touches True True True x y)
    (h : x.1.Balanced x.2 frees) : y.1.Balanced y.2 frees := by
  induction ht with
  | refl => exact h
  | tail _ hstep ih => exact hstep.balanced ih

end Sections

end CacheHead
end SmartDns.Cache
