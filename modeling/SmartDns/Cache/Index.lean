import SmartDns.Cache.Balance
import SmartDns.Cache.Linked

/-!
# The list, the hash table and the counter

The list and the hash table hold the same entries, each once, and `num` counts
the entries that are allocated.  The sections below say what becomes of the
list: a removal takes one entry out, a release takes none, an eviction takes
entries from the front, and a replacement moves an entry to the back.
-/

namespace SmartDns.Cache

open List CacheHead
namespace CacheHead

variable {f : CacheEntry → CacheEntry}
variable {x y : CacheHead × (Nat → ℕ)}

def allocated (s : CacheHead) : Finset Nat :=
  (Finset.range s.next).filter fun e => (s.entries e).freed = false

theorem mem_allocated {s : CacheHead} {e : Nat} : e ∈ s.allocated ↔ s.live e := by
  simp [allocated, live]

/-- The index of the cache: account, list, hash table and counter. -/
structure Indexed (s : CacheHead) (owed : Nat → ℕ) : Prop where
  balanced : s.Balanced owed (fun _ => 0)
  perm : s.cacheHash.Perm s.cacheList
  nodup : s.cacheList.Nodup
  num : s.num = s.allocated.card

/-- Only linked entries have a timer in the wheel. -/
def Timed (s : CacheHead) : Prop :=
  ∀ e, (s.entries e).timerPending = true → e ∈ s.cacheList

/-- No entry changes its key, and none is made. -/
structure SameKeys (s s' : CacheHead) : Prop where
  key : ∀ x, (s'.entries x).key = (s.entries x).key
  next : s'.next = s.next
  size : s'.size = s.size

open SameKeys

section Keys

variable {s s' s'' : CacheHead} {e : Nat}

theorem SameKeys.refl (s : CacheHead) : SameKeys s s := by
  exact ⟨fun _ => rfl, rfl, rfl⟩

theorem SameKeys.trans (h : SameKeys s s') (h' : SameKeys s' s'') : SameKeys s s'' := by
  constructor
  · exact fun x => (h'.key x).trans (h.key x)
  · exact h'.next.trans h.next
  · exact h'.size.trans h.size

theorem SameKeys.modify (hkey : (f (s.entries e)).key = (s.entries e).key) :
    SameKeys s (s.modify e f) := by
  refine ⟨fun x => ?_, rfl, rfl⟩
  by_cases hx : x = e
  · subst hx
    rwa [modify_self]
  · rw [modify_of_ne s f hx]

theorem SameKeys.dnsCacheDelete (s : CacheHead) (e : Nat) : SameKeys s (s.dnsCacheDelete e) := by
  have hunlink : SameKeys s (s.unlink e) := ⟨fun _ => rfl, rfl, rfl⟩
  have hdetached : SameKeys s ((s.unlink e).detachTimer e) := hunlink.trans (modify rfl)
  obtain ⟨hkey, hnext, hsize⟩ := hdetached.trans (modify (e := e)
    (f := fun c => { c with freed := true }) rfl)
  exact ⟨hkey, hnext, hsize⟩

theorem SameKeys.dnsCacheRelease (s : CacheHead) (e : Nat) : SameKeys s (s.dnsCacheRelease e) := by
  have hdrop : SameKeys s (s.dropRef e) := modify rfl
  rw [CacheHead.dnsCacheRelease]
  split
  · exact hdrop.trans (dnsCacheDelete _ e)
  · exact hdrop

theorem SameKeys.dnsCacheRemove (s : CacheHead) (e : Nat) : SameKeys s (s.dnsCacheRemove e) := by
  have hunlink : SameKeys s (s.unlink e) := ⟨fun _ => rfl, rfl, rfl⟩
  rw [CacheHead.dnsCacheRemove]
  split
  · refine trans ?_ (dnsCacheRelease _ e)
    split
    · have hdetach : SameKeys (s.unlink e) ((s.unlink e).detachTimer e) := modify rfl
      exact (hunlink.trans hdetach).trans (dnsCacheRelease _ e)
    · exact hunlink
  · exact refl s

theorem Touch.sameKeys (ht : Touch True True False x y) : SameKeys x.1 y.1 := by
  cases ht with
  | edit _ _ _ hkey => exact SameKeys.modify (hkey.resolve_right id)
  | get =>
    dsimp only [dnsCacheGet]
    exact SameKeys.modify rfl
  | add =>
    dsimp only [dnsTimerAdd]
    exact SameKeys.modify rfl
  | move => exact ⟨fun _ => rfl, rfl, rfl⟩
  | remove e => exact SameKeys.dnsCacheRemove _ e
  | release => exact SameKeys.dnsCacheRelease _ _

theorem Touches.sameKeys (ht : Touches True True False x y) : SameKeys x.1 y.1 := by
  induction ht with
  | refl => exact refl _
  | tail _ hstep ih => exact ih.trans hstep.sameKeys

end Keys

section Lists

variable {s : CacheHead} {owed frees : Nat → ℕ} {e : Nat}

/-- A release is of an entry that is not freed, or not linked. -/
theorem dnsCacheRelease_cases (h : s.Balanced (oneMore owed e) frees) :
    s.dnsCacheRelease e = s.dropRef e ∨
      s.dnsCacheRelease e = (s.dropRef e).dnsCacheDelete e ∧ e ∉ s.cacheList := by
  have hdrop := h.dropRef
  rw [dnsCacheRelease]
  split
  next hzero =>
    rw [if_pos hzero] at hdrop
    exact .inr ⟨rfl, (hdrop.unused (e := e) (by simp)).1⟩
  next => exact .inl rfl

theorem filter_ne_eq_self {l : List Nat} (h : e ∉ l) : l.filter (fun x => x ≠ e) = l :=
  filter_eq_self.mpr fun _ hx => decide_eq_true fun hxe => h (hxe ▸ hx)

/-- So it leaves the list as it is. -/
theorem cacheList_dnsCacheRelease (h : s.Balanced (oneMore owed e) frees) :
    (s.dnsCacheRelease e).cacheList = s.cacheList := by
  obtain heq | ⟨heq, hfree⟩ := dnsCacheRelease_cases h
  · rw [heq]
    rfl
  · rw [heq]
    exact filter_ne_eq_self hfree

/-- A removal takes the entry out of the list and leaves the others in order. -/
theorem cacheList_dnsCacheRemove (h : s.Balanced owed frees) (e : Nat) :
    (s.dnsCacheRemove e).cacheList = s.cacheList.filter (fun x => x ≠ e) := by
  rw [dnsCacheRemove]
  split
  next hmem =>
    have hunlinked := h.unlink hmem
    dsimp only
    split
    next hpending =>
      have hdetached := hunlinked.detachTimer hpending
      rw [cacheList_dnsCacheRelease hdetached.dnsCacheRelease, cacheList_dnsCacheRelease hdetached]
      rfl
    next =>
      rw [cacheList_dnsCacheRelease hunlinked]
      rfl
  next hmem => exact (filter_ne_eq_self hmem).symm

theorem cacheList_dnsCacheRemove_first
    (h : s.Balanced owed frees) (hnodup : s.cacheList.Nodup) {first : Nat} {rest : List Nat}
    (hlist : s.cacheList = first :: rest) :
    (s.dnsCacheRemove first).cacheList = rest := by
  rw [hlist] at hnodup
  rw [cacheList_dnsCacheRemove h, hlist]
  have hfirst : ∀ x ∈ rest, x ≠ first := fun x hx hxe => (nodup_cons.mp hnodup).1 (hxe ▸ hx)
  simpa using hfirst

theorem cacheList_evict
    (turns : Nat) (memFull : List Bool) (h : s.Balanced owed frees) (hnodup : s.cacheList.Nodup) :
    ∃ n, (evict turns memFull s).cacheList = s.cacheList.drop n := by
  induction turns generalizing memFull s with
  | zero => exact ⟨0, rfl⟩
  | succ turns ih =>
  rw [evict]
  split
  · split
    next => exact ⟨0, rfl⟩
    next first rest hlist =>
    have htail := cacheList_dnsCacheRemove_first h hnodup hlist
    have hrest : (s.dnsCacheRemove first).cacheList.Nodup := by
      rw [hlist] at hnodup
      rw [htail]
      exact (nodup_cons.mp hnodup).2
    obtain ⟨n, hn⟩ := ih memFull.tail (h.dnsCacheRemove first) hrest
    exact ⟨n + 1, by rw [hn, htail, hlist]; rfl⟩
  · exact ⟨0, rfl⟩

/-- A section that moves nothing to the back takes entries out, and leaves the others in
order. -/
theorem Touches.sublist (ht : Touches True False False x y)
    (h : x.1.Balanced x.2 frees) : y.1.cacheList.Sublist x.1.cacheList := by
  suffices y.1.Balanced y.2 frees ∧ y.1.cacheList.Sublist x.1.cacheList from this.2
  induction ht with
  | refl => exact ⟨h, .refl _⟩
  | tail _ hstep ih =>
  refine ⟨hstep.balanced ih.1, List.Sublist.trans ?_ ih.2⟩
  cases hstep with
  | move hmoves => exact hmoves.elim
  | remove e =>
    rw [cacheList_dnsCacheRemove ih.1]
    exact filter_sublist
  | release => rw [cacheList_dnsCacheRelease ih.1]
  | _ => exact .refl _

end Lists

section Allocation

variable {s : CacheHead} {e : Nat}

theorem allocated_modify (hfreed : (f (s.entries e)).freed = (s.entries e).freed) :
    (s.modify e f).allocated = s.allocated := by
  ext x
  rw [mem_allocated, mem_allocated]
  by_cases hx : x = e
  · subst hx
    simp [live, hfreed]
  · simp [live, hx]

theorem allocated_dnsCacheDelete (s : CacheHead) (e : Nat) :
    (s.dnsCacheDelete e).allocated = s.allocated.erase e := by
  ext x
  rw [Finset.mem_erase, mem_allocated, mem_allocated]
  by_cases hx : x = e
  · subst hx
    simp [live, dnsCacheDelete, modify]
  · simp [live, dnsCacheDelete, modify, detachTimer, unlink, hx]

theorem allocated_allocate (s : CacheHead) (k : CacheKey) (timeout : UInt64) :
    (s.allocate k timeout).allocated = insert s.next s.allocated := by
  ext x
  rw [Finset.mem_insert, mem_allocated, mem_allocated]
  by_cases hx : x = s.next
  · simp [live, allocate, hx]
  simp only [live, allocate, Function.update_of_ne hx]
  constructor
  · rintro ⟨hlt, hfreed⟩
    exact .inr ⟨by omega, hfreed⟩
  rintro (hxn | ⟨hlt, hfreed⟩)
  · exact absurd hxn hx
  · exact ⟨by omega, hfreed⟩

end Allocation

section Index

variable {s : CacheHead} {owed : Nat → ℕ} {e : Nat}

theorem Indexed.bound (h : s.Indexed owed) (hmem : e ∈ s.cacheList) : e < s.next := by
  have huses : 0 < s.listRef e + s.timerRef e + owed e := by
    rw [listRef, if_pos hmem]
    omega
  exact ((h.balanced e).live_of_uses huses).1

/-- For a change of one entry that leaves its memory only the account is to be looked at. -/
theorem Indexed.of_modify (h : s.Indexed owed) {owed' : Nat → ℕ}
    (hbalanced : (s.modify e f).Balanced owed' fun _ => 0)
    (hfreed : (f (s.entries e)).freed = (s.entries e).freed) :
    (s.modify e f).Indexed owed' :=
  ⟨hbalanced, h.perm, h.nodup, by rw [allocated_modify hfreed]; exact h.num⟩

theorem Indexed.modify (h : s.Indexed owed) (href : (f (s.entries e)).ref = (s.entries e).ref)
    (htimer : (f (s.entries e)).timerPending = (s.entries e).timerPending)
    (hfreed : (f (s.entries e)).freed = (s.entries e).freed) :
    (s.modify e f).Indexed owed :=
  h.of_modify (h.balanced.modify href htimer hfreed) hfreed

theorem Indexed.dnsCacheGet (h : s.Indexed owed) (hused : 0 < s.listRef e + s.timerRef e + owed e) :
    (s.dnsCacheGet e).Indexed (oneMore owed e) :=
  h.of_modify (h.balanced.dnsCacheGet hused) rfl

theorem Indexed.dnsCacheRelease (h : s.Indexed (oneMore owed e)) :
    (s.dnsCacheRelease e).Indexed owed := by
  constructor
  · exact h.balanced.dnsCacheRelease
  · rw [cacheList_dnsCacheRelease h.balanced]
    obtain heq | ⟨heq, hfree⟩ := dnsCacheRelease_cases h.balanced
    · rw [heq]
      exact h.perm
    · rw [heq]
      have hsame : ((s.dropRef e).dnsCacheDelete e).cacheHash = s.cacheHash :=
        filter_ne_eq_self fun hmem => hfree (h.perm.mem_iff.mp hmem)
      rw [hsame]
      exact h.perm
  · rw [cacheList_dnsCacheRelease h.balanced]
    exact h.nodup
  have hlive : s.live e := (h.balanced e).live_of_uses (by rw [oneMore_self]; omega)
  have hdropped : (s.dropRef e).allocated = s.allocated := allocated_modify rfl
  rw [CacheHead.dnsCacheRelease]
  split
  · rw [allocated_dnsCacheDelete, hdropped, Finset.card_erase_of_mem (mem_allocated.mpr hlive)]
    have hpos : 0 < s.allocated.card := Finset.card_pos.mpr ⟨e, mem_allocated.mpr hlive⟩
    have hnum : ((s.dropRef e).dnsCacheDelete e).num = s.num - 1 := rfl
    rw [hnum, h.num]
    omega
  · rw [hdropped]
    exact h.num

theorem Indexed.unlink (h : s.Indexed owed) (hmem : e ∈ s.cacheList) :
    (s.unlink e).Indexed (oneMore owed e) := by
  constructor
  · exact h.balanced.unlink hmem
  · exact h.perm.filter _
  · exact h.nodup.filter _
  · exact h.num

theorem Indexed.detachTimer (h : s.Indexed owed) (hpending : (s.entries e).timerPending = true) :
    (s.detachTimer e).Indexed (oneMore owed e) :=
  h.of_modify (h.balanced.detachTimer hpending) rfl

theorem Indexed.dnsTimerAdd
    (h : s.Indexed (oneMore owed e)) (hpending : (s.entries e).timerPending = false) :
    (s.dnsTimerAdd e).Indexed owed :=
  h.of_modify (h.balanced.dnsTimerAdd hpending) rfl

theorem Indexed.link (h : s.Indexed (oneMore owed e)) (hmem : e ∉ s.cacheList) :
    (s.link e).Indexed owed := by
  constructor
  · exact h.balanced.link hmem
  · exact (h.perm.cons e).trans (perm_append_singleton e s.cacheList).symm
  · exact nodup_append_comm.mp (nodup_cons.mpr ⟨hmem, h.nodup⟩)
  · exact h.num

theorem Indexed.allocate (h : s.Indexed owed) (k : CacheKey) (timeout : UInt64) :
    (s.allocate k timeout).Indexed (oneMore owed s.next) := by
  constructor
  · exact h.balanced.allocate k timeout
  · exact h.perm
  · exact h.nodup
  have hnew : s.next ∉ s.allocated := by simp [allocated]
  rw [allocated_allocate, Finset.card_insert_of_notMem hnew]
  have hnum : (s.allocate k timeout).num = s.num + 1 := rfl
  rw [hnum, h.num]
  rfl

theorem Indexed.dnsCacheRemove (h : s.Indexed owed) (e : Nat) :
    (s.dnsCacheRemove e).Indexed owed := by
  rw [CacheHead.dnsCacheRemove]
  split
  next hmem =>
    have hunlinked := h.unlink hmem
    apply Indexed.dnsCacheRelease
    split
    next hpending => exact (hunlinked.detachTimer hpending).dnsCacheRelease
    next => exact hunlinked
  next => exact h

theorem Indexed.moveToTail (h : s.Indexed owed) (hmem : e ∈ s.cacheList) :
    (s.moveToTail e).Indexed owed := by
  have hfilter : s.cacheList.filter (fun x => x ≠ e) = s.cacheList.erase e := by
    rw [h.nodup.erase_eq_filter]
    refine filter_congr (fun x _ => ?_)
    by_cases hx : x = e <;> simp [hx]
  have hperm : (s.moveToTail e).cacheList.Perm s.cacheList := by
    rw [CacheHead.moveToTail, hfilter]
    exact (perm_append_singleton e _).trans (perm_cons_erase hmem).symm
  constructor
  · exact h.balanced.moveToTail hmem
  · exact h.perm.trans hperm.symm
  · exact hperm.nodup_iff.mpr h.nodup
  · exact h.num

theorem Touch.indexed (ht : Touch True True True x y) (h : x.1.Indexed x.2) : y.1.Indexed y.2 := by
  have hbalanced := ht.balanced h.balanced
  cases ht with
  | edit _ _ hfreed _ => exact h.of_modify hbalanced hfreed
  | get | add => exact h.of_modify hbalanced rfl
  | move _ hmem => exact h.moveToTail hmem
  | remove e => exact h.dnsCacheRemove e
  | release => exact h.dnsCacheRelease

theorem Touches.indexed (ht : Touches True True True x y)
    (h : x.1.Indexed x.2) : y.1.Indexed y.2 := by
  induction ht with
  | refl => exact h
  | tail _ hstep ih => exact hstep.indexed ih

/-- The second section of an insertion: an entry is made, others may be evicted, the new
one is linked and goes on its timer. -/
theorem Indexed.dnsCacheInsert
    (h : s.Indexed owed) (k : CacheKey) (timeout : UInt64) (memFull : List Bool) :
    (s.dnsCacheInsert k timeout memFull).Indexed owed := by
  have hfresh : s.next ∉ s.cacheList := fun hmem => lt_irrefl _ (h.bound hmem)
  have hallocated := h.allocate k timeout
  have hevicted := Touches.indexed (touches_evict _ 33 memFull) hallocated
  have hcalms := Calms.evict 33 memFull (s.allocate k timeout)
  have hnew : s.next ∉ (evict 33 memFull (s.allocate k timeout)).cacheList :=
    fun hmem => hfresh (hcalms.linked s.next hmem)
  have hlinked := hevicted.link hnew
  have hget := hlinked.dnsCacheGet (e := s.next) (by
    rw [listRef, if_pos (by simp [CacheHead.link])]
    omega)
  refine hget.dnsTimerAdd ?_
  have hquiet := hcalms.quiet s.next
  simpa [CacheHead.dnsCacheGet, CacheHead.link, CacheHead.allocate] using hquiet

end Index

section Timers

variable {s : CacheHead} {e : Nat}

/-- A section that stops timers only, and takes `e` out of the list only if it is off
its timer. -/
theorem Timed.of_calms {s' : CacheHead} (h : s.Timed) (hcalms : Calms s s')
    (hlist : ∀ x ∈ s.cacheList, x ≠ e → x ∈ s'.cacheList)
    (hself : (s'.entries e).timerPending = true → e ∈ s'.cacheList) :
    s'.Timed := by
  intro x hpending
  by_cases hx : x = e
  · subst hx
    exact hself hpending
  · exact hlist x (h x (hcalms.quiet x hpending)) hx

theorem Timed.dnsCacheRelease (h : s.Timed) (e : Nat) : (s.dnsCacheRelease e).Timed := by
  refine h.of_calms (e := e) (Calms.dnsCacheRelease s e) ?_ ?_
  · intro x hx hxe
    rw [CacheHead.dnsCacheRelease]
    split
    · simpa [dnsCacheDelete, unlink, detachTimer,
        dropRef, hxe] using hx
    · exact hx
  intro hpending
  rw [CacheHead.dnsCacheRelease] at hpending ⊢
  split at hpending
  · simp [dnsCacheDelete, detachTimer, modify] at hpending
  next hzero =>
    rw [if_neg hzero]
    exact h e (by simpa [dropRef] using hpending)

theorem not_timerPending_dnsCacheRemove (hmem : e ∈ s.cacheList) :
    ((s.dnsCacheRemove e).entries e).timerPending = false := by
  rw [dnsCacheRemove, if_pos hmem, Bool.eq_false_iff]
  intro hpending
  have hbefore := (Calms.dnsCacheRelease _ e).quiet e hpending
  split at hbefore
  · have hdetached := (Calms.dnsCacheRelease _ e).quiet e hbefore
    simp [detachTimer] at hdetached
  next hoff => exact hoff hbefore

theorem Timed.dnsCacheRemove
    {owed frees : Nat → ℕ} (h : s.Timed) (hbalanced : s.Balanced owed frees) (e : Nat) :
    (s.dnsCacheRemove e).Timed := by
  refine h.of_calms (e := e) (Calms.dnsCacheRemove s e) ?_ ?_
  · intro x hx hxe
    rw [cacheList_dnsCacheRemove hbalanced]
    simpa [hxe] using hx
  intro hpending
  by_cases hmem : e ∈ s.cacheList
  · rw [not_timerPending_dnsCacheRemove hmem] at hpending
    exact absurd hpending (by simp)
  · rw [CacheHead.dnsCacheRemove, if_neg hmem] at hpending
    exact absurd (h e hpending) hmem

/-- A change that leaves the list and starts no timer but that of a linked entry. -/
theorem Timed.modify
    (h : s.Timed) (hself : (f (s.entries e)).timerPending = true → e ∈ s.cacheList) :
    (s.modify e f).Timed := by
  intro x hpending
  by_cases hx : x = e
  · subst hx
    exact hself (by simpa using hpending)
  · exact h x (by simpa [hx] using hpending)

theorem Timed.moveToTail (h : s.Timed) (hmem : e ∈ s.cacheList) : (s.moveToTail e).Timed := by
  intro x hpending
  exact (mem_moveToTail hmem x).mpr (h x hpending)

theorem Touch.timed {frees : Nat → ℕ} (ht : Touch True True True x y)
    (hbalanced : x.1.Balanced x.2 frees) (h : x.1.Timed) : y.1.Timed := by
  cases ht with
  | edit _ htimer _ _ => exact h.modify fun hp => h _ (htimer.symm.trans hp)
  | get hmem =>
    dsimp only [dnsCacheGet]
    exact h.modify fun _ => hmem
  | add _ hmem _ =>
    dsimp only [dnsTimerAdd]
    exact h.modify fun _ => hmem
  | move _ hmem => exact h.moveToTail hmem
  | remove e => exact h.dnsCacheRemove hbalanced e
  | release => exact h.dnsCacheRelease _

theorem Touches.timed {frees : Nat → ℕ}
    (ht : Touches True True True x y) (hbalanced : x.1.Balanced x.2 frees) (h : x.1.Timed) :
    y.1.Timed := by
  induction ht with
  | refl => exact h
  | tail hrest hstep ih => exact hstep.timed (Touches.balanced hrest hbalanced) ih

theorem Timed.allocate (h : s.Timed) (k : CacheKey) (timeout : UInt64) :
    (s.allocate k timeout).Timed := by
  intro x hpending
  by_cases hx : x = s.next
  · simp [CacheHead.allocate, hx] at hpending
  · exact h x (by simpa [CacheHead.allocate, hx] using hpending)

theorem Timed.dnsCacheInsert
    {owed : Nat → ℕ} (h : s.Timed) (hindexed : s.Indexed owed) (k : CacheKey)
    (timeout : UInt64) (memFull : List Bool) :
    (s.dnsCacheInsert k timeout memFull).Timed := by
  have hevicted := (touches_evict _ 33 memFull).timed (hindexed.allocate k timeout).balanced
    (h.allocate k timeout)
  have hlinked : ((evict 33 memFull (s.allocate k timeout)).link s.next).Timed :=
    fun x hpending => mem_append_left _ (hevicted x hpending)
  have hmem : s.next ∈
      ((evict 33 memFull (s.allocate k timeout)).link s.next).cacheList := by
    simp [link]
  have hget : (((evict 33 memFull (s.allocate k timeout)).link s.next).dnsCacheGet
      s.next).Timed := hlinked.modify (fun _ => hmem)
  rw [CacheHead.dnsCacheInsert]
  exact hget.modify (fun _ => hmem)

end Timers

end CacheHead
end SmartDns.Cache
