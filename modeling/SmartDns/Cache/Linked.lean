import SmartDns.Cache.Head

/-!
# The linked entries

What a section of the cache does to the entries it leaves linked: it keeps
their keys and does not stop their timers.  Only the second section of an
insertion links an entry.
-/

namespace SmartDns.Cache

open List CacheHead
namespace CacheHead

variable {e x : Nat} {k : CacheKey}

/-- The hash table and the list hold the same entries. -/
def HashOk (s : CacheHead) : Prop :=
  ∀ x, x ∈ s.cacheHash ↔ x ∈ s.cacheList

/-- No entry is linked that was not, and those that stay keep key and timer. -/
structure Keeps (s s' : CacheHead) : Prop where
  linked : ∀ x ∈ s'.cacheList, x ∈ s.cacheList
  timer : ∀ x ∈ s'.cacheList,
    (s.entries x).timerPending = true → (s'.entries x).timerPending = true
  key : ∀ x, (s'.entries x).key.compared = (s.entries x).key.compared
  hash : s.HashOk → s'.HashOk
  next : s'.next = s.next

/-- Moreover no timer is started. -/
structure Calms (s s' : CacheHead) : Prop extends Keeps s s' where
  quiet : ∀ x, (s'.entries x).timerPending = true → (s.entries x).timerPending = true

open Calms

section Keeps

variable {s s' s'' : CacheHead}

theorem Keeps.refl (s : CacheHead) : Keeps s s := by
  exact ⟨fun _ h => h, fun _ _ h => h, fun _ => rfl, fun h => h, rfl⟩

theorem Keeps.trans (h : Keeps s s') (h' : Keeps s' s'') : Keeps s s'' := by
  constructor
  · exact fun x hx => h.linked x (h'.linked x hx)
  · exact fun x hx hp => h'.timer x hx (h.timer x (h'.linked x hx) hp)
  · exact fun x => (h'.key x).trans (h.key x)
  · exact fun hhash => h'.hash (h.hash hhash)
  · exact h'.next.trans h.next

theorem Calms.refl (s : CacheHead) : Calms s s := by
  exact ⟨Keeps.refl s, fun _ h => h⟩

theorem Calms.trans (h : Calms s s') (h' : Calms s' s'') : Calms s s'' := by
  exact ⟨h.toKeeps.trans h'.toKeeps, fun x hp => h.quiet x (h'.quiet x hp)⟩

/-- A change of one entry that keeps its key, and its timer if it is linked. -/
theorem Keeps.modify {f : CacheEntry → CacheEntry}
    (hkey : (f (s.entries e)).key.compared = (s.entries e).key.compared)
    (htimer : e ∈ s.cacheList → (s.entries e).timerPending = true →
      (f (s.entries e)).timerPending = true) :
    Keeps s (s.modify e f) := by
  refine ⟨fun _ h => h, ?_, ?_, fun h => h, rfl⟩
  · intro x hx hp
    by_cases hxe : x = e
    · subst hxe
      simpa using htimer hx hp
    · simpa [hxe] using hp
  · intro x
    by_cases hxe : x = e
    · subst hxe
      simpa using hkey
    · simp [hxe]

theorem Keeps.calms {f : CacheEntry → CacheEntry} (h : Keeps s (s.modify e f))
    (hquiet : (f (s.entries e)).timerPending = true → (s.entries e).timerPending = true) :
    Calms s (s.modify e f) := by
  refine ⟨h, ?_⟩
  intro x hp
  by_cases hxe : x = e
  · subst hxe
    exact hquiet (by simpa using hp)
  · simpa [hxe] using hp

theorem Calms.unlink (s : CacheHead) (e : Nat) : Calms s (s.unlink e) := by
  refine ⟨⟨?_, fun _ _ hp => hp, fun _ => rfl, ?_, rfl⟩, fun _ hp => hp⟩
  · intro x hx
    exact (mem_filter.mp hx).1
  · intro hhash x
    simp only [CacheHead.unlink, mem_filter, hhash x]

theorem Calms.dropRef (s : CacheHead) (e : Nat) : Calms s (s.dropRef e) := by
  exact (Keeps.modify rfl (fun _ hp => hp)).calms (fun hp => hp)

theorem Calms.dnsCacheGet (s : CacheHead) (e : Nat) : Calms s (s.dnsCacheGet e) := by
  exact (Keeps.modify rfl (fun _ hp => hp)).calms (fun hp => hp)

theorem Calms.detachTimer (h : e ∉ s.cacheList) : Calms s (s.detachTimer e) := by
  refine (Keeps.modify rfl (fun hmem => absurd hmem h)).calms ?_
  simp

theorem not_mem_unlink (s : CacheHead) (e : Nat) : e ∉ (s.unlink e).cacheList := by
  simp [unlink]

theorem Calms.dnsCacheDelete (s : CacheHead) (e : Nat) : Calms s (s.dnsCacheDelete e) := by
  have hdetached := (unlink s e).trans (detachTimer (not_mem_unlink s e))
  have hfreed : Calms ((s.unlink e).detachTimer e)
      (((s.unlink e).detachTimer e).modify e fun c => { c with freed := true }) :=
    (Keeps.modify rfl (fun _ hp => hp)).calms (fun hp => hp)
  obtain ⟨⟨hlinked, htimer, hkey, hhash, hnext⟩, hquiet⟩ := hdetached.trans hfreed
  exact ⟨⟨hlinked, htimer, hkey, hhash, hnext⟩, hquiet⟩

theorem Calms.dnsCacheRelease (s : CacheHead) (e : Nat) : Calms s (s.dnsCacheRelease e) := by
  rw [CacheHead.dnsCacheRelease]
  split
  · exact (dropRef s e).trans (dnsCacheDelete _ e)
  · exact dropRef s e

/-- `_dns_cache_remove` of a linked entry is its unlinking and releases of it. -/
theorem Calms.dnsCacheRemove_unlink (hmem : e ∈ s.cacheList) :
    Calms (s.unlink e) (s.dnsCacheRemove e) := by
  rw [dnsCacheRemove, if_pos hmem]
  refine trans ?_ (dnsCacheRelease _ e)
  split
  · exact (detachTimer (not_mem_unlink s e)).trans (dnsCacheRelease _ e)
  · exact refl _

theorem Calms.dnsCacheRemove (s : CacheHead) (e : Nat) : Calms s (s.dnsCacheRemove e) := by
  by_cases hmem : e ∈ s.cacheList
  · exact (unlink s e).trans (dnsCacheRemove_unlink hmem)
  · rw [CacheHead.dnsCacheRemove, if_neg hmem]
    exact refl s

theorem not_mem_dnsCacheRemove (s : CacheHead) (e : Nat) : e ∉ (s.dnsCacheRemove e).cacheList := by
  by_cases hmem : e ∈ s.cacheList
  · exact fun h => not_mem_unlink s e ((dnsCacheRemove_unlink hmem).linked e h)
  · rwa [dnsCacheRemove, if_neg hmem]

theorem Calms.moveToTail (hmem : e ∈ s.cacheList) : Calms s (s.moveToTail e) := by
  have hiff := mem_moveToTail hmem
  refine ⟨⟨?_, fun _ _ hp => hp, fun _ => rfl, ?_, rfl⟩, fun _ hp => hp⟩
  · exact fun x hx => (hiff x).mp hx
  · exact fun hhash x => (hhash x).trans (hiff x).symm

theorem Keeps.dnsTimerAdd (s : CacheHead) (e : Nat) : Keeps s (s.dnsTimerAdd e) := by
  exact Keeps.modify rfl (fun _ _ => rfl)

theorem Touch.calms {arms : Prop} {x y : CacheHead × (Nat → ℕ)} (ht : Touch arms True False x y) :
    Calms x.1 y.1 ∨ arms ∧ Keeps x.1 y.1 := by
  cases ht with
  | edit _ htimer _ hkey =>
    have hkeeps := Keeps.modify (congrArg _ (hkey.resolve_right id)) (fun _ hp => htimer.trans hp)
    exact .inl (hkeeps.calms fun hp => htimer.symm.trans hp)
  | get => exact .inl (Calms.dnsCacheGet _ _)
  | add harms => exact .inr ⟨harms, Keeps.dnsTimerAdd _ _⟩
  | move _ hmem => exact .inl (Calms.moveToTail hmem)
  | remove e => exact .inl (Calms.dnsCacheRemove _ e)
  | release => exact .inl (Calms.dnsCacheRelease _ _)

theorem Touches.calms {x y : CacheHead × (Nat → ℕ)} (ht : Touches False True False x y) :
    Calms x.1 y.1 := by
  induction ht with
  | refl => exact refl _
  | tail _ hstep ih => exact ih.trans (hstep.calms.resolve_right fun h => h.1)

theorem Touches.keeps {x y : CacheHead × (Nat → ℕ)} (ht : Touches True True False x y) :
    Keeps x.1 y.1 := by
  induction ht with
  | refl => exact Keeps.refl _
  | tail _ hstep ih => exact ih.trans (hstep.calms.elim (fun h => h.toKeeps) fun h => h.2)

theorem Calms.evict (turns : Nat) (memFull : List Bool) (s : CacheHead) :
    Calms s (evict turns memFull s) :=
  (touches_evict (fun _ => 0) turns memFull).calms

end Keeps

section Insert

variable {s : CacheHead} (k : CacheKey) (timeout : UInt64) (memFull : List Bool)

theorem mem_dnsCacheInsert (hx : x ∈ (s.dnsCacheInsert k timeout memFull).cacheList) :
    x = s.next ∨ x ∈ s.cacheList := by
  have hmem : x ∈ (evict 33 memFull (s.allocate k timeout)).cacheList ++ [s.next] := hx
  rcases mem_append.mp hmem with h | h
  · exact .inr ((Calms.evict 33 memFull (s.allocate k timeout)).linked x h)
  · exact .inl (mem_singleton.mp h)

theorem next_dnsCacheInsert : (s.dnsCacheInsert k timeout memFull).next = s.next + 1 :=
  (Calms.evict 33 memFull (s.allocate k timeout)).next

/-- The key of every entry after the second section of an insertion. -/
theorem key_dnsCacheInsert (x : Nat) :
    ((s.dnsCacheInsert k timeout memFull).entries x).key.compared
      = if x = s.next then k.compared else (s.entries x).key.compared := by
  have hevicted := (Calms.evict 33 memFull (s.allocate k timeout)).key x
  have hrest : ((s.dnsCacheInsert k timeout memFull).entries x).key.compared
      = ((evict 33 memFull (s.allocate k timeout)).entries x).key.compared := by
    have hget := Calms.dnsCacheGet ((evict 33 memFull (s.allocate k timeout)).link s.next) s.next
    exact ((Keeps.dnsTimerAdd _ s.next).key x).trans (hget.key x)
  rw [hrest, hevicted]
  by_cases hx : x = s.next
  · simp [allocate, hx]
  · simp [allocate, hx]

/-- The new entry is on its timer, and the others stay on theirs. -/
theorem timer_dnsCacheInsert (hx : x ∈ (s.dnsCacheInsert k timeout memFull).cacheList)
    (hp : x = s.next ∨ (s.entries x).timerPending = true) :
    ((s.dnsCacheInsert k timeout memFull).entries x).timerPending = true := by
  by_cases hnew : x = s.next
  · subst hnew
    simp [dnsCacheInsert, dnsTimerAdd]
  · have hmem : x ∈ (evict 33 memFull (s.allocate k timeout)).cacheList := by
      have hmem : x ∈ (evict 33 memFull (s.allocate k timeout)).cacheList ++ [s.next] := hx
      simpa [hnew] using hmem
    have hold : ((s.allocate k timeout).entries x).timerPending = true := by
      simpa [allocate, hnew] using hp
    have hevicted := (Calms.evict 33 memFull (s.allocate k timeout)).timer x hmem hold
    have hsame : ((s.dnsCacheInsert k timeout memFull).entries x)
        = (evict 33 memFull (s.allocate k timeout)).entries x := by
      simp [dnsCacheInsert, dnsTimerAdd, dnsCacheGet, link, hnew]
    rw [hsame]
    exact hevicted

theorem quiet_dnsCacheInsert (hx : x ≠ s.next)
    (hp : ((s.dnsCacheInsert k timeout memFull).entries x).timerPending = true) :
    (s.entries x).timerPending = true := by
  have hevicted : ((evict 33 memFull (s.allocate k timeout)).entries x).timerPending = true := by
    simpa [dnsCacheInsert, dnsTimerAdd, dnsCacheGet, link, hx] using hp
  have hold := (Calms.evict 33 memFull (s.allocate k timeout)).quiet x hevicted
  simpa [allocate, hx] using hold

theorem HashOk.dnsCacheInsert
    (h : s.HashOk) (k : CacheKey) (timeout : UInt64) (memFull : List Bool) :
    (s.dnsCacheInsert k timeout memFull).HashOk := by
  have hevicted := (Calms.evict 33 memFull (s.allocate k timeout)).hash h
  intro x
  have hx := hevicted x
  simp only [CacheHead.dnsCacheInsert, CacheHead.dnsTimerAdd, CacheHead.dnsCacheGet,
    link, modify_cacheHash, modify_cacheList, mem_cons, mem_append,
    not_mem_nil, or_false, hx]
  exact or_comm

end Insert

section Unique

/-- No two linked entries have the same key. -/
def Unique (s : CacheHead) : Prop :=
  ∀ x ∈ s.cacheList, ∀ y ∈ s.cacheList,
    (s.entries x).key.compared = (s.entries y).key.compared → x = y

/-- No linked entry has the key `k`. -/
def Absent (s : CacheHead) (k : CacheKey) : Prop :=
  ∀ x ∈ s.cacheList, (s.entries x).key.compared ≠ k.compared

variable {s s' : CacheHead}

theorem Keeps.unique (h : Keeps s s') (hu : s.Unique) : s'.Unique := by
  intro x hx y hy hxy
  rw [h.key, h.key] at hxy
  exact hu x (h.linked x hx) y (h.linked y hy) hxy

theorem Keeps.absent (h : Keeps s s') (ha : s.Absent k) : s'.Absent k := by
  intro x hx
  rw [h.key]
  exact ha x (h.linked x hx)

theorem find_some (hhash : s.HashOk) (hfind : s.find k = some e) :
    e ∈ s.cacheList ∧ (s.entries e).key.compared = k.compared := by
  constructor
  · exact (hhash e).mp (mem_of_find?_eq_some hfind)
  · simpa using find?_some hfind

/-- Where keys are unique, removing one entry of a key removes the key. -/
theorem absent_dnsCacheRemoveByDomain (hu : s.Unique) (hhash : s.HashOk) (k : CacheKey) :
    (s.dnsCacheRemoveByDomain k).Absent k := by
  rw [dnsCacheRemoveByDomain]
  split
  next e hfind =>
    obtain ⟨hmem, hkey⟩ := find_some hhash hfind
    intro x hx hxk
    have hkeeps := Calms.dnsCacheRemove s e
    rw [hkeeps.key] at hxk
    have hxe : x = e := hu x (hkeeps.linked x hx) e hmem (hxk.trans hkey.symm)
    subst hxe
    exact not_mem_dnsCacheRemove s x hx
  next hfind =>
    intro x hx hxk
    have hnone := find?_eq_none.mp hfind x ((hhash x).mpr hx)
    simp [hxk] at hnone

theorem Unique.dnsCacheInsert
    (hu : s.Unique) (ha : s.Absent k) (hnext : s.next ∉ s.cacheList) (timeout : UInt64)
    (memFull : List Bool) :
    (s.dnsCacheInsert k timeout memFull).Unique := by
  intro x hx y hy hxy
  rw [key_dnsCacheInsert, key_dnsCacheInsert] at hxy
  rcases mem_dnsCacheInsert k timeout memFull hx with hxn | hxs <;>
    rcases mem_dnsCacheInsert k timeout memFull hy with hyn | hys
  · exact hxn.trans hyn.symm
  · have hyne : y ≠ s.next := fun h => hnext (h ▸ hys)
    rw [if_pos hxn, if_neg hyne] at hxy
    exact absurd hxy.symm (ha y hys)
  · have hxne : x ≠ s.next := fun h => hnext (h ▸ hxs)
    rw [if_neg hxne, if_pos hyn] at hxy
    exact absurd hxy (ha x hxs)
  · have hxne : x ≠ s.next := fun h => hnext (h ▸ hxs)
    have hyne : y ≠ s.next := fun h => hnext (h ▸ hys)
    rw [if_neg hxne, if_neg hyne] at hxy
    exact hu x hxs y hys hxy

theorem Absent.dnsCacheInsert {k' : CacheKey} (ha : s.Absent k') (hne : k.compared ≠ k'.compared)
    (hnext : s.next ∉ s.cacheList) (timeout : UInt64) (memFull : List Bool) :
    (s.dnsCacheInsert k timeout memFull).Absent k' := by
  intro x hx
  rw [key_dnsCacheInsert]
  rcases mem_dnsCacheInsert k timeout memFull hx with hxn | hxs
  · rw [if_pos hxn]
    exact hne
  · have hxne : x ≠ s.next := fun h => hnext (h ▸ hxs)
    rw [if_neg hxne]
    exact ha x hxs

end Unique

end CacheHead
end SmartDns.Cache
