import SmartDns.Cache.Store
import SmartDns.Cache.Index

/-!
# Capacity and recency

The list is in the order of the last uses, so that the entry an insertion evicts
is the one that has not been used for the longest time.
-/

namespace SmartDns.Cache

open List CacheStore List.Sublist CacheHead

namespace CacheHead

variable {e : Nat} {s : CacheHead} {owed : Nat → ℕ}

theorem Indexed.mem_allocated_iff (h : s.Indexed owed) (ht : s.Timed) (e : Nat) :
    e ∈ s.allocated ↔ e ∈ s.cacheList ∨ 0 < owed e := by
  have hacc := h.balanced e
  rw [mem_allocated]
  constructor
  · intro hlive
    have hfrees := hacc.frees_eq hlive
    by_contra hnone
    push Not at hnone
    obtain ⟨hlist, howed⟩ := hnone
    have hlistRef : s.listRef e = 0 := if_neg hlist
    have htimerRef : s.timerRef e = 0 := if_neg (fun hpending => hlist (ht e hpending))
    rw [if_pos (by omega)] at hfrees
    exact absurd hfrees (by simp)
  · intro hused
    apply hacc.live_of_uses
    rcases hused with hlist | howed
    · rw [listRef, if_pos hlist]
      omega
    · omega

/-- The counter: the linked entries, and those that are only owed. -/
theorem Indexed.num_eq (h : s.Indexed owed) (ht : s.Timed) (owners : Finset Nat)
    (howners : ∀ e, 0 < owed e ↔ e ∈ owners) :
    s.num = s.cacheList.length + (owners \ s.cacheList.toFinset).card := by
  have hset : s.allocated = s.cacheList.toFinset ∪ (owners \ s.cacheList.toFinset) := by
    ext e
    rw [h.mem_allocated_iff ht, howners, Finset.union_sdiff_self_eq_union, Finset.mem_union,
      mem_toFinset]
  have hcard := Finset.card_union_of_disjoint
    (Finset.disjoint_sdiff (s := s.cacheList.toFinset) (t := owners))
  rw [h.num, hset, hcard, toFinset_card_of_nodup h.nodup]
  rfl

/-- An entry that is owed but not linked is counted beside those of the list. -/
theorem Indexed.length_lt_num (h : s.Indexed owed) (howed : 0 < owed e) (he : e ∉ s.cacheList) :
    (s.cacheList.length : ℤ) < s.num := by
  have hsub : insert e s.cacheList.toFinset ⊆ s.allocated := by
    intro x hx
    rw [mem_allocated]
    apply (h.balanced x).live_of_uses
    rcases Finset.mem_insert.mp hx with hxe | hmem
    · rw [hxe]
      omega
    · rw [listRef, if_pos (mem_toFinset.mp hmem)]
      omega
  have hcard := Finset.card_le_card hsub
  rw [Finset.card_insert_of_notMem (by simpa using he),
    toFinset_card_of_nodup h.nodup] at hcard
  rw [h.num]
  omega

/-- The eviction makes room for one entry: either one is taken out, or the counter,
which counts the new entry too, is within the size. -/
theorem Indexed.room
    (h : s.Indexed owed) (howed : 0 < owed e) (he : e ∉ s.cacheList) (hsize : 0 < s.size)
    (hlen : (s.cacheList.length : ℤ) ≤ s.size) (turns : Nat) (memFull : List Bool) :
    ((evict (turns + 1) memFull s).cacheList.length : ℤ) + 1 ≤ s.size := by
  rw [evict]
  split
  · split
    next hlist =>
      rw [hlist, length_nil]
      omega
    next first rest hlist =>
    obtain ⟨n, hn⟩ := cacheList_evict turns memFull.tail
      (h.balanced.dnsCacheRemove first) (h.dnsCacheRemove first).nodup
    have hevicted : (evict turns memFull.tail
        (s.dnsCacheRemove first)).cacheList.length ≤ rest.length := by
      rw [hn, cacheList_dnsCacheRemove_first h.balanced h.nodup hlist, length_drop]
      omega
    rw [hlist, length_cons] at hlen
    omega
  next hfits =>
    have hcounted := h.length_lt_num howed he
    omega

/-- The key of the new entry, and of the others, after the second section of an
insertion. -/
theorem entryKey_dnsCacheInsert
    (s : CacheHead) (k : CacheKey) (timeout : UInt64) (memFull : List Bool) (x : Nat) :
    ((s.dnsCacheInsert k timeout memFull).entries x).key
      = if x = s.next then k else (s.entries x).key := by
  have hevicted :=
    (touches_evict (s := s.allocate k timeout) (fun _ => 0) 33 memFull).sameKeys.key x
  have hget : SameKeys ((evict 33 memFull (s.allocate k timeout)).link s.next)
      (((evict 33 memFull (s.allocate k timeout)).link s.next).dnsCacheGet s.next) :=
    SameKeys.modify rfl
  have hadd : SameKeys ((evict 33 memFull (s.allocate k timeout)).link s.next)
      (s.dnsCacheInsert k timeout memFull) := by
    rw [dnsCacheInsert]
    exact hget.trans (SameKeys.modify rfl)
  rw [hadd.key x]
  refine Eq.trans hevicted ?_
  by_cases hx : x = s.next
  · simp [allocate, hx]
  · simp [allocate, hx]

theorem cacheList_dnsCacheInsert
    (s : CacheHead) (k : CacheKey) (timeout : UInt64) (memFull : List Bool) :
    (s.dnsCacheInsert k timeout memFull).cacheList
      = (evict 33 memFull (s.allocate k timeout)).cacheList ++ [s.next] := by
  rfl

end CacheHead

namespace CacheStore

open CacheHead

variable {hash : CacheKey → Nat} {n : ℤ} {e : Nat} {k : CacheKey}
  {work : CacheHead → Nat → CacheHead}

/-- What the completed operations keep. -/
structure Consistent (hash : CacheKey → Nat) (n : ℤ) (s : CacheStore) : Prop where
  indexed : s.head.Indexed (fun e => s.held.count e)
  timed : s.head.Timed
  bucket : ∀ e ∈ s.head.cacheList, s.bucket e = hash (s.head.entries e).key
  capacity : (s.head.cacheList.length : ℤ) ≤ n
  size : s.head.size = n

section Steps

variable {s : CacheStore}

theorem mem_bucketList {b : Nat} (hperm : s.head.cacheHash.Perm s.head.cacheList) :
    e ∈ s.bucketList b ↔ e ∈ s.head.cacheList ∧ s.bucket e = b := by
  rw [bucketList, mem_filter, hperm.mem_iff, decide_eq_true_iff]

theorem find_linked (h : Consistent hash n s) (hfind : s.find hash k = some e) :
    e ∈ s.head.cacheList ∧ (s.head.entries e).key.compared = k.compared := by
  constructor
  · exact ((mem_bucketList h.indexed.perm).mp (mem_of_find?_eq_some hfind)).1
  · simpa using find?_some hfind

theorem Consistent.of_head (h : Consistent hash n s) {head : CacheHead} {held : List Nat}
    (hindexed : head.Indexed (fun e => held.count e)) (htimed : head.Timed)
    (hkeys : SameKeys s.head head) (hlinked : ∀ x ∈ head.cacheList, x ∈ s.head.cacheList) :
    Consistent hash n { s with head := head, held := held } := by
  constructor
  · exact hindexed
  · exact htimed
  · intro e he
    rw [hkeys.key]
    exact h.bucket e (hlinked e he)
  · have hle := (hindexed.nodup.subperm hlinked).length_le
    have hcap := h.capacity
    dsimp only
    omega
  · rw [← h.size]
    exact hkeys.size

theorem count_cons_eq (held : List Nat) (e : Nat) :
    (fun x => (e :: held).count x) = oneMore (fun x => held.count x) e := by
  funext x
  by_cases hx : x = e
  · simp [hx]
  · simp [hx, count_cons_of_ne (Ne.symm hx)]

theorem count_erase_eq {held : List Nat} (hmem : e ∈ held) :
    (fun x => held.count x) = oneMore (fun x => (held.erase e).count x) e := by
  rw [← count_cons_eq]
  funext x
  exact (perm_cons_erase hmem).count_eq x

section

variable (h : Consistent hash n s)
include h

/-- What a call does that neither makes an entry nor writes a key. -/
theorem Consistent.touched {head : CacheHead} {held : List Nat}
    (ht : Touches True True False (s.head, fun e => s.held.count e) (head, fun e => held.count e)) :
    Consistent hash n { s with head := head, held := held } :=
  h.of_head (ht.any.indexed h.indexed) (ht.any.timed h.indexed.balanced h.timed) ht.sameKeys
    ht.keeps.linked

theorem Consistent.lookup (hfind : s.find hash k = some e) :
    Consistent hash n { s with head := s.head.dnsCacheGet e, held := e :: s.held } := by
  refine h.touched ?_
  rw [count_cons_eq]
  exact .single (.get (find_linked h hfind).1)

theorem Consistent.release (hmem : e ∈ s.held) :
    Consistent hash n { s with head := s.head.dnsCacheRelease e, held := s.held.erase e } := by
  refine h.touched ?_
  rw [count_erase_eq hmem]
  exact .single .release

theorem Consistent.remove (e : Nat) :
    Consistent hash n { s with head := s.head.dnsCacheRemove e } :=
  h.touched (.single (.remove e))

/-- A call holds a reference to the entry it has looked up while it works on it. -/
theorem touches_found {moves : Prop} (hfind : s.find hash k = some e)
    (hwork : ∀ {head : CacheHead} owed, (head.entries e).key.compared = k.compared →
      Touches True moves False (head, owed) (work head e, owed)) (owed : Nat → ℕ) :
    Touches True moves False (s.head, owed)
      ((work (s.head.dnsCacheGet e) e).dnsCacheRelease e, owed) := by
  obtain ⟨hmem, hkey⟩ := find_linked h hfind
  refine .head (.get hmem) (.tail (hwork _ ?_) .release)
  simpa [dnsCacheGet] using hkey

theorem Consistent.withFound
    (hwork : ∀ {head : CacheHead} {e} owed, (head.entries e).key.compared = k.compared →
      Touches True True False (head, owed) (work head e, owed)) :
    Consistent hash n (s.withFound hash k work) := by
  rw [CacheStore.withFound]
  split
  next e hfind => exact h.touched (touches_found h hfind hwork _)
  next => exact h

end

theorem touches_expired {moves : Prop} (s : CacheHead) (e : Nat) (act : TmoutAction)
    (owed : Nat → ℕ) :
    Touches True moves False (s.detachTimer e, oneMore owed e)
      ((s.detachTimer e).dnsCacheExpired e act, owed) := by
  have hmod : ∀ timeout, Touches True moves False (s.detachTimer e, oneMore owed e)
      ((s.detachTimer e).expiredMod e timeout, owed) := by
    intro timeout
    have hoff : ((s.detachTimer e).dnsTimerMod e timeout).2 = false := by
      simp [dnsTimerMod, detachTimer]
    rw [expiredMod]
    dsimp only
    rw [hoff]
    exact .head (touch_timerMod _ timeout) (.single .release)
  cases act with
  | ok => exact .single .release
  | del => exact .head (.remove e) (.single .release)
  | retry => exact hmod failTimeout
  | update => exact hmod _

section

variable (h : Consistent hash n s)
include h

theorem Consistent.expire (hpending : (s.head.entries e).timerPending = true) (act : TmoutAction) :
    Consistent hash n { s with head := (s.head.detachTimer e).dnsCacheExpired e act } := by
  have hindexed := h.indexed.detachTimer hpending
  have htimed : (s.head.detachTimer e).Timed := h.timed.modify nofun
  have hkeys : SameKeys s.head (s.head.detachTimer e) := SameKeys.modify rfl
  have ht : Touches True True False _ (_, fun x => s.held.count x) := touches_expired s.head e act _
  exact h.of_head (ht.any.indexed hindexed) (ht.any.timed hindexed.balanced htimed)
    (hkeys.trans ht.sameKeys) ht.keeps.linked

theorem Consistent.removeByDomain (k : CacheKey) :
    Consistent hash n (s.dnsCacheRemoveByDomain hash k) := by
  rw [dnsCacheRemoveByDomain]
  split
  · exact h.remove _
  · exact h

theorem Consistent.link (hn : 0 < n) (k : CacheKey) (timeout : UInt64) (memFull : List Bool) :
    Consistent hash n { s with
        head := s.head.dnsCacheInsert k timeout memFull
        bucket := Function.update s.bucket s.head.next (hash k) } := by
  have hfresh : s.head.next ∉ s.head.cacheList := fun hmem => lt_irrefl _ (h.indexed.bound hmem)
  constructor
  · exact h.indexed.dnsCacheInsert k timeout memFull
  · exact h.timed.dnsCacheInsert h.indexed k timeout memFull
  · intro e he
    rw [entryKey_dnsCacheInsert]
    by_cases hnew : e = s.head.next
    · rw [if_pos hnew, hnew]
      exact Function.update_self _ _ _
    rw [if_neg hnew]
    have hold := (mem_dnsCacheInsert k timeout memFull he).resolve_left hnew
    exact (Function.update_of_ne hnew _ _).trans (h.bucket e hold)
  · have hroom := (h.indexed.allocate k timeout).room (e := s.head.next) (by simp) hfresh
      (by rw [← h.size] at hn; exact hn) (by rw [← h.size] at h; exact h.capacity) 32 memFull
    dsimp only
    rw [cacheList_dnsCacheInsert, length_append, length_singleton, ← h.size]
    push_cast
    exact hroom
  · rw [← h.size]
    exact (touches_evict (s := s.head.allocate k timeout) (fun _ => 0) 33 memFull).sameKeys.size

theorem Consistent.insert (hn : 0 < n) (k : CacheKey) (timeout : UInt64) (alloc : Bool)
    (memFull : List Bool) :
    Consistent hash n (s.dnsCacheInsert hash k timeout alloc memFull) := by
  have hremoved := h.removeByDomain k
  rw [dnsCacheInsert]
  split
  · exact hremoved.link hn k timeout memFull
  · exact hremoved

theorem Consistent.perform (hn : 0 < n) (op : Operation) :
    Consistent hash n (s.perform hash op) := by
  cases op with
  | lookup k =>
    simp only [CacheStore.perform]
    split
    · exact h
    split
    next e hfind => exact h.lookup hfind
    next => exact h
  | release e =>
    simp only [CacheStore.perform]
    split
    next hmem => exact h.release hmem
    next => exact h
  | update e =>
    simp only [CacheStore.perform]
    split
    · exact h.touched (touches_update _)
    · exact h
  | delete e =>
    simp only [CacheStore.perform]
    split
    · exact h.remove e
    · exact h
  | flush => exact h.touched (touches_flush _)
  | insert k timeout alloc memFull =>
    simp only [CacheStore.perform]
    split
    · exact h
    · exact h.insert hn k.copied timeout alloc memFull
  | replace k timeout =>
    simp only [CacheStore.perform]
    split
    · exact h
    · exact h.withFound fun _ hkey => touches_replace _ (.inl hkey) timeout
  | updateTimer k timeout =>
    simp only [CacheStore.perform]
    exact h.withFound fun _ _ => touches_updateTimer _ timeout
  | tick =>
    obtain ⟨⟨hbalanced, hperm, hnodup, hnum⟩, htimed, hbucket, hcapacity, hsize⟩ := h
    exact ⟨⟨hbalanced, hperm, hnodup, hnum⟩, htimed, hbucket, hcapacity, hsize⟩
  | expire e act =>
    simp only [CacheStore.perform]
    split
    next hpending => exact h.expire hpending act
    next => exact h

end

theorem indexed_init (size memSize : ℤ) (jiffies : UInt64) :
    (init size memSize jiffies).head.Indexed
      (fun e => (init size memSize jiffies).held.count e) := by
  constructor
  · intro e
    exact ⟨fun hlive => absurd hlive.1 (Nat.not_lt_zero e),
      fun hlive => absurd hlive.1 (Nat.not_lt_zero e), fun _ => rfl, fun _ => rfl⟩
  · exact List.Perm.refl _
  · exact nodup_nil
  · rfl

theorem consistent_init {size memSize : ℤ} (hn : 0 < initSize size memSize) (jiffies : UInt64) :
    Consistent hash (initSize size memSize) (init size memSize jiffies) := by
  constructor
  · exact indexed_init size memSize jiffies
  · exact fun e hpending => absurd hpending (by simp [init, CacheSystem.init])
  · exact fun e he => absurd he (not_mem_nil)
  · exact hn.le
  · rfl

end Steps

section Recency

/-- The last use of every entry, as a position in the run. -/
structure Uses where
  last : Nat → Nat
  clock : Nat

/-- The entry an operation uses: one that it makes, replaces or brings to the back. -/
def used (hash : CacheKey → Nat) (s : CacheStore) : Operation → Option Nat
  | .update e => if e ∈ s.held ∧ e ∈ s.head.cacheList then some e else none
  | .insert _ _ alloc _ => if 0 < s.head.size ∧ alloc then some s.head.next else none
  | .replace k _ => if 0 < s.head.size then s.find hash k else none
  | _ => none

/-- One more position of the run, at which an entry may be used. -/
def Uses.next (u : Uses) : Option Nat → Uses
  | some e => { last := Function.update u.last e u.clock, clock := u.clock + 1 }
  | none => { u with clock := u.clock + 1 }

def observeUses (hash : CacheKey → Nat) (s : CacheStore) (op : Operation) (u : Uses) : Uses :=
  u.next (s.used hash op)

/-- The list is in the order of the last uses. -/
structure Recent (u : Uses) (l : List Nat) : Prop where
  sorted : l.Pairwise fun x y => u.last x < u.last y
  past : ∀ x ∈ l, u.last x < u.clock

/-- What an operation that uses `e` does to the list. -/
def Moves (l l' : List Nat) : Option Nat → Prop
  | none => l'.Sublist l
  | some e => ∃ front, front.Sublist l ∧ e ∉ front ∧ l' = front ++ [e]

variable {s : CacheStore} {u : Uses}

theorem Recent.next
    {l l' : List Nat} (h : Recent u l) {use : Option Nat} (hmoves : Moves l l' use) :
    Recent (u.next use) l' := by
  cases use with
  | none =>
    constructor
    · exact h.sorted.sublist hmoves
    · exact fun x hx => (h.past x (hmoves.subset hx)).trans (Nat.lt_succ_self _)
  | some e =>
  obtain ⟨front, hfront, he, rfl⟩ := hmoves
  have hself : (u.next (some e)).last e = u.clock := Function.update_self _ _ _
  have hsame : ∀ x ∈ front, (u.next (some e)).last x = u.last x := by
    intro x hx
    have hxe : x ≠ e := fun hxe => he (hxe ▸ hx)
    exact Function.update_of_ne hxe _ _
  constructor
  · refine pairwise_append.mpr ⟨?_, pairwise_singleton _ _, ?_⟩
    · refine (h.sorted.sublist hfront).imp_of_mem ?_
      intro x y hx hy hxy
      rwa [hsame x hx, hsame y hy]
    intro x hx y hy
    rw [mem_singleton.mp hy, hsame x hx, hself]
    exact h.past x (hfront.subset hx)
  · intro x hx
    rcases mem_append.mp hx with hold | hnew
    · rw [hsame x hold]
      exact (h.past x (hfront.subset hold)).trans (Nat.lt_succ_self _)
    · rw [mem_singleton.mp hnew, hself]
      exact Nat.lt_succ_self _

theorem moves_moveToTail {l : List Nat} (e : Nat) :
    Moves l (l.filter (fun x => x ≠ e) ++ [e]) (some e) := by
  refine ⟨l.filter (fun x => x ≠ e), filter_sublist, ?_, rfl⟩
  simp

theorem sublist_removeByDomain (h : Consistent hash n s) (k : CacheKey) :
    (s.dnsCacheRemoveByDomain hash k).head.cacheList.Sublist s.head.cacheList := by
  rw [dnsCacheRemoveByDomain]
  split
  · rw [cacheList_dnsCacheRemove h.indexed.balanced]
    exact filter_sublist
  · exact refl _

theorem next_removeByDomain (s : CacheStore) (k : CacheKey) :
    (s.dnsCacheRemoveByDomain hash k).head.next = s.head.next := by
  rw [dnsCacheRemoveByDomain]
  split
  · exact (SameKeys.dnsCacheRemove _ _).next
  · rfl

section

variable (h : Consistent hash n s)
include h

theorem moves_insert (k : CacheKey) (timeout : UInt64) (memFull : List Bool) :
    Moves s.head.cacheList (s.dnsCacheInsert hash k timeout true memFull).head.cacheList
      (some s.head.next) := by
  have hremoved := (h.removeByDomain k).indexed
  have hsub := sublist_removeByDomain h k
  obtain ⟨m, hm⟩ := cacheList_evict 33 memFull (hremoved.allocate k timeout).balanced
    (hremoved.allocate k timeout).nodup
  refine ⟨(s.dnsCacheRemoveByDomain hash k).head.cacheList.drop m,
    (drop_sublist _ _).trans hsub, ?_, ?_⟩
  · intro hmem
    exact lt_irrefl _ (h.indexed.bound (hsub.subset (mem_of_mem_drop hmem)))
  rw [dnsCacheInsert, if_pos rfl]
  dsimp only
  rw [cacheList_dnsCacheInsert, hm, next_removeByDomain]
  rfl

theorem moves_replace (k : CacheKey) (timeout : UInt64) :
    Moves s.head.cacheList
      (s.withFound hash k fun head e => head.dnsCacheReplace e k timeout).head.cacheList
      (s.find hash k) := by
  cases hfind : s.find hash k with
  | none =>
    rw [withFound, hfind]
    exact refl _
  | some e =>
  have hmem := (find_linked h hfind).1
  have hworked : ((s.head.dnsCacheGet e).dnsCacheReplace e k timeout).Balanced _ _ :=
    Touches.balanced (.head (.get hmem) (touches_replace _ (.inr trivial) timeout))
      h.indexed.balanced
  rw [withFound, hfind]
  dsimp only
  rw [cacheList_dnsCacheRelease hworked, dnsCacheReplace, if_pos (by exact hmem),
    rearm]
  dsimp only
  split
  · exact moves_moveToTail e
  · exact moves_moveToTail e

theorem sublist_updateTimer (k : CacheKey) (timeout : UInt64) :
    (s.withFound hash k fun head e => head.dnsCacheUpdateTimer e timeout).head.cacheList.Sublist
      s.head.cacheList := by
  rw [withFound]
  split
  next e hfind =>
    have ht := @touches_found hash n e k (fun head e => head.dnsCacheUpdateTimer e timeout) s h
      False hfind (fun _ _ => touches_updateTimer _ timeout) fun x => s.held.count x
    exact ht.sublist h.indexed.balanced
  next => exact refl _

/-- Every operation takes entries out of the list, and brings to its back what it uses. -/
theorem moves_perform (op : Operation) :
    Moves s.head.cacheList (s.perform hash op).head.cacheList (s.used hash op) := by
  cases op with
  | lookup k =>
    simp only [perform, used]
    split
    · exact refl _
    split
    · exact refl _
    · exact refl _
  | release e =>
    simp only [perform, used]
    split
    next hmem =>
      have hindexed := h.indexed
      rw [count_erase_eq hmem] at hindexed
      rw [cacheList_dnsCacheRelease hindexed.balanced]
      exact refl _
    next => exact refl _
  | update e =>
    simp only [perform, used]
    by_cases hheld : e ∈ s.held
    · by_cases hmem : e ∈ s.head.cacheList
      · rw [if_pos hheld, if_pos ⟨hheld, hmem⟩]
        rw [dnsCacheUpdate, if_pos hmem]
        exact moves_moveToTail e
      rw [if_pos hheld, if_neg (fun hboth => hmem hboth.2)]
      rw [dnsCacheUpdate, if_neg hmem]
      exact refl _
    · rw [if_neg hheld, if_neg (fun hboth => hheld hboth.1)]
      exact refl _
  | delete e =>
    simp only [perform, used]
    split
    · rw [cacheList_dnsCacheRemove h.indexed.balanced]
      exact filter_sublist
    · exact refl _
  | flush => exact (touches_flush _).sublist h.indexed.balanced
  | insert k timeout alloc memFull =>
    simp only [perform, used]
    by_cases hsize : s.head.size ≤ 0
    · rw [if_pos hsize, if_neg (fun hboth => absurd hboth.1 (not_lt.mpr hsize))]
      exact refl _
    rw [if_neg hsize]
    cases alloc with
    | true =>
      rw [if_pos ⟨not_le.mp hsize, rfl⟩]
      exact moves_insert h k.copied timeout memFull
    | false =>
      rw [if_neg (fun hboth => absurd hboth.2 (by simp))]
      exact sublist_removeByDomain h k.copied
  | replace k timeout =>
    simp only [perform, used]
    by_cases hsize : s.head.size ≤ 0
    · rw [if_pos hsize, if_neg (not_lt.mpr hsize)]
      exact refl _
    · rw [if_neg hsize, if_pos (not_le.mp hsize)]
      exact moves_replace h k timeout
  | updateTimer k timeout => exact sublist_updateTimer h k timeout
  | tick => exact refl _
  | expire e act =>
    simp only [perform, used]
    split
    next hpending =>
      exact (touches_expired s.head e act _).sublist (h.indexed.detachTimer hpending).balanced
    next => exact refl _

end

/-- The consistent cache whose list is in the order of the last uses. -/
structure Kept (hash : CacheKey → Nat) (n : ℤ) (s : CacheStore) (u : Uses) : Prop
    extends Consistent hash n s where
  recent : Recent u s.head.cacheList

theorem Kept.perform (h : Kept hash n s u) (hn : 0 < n) (op : Operation) :
    Kept hash n (s.perform hash op) (s.observeUses hash op u) := by
  constructor
  · exact h.toConsistent.perform hn op
  · exact h.recent.next (moves_perform h.toConsistent op)

end Recency

section Full

variable {s : CacheStore}

theorem Consistent.num_eq (h : Consistent hash n s) :
    s.head.num = s.head.cacheList.length + (s.held.toFinset \ s.head.cacheList.toFinset).card := by
  refine h.indexed.num_eq h.timed s.held.toFinset ?_
  intro e
  rw [count_pos_iff, mem_toFinset]

/-- One turn of the eviction suffices where every entry that is owed to somebody, apart
from the new one, stays linked. -/
theorem evict_once
    {s : CacheHead} {owed : Nat → ℕ} (h : s.Indexed owed) (ht : s.Timed) {new first : Nat}
    {rest : List Nat} (hlist : s.cacheList = first :: rest) (hnew : new ∉ s.cacheList)
    (hown : 0 < owed new) (howed : ∀ e, 0 < owed e → e = new ∨ e ∈ rest)
    (hsize : s.size = s.cacheList.length) (turns : Nat) {memFull : List Bool}
    (hmem : ∀ b ∈ memFull, b = false) :
    (evict (turns + 1) memFull s).cacheList = rest := by
  have hfull : s.size < s.num := by
    rw [hsize]
    exact h.length_lt_num hown hnew
  have hremoved := cacheList_dnsCacheRemove_first h.balanced h.nodup hlist
  -- the first entry is freed with its removal, and the counter is within the size again
  have hfits : (s.dnsCacheRemove first).num ≤ (s.dnsCacheRemove first).size := by
    have hsub : (s.dnsCacheRemove first).allocated ⊆ insert new rest.toFinset := by
      intro e he
      rw [(h.dnsCacheRemove first).mem_allocated_iff (ht.dnsCacheRemove h.balanced first),
        hremoved] at he
      rw [Finset.mem_insert, mem_toFinset]
      rcases he with hrest | hpos
      · exact .inr hrest
      · exact howed e hpos
    have hcard := (Finset.card_le_card hsub).trans (Finset.card_insert_le _ _)
    have hrest := toFinset_card_le rest
    rw [(h.dnsCacheRemove first).num, (SameKeys.dnsCacheRemove s first).size, hsize, hlist,
      length_cons]
    omega
  have hmemTail : memFull.tail.headD false = false := by
    cases htail : memFull.tail with
    | nil => rfl
    | cons b bs =>
      have hb : b ∈ memFull := mem_of_mem_tail (by rw [htail]; simp)
      exact hmem b hb
  rw [evict, if_pos (.inr hfull), hlist]
  dsimp only
  cases turns with
  | zero => exact hremoved
  | succ turns =>
  rw [evict, if_neg]
  · exact hremoved
  rintro (hover | hover)
  · rw [hmemTail] at hover
    exact absurd hover (by simp)
  · omega

theorem Consistent.insert_full (h : Consistent hash n s) (hnone : s.find hash k = none)
    (hfull : (s.head.cacheList.length : ℤ) = n) {first : Nat} {rest : List Nat}
    (hlist : s.head.cacheList = first :: rest) (hheld : ∀ e ∈ s.held, e ∈ rest) (timeout : UInt64)
    {memFull : List Bool} (hmem : ∀ b ∈ memFull, b = false) :
    (s.dnsCacheInsert hash k timeout true memFull).head.cacheList = rest ++ [s.head.next] := by
  have hfresh : s.head.next ∉ s.head.cacheList := fun hmem => lt_irrefl _ (h.indexed.bound hmem)
  have hkept : s.dnsCacheRemoveByDomain hash k = s := by
    rw [dnsCacheRemoveByDomain, hnone]
  have howed : 0 < oneMore (fun e => s.held.count e) s.head.next s.head.next := by simp
  have hevicted := evict_once (h.indexed.allocate k timeout)
    (h.timed.allocate k timeout) hlist hfresh howed ?_ ?_ 32 hmem
  · rw [dnsCacheInsert, if_pos rfl, hkept]
    rw [cacheList_dnsCacheInsert, hevicted]
  · intro e hpos
    by_cases he : e = s.head.next
    · exact .inl he
    · rw [oneMore_of_ne _ he, count_pos_iff] at hpos
      exact .inr (hheld e hpos)
  · exact h.size.trans hfull.symm

end Full

section Runs

/--
**Capacity and index.**  After every sequence of completed operations on a cache whose
size `n` is positive, the configured one or `INT32_MAX` when there is a memory limit:
the list holds at most `n` entries, each once; an entry is in the list exactly when it
is in the bucket of its key, and it is in no other bucket; the counter is the length of
the list and the number of removed entries that callers still hold; and an insertion of
a new key into a full cache, of which only linked entries other than the least recently
used one are held, unlinks exactly that one.
-/
theorem capacity_and_index
    (hash : CacheKey → Nat) {size memSize : ℤ} (hn : 0 < initSize size memSize) (jiffies : UInt64)
    (ops : List Operation) :
    let n := initSize size memSize
    let s := run (perform hash) (init size memSize jiffies) ops
    let u := observed (perform hash) (observeUses hash) (init size memSize jiffies)
      ⟨fun _ => 0, 0⟩ ops
    (s.head.cacheList.length : ℤ) ≤ n ∧ s.head.cacheList.Nodup ∧
      (∀ e, e ∈ s.head.cacheList ↔ e ∈ s.bucketList (hash (s.head.entries e).key)) ∧
      (∀ e b, e ∈ s.bucketList b → b = hash (s.head.entries e).key) ∧
      s.head.num = s.head.cacheList.length + (s.held.toFinset \ s.head.cacheList.toFinset).card ∧
      ∀ first rest, s.head.cacheList = first :: rest → (∀ e ∈ rest, u.last first < u.last e) ∧
          ((s.head.cacheList.length : ℤ) = n → (∀ e ∈ s.held, e ∈ rest) →
            ∀ k timeout memFull, s.find hash k.copied = none → (∀ b ∈ memFull, b = false) →
              (s.perform hash (.insert k timeout true memFull)).head.cacheList
                = rest ++ [s.head.next]) := by
  intro n s u
  have hkept : Kept hash n s u := by
    refine observed_invariant (perform hash) (observeUses hash) (Kept hash n)
      (fun _ _ op h _ => h.perform hn op) ?_ (admissible_true _ _ ops)
    exact ⟨consistent_init hn jiffies, List.Pairwise.nil, fun x hx => absurd hx (not_mem_nil)⟩
  have hperm := hkept.indexed.perm
  refine ⟨hkept.capacity, hkept.indexed.nodup, ?_, ?_, hkept.num_eq, ?_⟩
  · intro e
    rw [mem_bucketList hperm]
    exact ⟨fun he => ⟨he, hkept.bucket e he⟩, fun he => he.1⟩
  · intro e b he
    obtain ⟨hmem, hb⟩ := (mem_bucketList hperm).mp he
    rw [← hb]
    exact hkept.bucket e hmem
  · intro first rest hlist
    have hsorted := hkept.recent.sorted
    rw [hlist, pairwise_cons] at hsorted
    refine ⟨hsorted.1, ?_⟩
    intro hfull hheld k timeout memFull hnone hmem
    have hsize : ¬ s.head.size ≤ 0 := by
      rw [hkept.size]
      omega
    rw [perform, if_neg hsize]
    exact hkept.toConsistent.insert_full hnone hfull hlist hheld timeout hmem

/-- A key of the examples, told apart by its query type. -/
def typedKey (qtype : Nat) : CacheKey :=
  ⟨CStr.ofString "a.example", qtype, CStr.ofString "default", 0⟩

/-- Of two entries the first was used last, and the second is evicted. -/
theorem capacity_and_index_two :
    let s := run (perform fun _ => 0) (init 2 0 0)
      [.insert (typedKey 1) 60 true [], .insert (typedKey 28) 60 true [], .replace (typedKey 1) 60]
    s.head.cacheList = [1, 0] ∧
      (s.perform (fun _ => 0) (.insert (typedKey 65) 60 true [])).head.cacheList = [0, 2] := by
  have hlist : (run (perform fun _ => 0) (init 2 0 0)
      [.insert (typedKey 1) 60 true [], .insert (typedKey 28) 60 true [],
        .replace (typedKey 1) 60]).head.cacheList = [1, 0] := by decide
  refine ⟨hlist, ?_⟩
  have h := @capacity_and_index (fun _ => 0) 2 0 (by decide) 0
    [.insert (typedKey 1) 60 true [], .insert (typedKey 28) 60 true [], .replace (typedKey 1) 60]
  obtain ⟨-, -, -, -, -, hfirst⟩ := h
  refine (hfirst 1 [0] hlist).2 ?_ ?_ (typedKey 65) 60 [] ?_ ?_
  · rw [hlist]
    rfl
  · decide
  · decide
  · decide

/-- An entry that a caller holds is counted after its removal, and an insertion into a
full cache that replaces the entry of its key leaves the least recently used one. -/
theorem counter_exceeds_list :
    (let s := run (perform fun _ => 0) (init 2 0 0)
        [.insert (typedKey 1) 60 true [], .lookup (typedKey 1), .insert (typedKey 1) 60 true []]
     s.head.num = 2 ∧ s.head.cacheList = [1]) ∧
    (let s := run (perform fun _ => 0) (init 2 0 0)
        [.insert (typedKey 1) 60 true [], .insert (typedKey 28) 60 true []]
     s.head.cacheList = [0, 1] ∧
        (s.perform (fun _ => 0) (.insert (typedKey 28) 60 true [])).head.cacheList = [0, 2]) := by
  constructor
  · decide
  · decide

end Runs

end CacheStore

end SmartDns.Cache
