import SmartDns.Lib.Bytes

/-!
# The addresses of a reply

`_dns_rrs_add_all_best_ip` goes through the table of addresses that the servers
have answered with and adds those that answer about as fast as the first one.  If
there is none it goes through the table again, for the addresses that most servers
have answered with.  A request that is passed through begins with the second pass,
so that the maximum of the hits is not known yet and the order of the table matters.
-/

namespace SmartDns.Server

open List

/-- `struct dns_ip_address`. -/
structure IpAddress where
  addrType : Nat
  ipAddr : Bytes
  hitnum : Nat
  pingTime : Int
deriving DecidableEq

/-- `request->ip_map`: `_dns_ip_address_check_add` enters an address once. -/
structure IpMap where
  entries : List IpAddress
  once : (entries.map fun e => (e.addrType, e.ipAddr)).Nodup

/-- What is read of the request and its context. -/
structure BestIpRequest where
  qtype : Nat
  hasIp : Bool
  ipAddr : Bytes
  pingTime : Int
  passthrough : Nat
  selectAllBestIp : Bool
  dnsMaxReplyIpNum : Nat

/-- The number of addresses, the most hits so far and the addresses that were added. -/
structure Selection where
  ipNum : Nat
  maxhit : Nat
  added : List Bytes

namespace BestIpRequest

variable (r : BestIpRequest)

def nothing : Bool :=
  !r.selectAllBestIp || r.dnsMaxReplyIpNum ≤ r.hasIp.toNat

/-- An address of the type asked for that is not `added_ip_addr`. -/
def candidate (e : IpAddress) : Bool :=
  r.qtype = e.addrType && !(r.hasIp && e.ipAddr = r.ipAddr)

/-- The address answers about as fast as the first one. -/
def fast (e : IpAddress) : Bool :=
  0 ≤ e.pingTime &&
    !(50 ≤ e.pingTime - r.pingTime && r.pingTime + r.pingTime.tdiv 10 + 5 < e.pingTime &&
      100 ≤ e.pingTime)

/-- The tests of the loop: for the speed, or for the hits. -/
def takes (ignoreSpeed : Bool) (maxhit : Nat) (e : IpAddress) : Bool :=
  if ignoreSpeed then maxhit ≤ e.hitnum else r.fast e

def visit (ignoreSpeed : Bool) (s : Selection) (e : IpAddress) : Selection :=
  if r.dnsMaxReplyIpNum ≤ s.ipNum then s
  else
    let maxhit := max s.maxhit e.hitnum
    if r.takes ignoreSpeed maxhit e then ⟨s.ipNum + 1, maxhit, s.added ++ [e.ipAddr]⟩
    else { s with maxhit := maxhit }

/-- `_dns_rrs_add_all_best_ip`.  The loops pass over what is no candidate. -/
def dnsRrsAddAllBestIp (entries : List IpAddress) : List Bytes :=
  let candidates := entries.filter r.candidate
  if r.nothing then []
  else
    let first := candidates.foldl (r.visit (r.passthrough = 2)) ⟨r.hasIp.toNat, 0, []⟩
    if first.ipNum = 0 ∧ r.passthrough ≠ 2 then (candidates.foldl (r.visit true) first).added
    else first.added

/-- An address of the list that none has more hits than. -/
def mostHit (candidates : List IpAddress) (e : IpAddress) : Bool :=
  candidates.all fun e' => e'.hitnum ≤ e.hitnum

/-- The addresses that qualify: the fast ones, or else those with the most hits. -/
def qualifying (entries : List IpAddress) : List IpAddress :=
  let candidates := entries.filter r.candidate
  let fast := candidates.filter r.fast
  if r.passthrough = 2 ∨ r.hasIp = false ∧ fast = [] then candidates.filter (mostHit candidates)
  else fast

/-- No candidate has more hits than another one. -/
def EqualHits (entries : List IpAddress) : Prop :=
  ∀ e ∈ entries.filter r.candidate, ∀ e' ∈ entries.filter r.candidate, e.hitnum = e'.hitnum

/-- The set that is added is the same for every order of the table, has no address twice
and not the first one. -/
def Stable (table : IpMap) : Prop :=
  ∀ entries, entries.Perm table.entries →
    (∀ a, a ∈ r.dnsRrsAddAllBestIp entries ↔ a ∈ r.dnsRrsAddAllBestIp table.entries) ∧
      (r.dnsRrsAddAllBestIp entries).Nodup ∧
      (r.hasIp = true → r.ipAddr ∉ r.dnsRrsAddAllBestIp entries)

variable {r} {l entries : List IpAddress} {s : Selection} {ignoreSpeed : Bool} {table : IpMap}

/-- A pass that decides about each candidate by `keep`, whatever maximum it has seen:
`known` holds of the maximum along the way. -/
theorem foldl_visit {keep : IpAddress → Bool} {known : Nat → Prop}
    (hkeep : ∀ e ∈ l, ∀ m, known m → known (max m e.hitnum) ∧
      r.takes ignoreSpeed (max m e.hitnum) e = keep e)
    (hknown : known s.maxhit) (hroom : s.ipNum + (l.filter keep).length ≤ r.dnsMaxReplyIpNum) :
    ∃ m, l.foldl (r.visit ignoreSpeed) s =
        ⟨s.ipNum + (l.filter keep).length, m, s.added ++ (l.filter keep).map fun e => e.ipAddr⟩ ∧
      known m ∧ s.maxhit ≤ m ∧
      (s.ipNum + (l.filter keep).length < r.dnsMaxReplyIpNum → ∀ e ∈ l, e.hitnum ≤ m) := by
  induction l generalizing s with
  | nil => exact ⟨s.maxhit, by simp, hknown, le_rfl, by simp⟩
  | cons e l ih =>
  obtain ⟨hthis, hrest⟩ := forall_mem_cons.mp hkeep
  obtain ⟨hnext, hdecides⟩ := hthis s.maxhit hknown
  rw [foldl_cons, visit]
  dsimp only
  rw [hdecides]
  cases hk : keep e with
  | true =>
    simp only [filter_cons, hk, if_true, length_cons] at hroom ⊢
    rw [if_neg (by omega)]
    obtain ⟨m, heq, hm, hle, hall⟩ :=
      @ih ⟨s.ipNum + 1, max s.maxhit e.hitnum, s.added ++ [e.ipAddr]⟩ hrest hnext
        (by dsimp only; omega)
    refine ⟨m, ?_, hm, (le_max_left _ _).trans hle, fun hlt => forall_mem_cons.mpr
      ⟨(le_max_right _ _).trans hle, hall (by dsimp only; omega)⟩⟩
    rw [heq]
    simp only [map_cons, append_assoc, singleton_append, Selection.mk.injEq, and_true]
    omega
  | false =>
  simp only [filter_cons, hk, Bool.false_eq_true, if_false] at hroom ⊢
  split
  next hfull =>
    obtain ⟨m, heq, hm, hle, -⟩ := ih hrest hknown hroom
    exact ⟨m, heq, hm, hle, fun hlt => by omega⟩
  next =>
    obtain ⟨m, heq, hm, hle, hall⟩ :=
      @ih { s with maxhit := max s.maxhit e.hitnum } hrest hnext hroom
    exact ⟨m, heq, hm, (le_max_left _ _).trans hle, fun hlt =>
      forall_mem_cons.mpr ⟨(le_max_right _ _).trans hle, hall hlt⟩⟩

theorem room (hgo : r.nothing = false) : r.hasIp.toNat < r.dnsMaxReplyIpNum := by
  simpa using (Bool.or_eq_false_iff.mp hgo).2

theorem added_eq_qualifying (hgo : r.nothing = false)
    (hlimit : r.hasIp.toNat + (r.qualifying entries).length ≤ r.dnsMaxReplyIpNum)
    (hhits : r.passthrough = 2 → r.EqualHits entries) :
    r.dnsRrsAddAllBestIp entries = (r.qualifying entries).map fun e => e.ipAddr := by
  have hpos := room hgo
  simp only [dnsRrsAddAllBestIp, qualifying, EqualHits, hgo, Bool.false_eq_true, if_false] at *
  generalize entries.filter r.candidate = c at *
  by_cases hpass : r.passthrough = 2
  · simp only [hpass, true_or, if_true, decide_true, ne_eq, not_true_eq_false, and_false,
      if_false] at hlimit ⊢
    obtain ⟨m, heq, -⟩ := @foldl_visit r c ⟨r.hasIp.toNat, 0, []⟩ true (mostHit c)
      (fun m => ∀ e ∈ c, m ≤ e.hitnum) (fun e he m hm => ⟨fun e' he' =>
        max_le (hm e' he') (hhits hpass e he e' he').le, by
          have hmost : ∀ e' ∈ c, e'.hitnum ≤ e.hitnum := fun e' he' => (hhits hpass e' he' e he).le
          simpa [takes, mostHit, hm e he] using hmost⟩) (by simp) hlimit
    rw [heq]
    rfl
  simp only [hpass, false_or, decide_false, ne_eq, not_false_eq_true, and_true] at hlimit ⊢
  have hroom : r.hasIp.toNat + (c.filter r.fast).length ≤ r.dnsMaxReplyIpNum := by
    split at hlimit
    next hnone => simp [hnone]
    next => exact hlimit
  -- the first pass sees the maximum of the hits
  obtain ⟨m, heq, hleast, -, hmost⟩ := @foldl_visit r c ⟨r.hasIp.toNat, 0, []⟩ false r.fast
    (fun m => ∀ bound, (∀ e ∈ c, e.hitnum ≤ bound) → m ≤ bound)
    (fun e he m hm => ⟨fun bound hb => max_le (hm bound hb) (hb e he), rfl⟩)
    (fun bound _ => bound.zero_le) hroom
  rw [heq]
  by_cases hnone : r.hasIp = false ∧ c.filter r.fast = []
  · simp only [hnone, Bool.toNat_false, length_nil, and_self, if_true, map_nil,
      append_nil, Nat.add_zero] at hmost hpos hlimit ⊢
    have hdecides : ∀ e ∈ c, r.takes true (max m e.hitnum) e = mostHit c e := by
      intro e he
      have hiff : m ≤ e.hitnum ↔ ∀ e' ∈ c, e'.hitnum ≤ e.hitnum :=
        ⟨fun h e' he' => (hmost hpos e' he').trans h, hleast e.hitnum⟩
      exact Bool.eq_iff_iff.mpr (by simp [takes, mostHit, hiff])
    obtain ⟨m', heq', -⟩ := @foldl_visit r c ⟨0, m, []⟩ true (mostHit c) (fun m' => m' = m)
      (fun e he m' hm' => ⟨by rw [hm', max_eq_left (hmost hpos e he)], hm' ▸ hdecides e he⟩) rfl
      hlimit
    rw [heq']
    rfl
  · rw [if_neg hnone, if_neg]
    · rfl
    rintro hzero
    apply hnone
    simpa using hzero

theorem qualifying_sublist : (r.qualifying entries).Sublist (entries.filter r.candidate) := by
  rw [qualifying]
  split <;> exact filter_sublist

theorem qualifying_perm (h : entries.Perm l) : (r.qualifying entries).Perm (r.qualifying l) := by
  have hc := h.filter r.candidate
  have hmost : mostHit (entries.filter r.candidate) = mostHit (l.filter r.candidate) :=
    funext fun e => Bool.eq_iff_iff.mpr (by simp [mostHit, h.mem_iff])
  have hfast := hc.filter r.fast
  have hnil : (entries.filter r.candidate).filter r.fast = [] ↔
      (l.filter r.candidate).filter r.fast = [] := by
    rw [← length_eq_zero_iff, ← length_eq_zero_iff, hfast.length_eq]
  rw [qualifying, qualifying]
  simp only [hnil, hmost]
  split
  · exact hc.filter _
  · exact hfast

theorem candidate_eq (h : (entries.map fun e => (e.addrType, e.ipAddr)).Nodup) {e e' : IpAddress}
    (he : e ∈ entries.filter r.candidate) (he' : e' ∈ entries.filter r.candidate)
    (haddr : e.ipAddr = e'.ipAddr) : e = e' := by
  obtain ⟨hmem, hcand⟩ := mem_filter.mp he
  obtain ⟨hmem', hcand'⟩ := mem_filter.mp he'
  simp only [candidate, Bool.and_eq_true, decide_eq_true_eq] at hcand hcand'
  exact inj_on_of_nodup_map h hmem hmem' (by rw [← hcand.1, ← hcand'.1, haddr])

theorem stable_of_equalHits (hgo : r.nothing = false)
    (hlimit : r.hasIp.toNat + (r.qualifying table.entries).length ≤ r.dnsMaxReplyIpNum)
    (hhits : r.passthrough = 2 → r.EqualHits table.entries) :
    r.Stable table := by
  intro entries hperm
  have hqual := qualifying_perm (r := r) hperm
  rw [added_eq_qualifying hgo hlimit hhits, added_eq_qualifying hgo (by rwa [hqual.length_eq])
    (by simpa only [EqualHits, mem_filter, hperm.mem_iff] using hhits)]
  refine ⟨fun a => (hqual.map _).mem_iff, (hqual.map _).nodup_iff.mpr ?_, ?_⟩
  · refine List.Nodup.map_on ?_ ?_
    · intro e he e' he' haddr
      exact candidate_eq table.once (qualifying_sublist.subset he)
        (qualifying_sublist.subset he') haddr
    · exact (List.Nodup.of_map _ table.once).filter _ |>.sublist qualifying_sublist
  intro hip hmem
  obtain ⟨e, he, haddr⟩ := mem_map.mp hmem
  have hcand := (mem_filter.mp (qualifying_sublist.subset he)).2
  simp [candidate, hip, haddr] at hcand

/-- An address with fewer hits than the maximum is not added by its hits. -/
theorem not_added {x : IpAddress} (hx : ∀ e ∈ l, e.ipAddr = x.ipAddr → e.hitnum = x.hitnum)
    (hmax : x.hitnum < s.maxhit) (hs : x.ipAddr ∉ s.added) :
    x.ipAddr ∉ (l.foldl (r.visit true) s).added := by
  induction l generalizing s with
  | nil => exact hs
  | cons e l ih =>
  obtain ⟨hthis, hrest⟩ := forall_mem_cons.mp hx
  apply ih hrest
  · refine hmax.trans_le ?_
    unfold visit
    dsimp only
    repeat' split
    · exact le_rfl
    · exact le_max_left _ _
    · exact le_max_left _ _
  unfold visit
  dsimp only
  repeat' split
  · exact hs
  next htakes =>
    intro hmem
    rcases mem_append.mp hmem with h | h
    · exact hs h
    have := hthis (mem_singleton.mp h).symm
    simp [takes] at htakes
    omega
  · exact hs

theorem added_prefix : s.added <+: (l.foldl (r.visit ignoreSpeed) s).added := by
  induction l generalizing s with
  | nil => exact prefix_rfl
  | cons e l ih =>
  refine List.IsPrefix.trans ?_ ih
  unfold visit
  dsimp only
  repeat' split
  all_goals first
    | exact prefix_rfl
    | exact prefix_append _ _

/-- A request that is passed through adds what comes first in the table. -/
theorem passed_cons {x : IpAddress} (hgo : r.nothing = false) (hpass : r.passthrough = 2)
    (hx : r.candidate x = true) :
    r.dnsRrsAddAllBestIp (x :: l) = ((l.filter r.candidate).foldl (r.visit true)
      ⟨r.hasIp.toNat + 1, x.hitnum, [x.ipAddr]⟩).added := by
  simp [dnsRrsAddAllBestIp, hgo, hpass, hx, visit, takes, (room hgo).not_ge]

/-- The candidate with fewer hits is added only where it comes before the other one. -/
theorem Stable.hits_le (h : r.Stable table) (hgo : r.nothing = false) (hpass : r.passthrough = 2)
    {x y : IpAddress} (hx : x ∈ table.entries.filter r.candidate)
    (hy : y ∈ table.entries.filter r.candidate) : y.hitnum ≤ x.hitnum := by
  by_contra hlt
  obtain ⟨hxmem, hxcand⟩ := mem_filter.mp hx
  obtain ⟨hymem, hycand⟩ := mem_filter.mp hy
  have hadded : x.ipAddr ∈ r.dnsRrsAddAllBestIp (x :: table.entries.erase x) := by
    rw [passed_cons hgo hpass hxcand]
    exact added_prefix.subset (mem_singleton_self _)
  have hmissing : x.ipAddr ∉ r.dnsRrsAddAllBestIp (y :: table.entries.erase y) := by
    rw [passed_cons hgo hpass hycand]
    refine not_added ?_ (not_le.mp hlt) ?_
    · intro e he haddr
      obtain ⟨hmem, hcand⟩ := mem_filter.mp he
      have hin := mem_filter.mpr ⟨mem_of_mem_erase hmem, hcand⟩
      rw [candidate_eq table.once hin hx haddr]
    · intro hmem
      rw [candidate_eq table.once hx hy (mem_singleton.mp hmem)] at hlt
      exact hlt le_rfl
  have hfirst := (h _ (perm_cons_erase hxmem).symm).1 x.ipAddr
  have hother := (h _ (perm_cons_erase hymem).symm).1 x.ipAddr
  exact hmissing (hother.mpr (hfirst.mp hadded))

/--
The addresses that are added do not depend on the order of the table exactly when
none is to be added, or the request is not passed through, or all candidates have
the same number of hits.
-/
theorem best_ips_stable_iff (r : BestIpRequest) (table : IpMap)
    (hlimit : r.hasIp.toNat + (r.qualifying table.entries).length ≤ r.dnsMaxReplyIpNum) :
    r.Stable table ↔ r.nothing = true ∨ r.passthrough ≠ 2 ∨ r.EqualHits table.entries := by
  cases hgo : r.nothing with
  | true =>
    refine iff_of_true (fun entries _ => ?_) (.inl rfl)
    simp [dnsRrsAddAllBestIp, hgo]
  | false =>
    simp only [Bool.false_eq_true, false_or, ne_eq, ← imp_iff_not_or]
    refine ⟨fun h hpass e he e' he' => ?_, stable_of_equalHits hgo hlimit⟩
    exact le_antisymm (h.hits_le hgo hpass he' he) (h.hits_le hgo hpass he he')

/-- Two addresses, one of which two servers have answered with. -/
def exampleIps : IpMap where
  entries := [⟨1, [10, 0, 0, 1], 1, -1⟩, ⟨1, [10, 0, 0, 2], 2, -1⟩]
  once := by decide

def exampleBest (passthrough : Nat) : BestIpRequest :=
  ⟨1, false, [], -1, passthrough, true, 8⟩

theorem best_ips_stable_notPassed :
    (exampleBest 0).hasIp.toNat + ((exampleBest 0).qualifying exampleIps.entries).length ≤ 8 ∧
      ((exampleBest 0).Stable exampleIps ↔ (exampleBest 0).nothing = true ∨
        (exampleBest 0).passthrough ≠ 2 ∨ (exampleBest 0).EqualHits exampleIps.entries) :=
  ⟨by decide, best_ips_stable_iff (exampleBest 0) exampleIps (by decide)⟩

/-- Both addresses are added, or only the one with more hits. -/
theorem order_changes_selection :
    (exampleBest 2).dnsRrsAddAllBestIp exampleIps.entries = [[10, 0, 0, 1], [10, 0, 0, 2]] ∧
      (exampleBest 2).dnsRrsAddAllBestIp exampleIps.entries.reverse = [[10, 0, 0, 2]] := by
  decide

end BestIpRequest

end SmartDns.Server
