import SmartDns.Dns.OptSegments

/-!
# The ALPN values of HTTPS records

`_dns_server_process_answer_HTTPS` walks over the parameters of an HTTPS record
of an upstream answer and keeps them in a `struct dns_request_https`, from which
`_dns_add_rrs_HTTPS` builds the record of the reply.  The array for the ALPN
value has a fixed size, but the length that is kept with it is the upstream one.
-/

namespace SmartDns.Server

open Prog List
open Dns

/-- `DNS_MAX_ALPN_LEN`. -/
def maxAlpnLen : Nat := 32

/-- `DNS_MAX_ECH_LEN`. -/
def maxEchLen : Nat := 512

/-- `DNS_HTTPS_T_ALPN`. -/
def svcAlpn : Nat := 1

/-- `DNS_HTTPS_T_PORT`. -/
def svcPort : Nat := 3

/-- `DNS_HTTPS_T_IPV4HINT`. -/
def svcIpv4Hint : Nat := 4

/-- `DNS_HTTPS_T_ECH`. -/
def svcEch : Nat := 5

/-- `DNS_HTTPS_T_IPV6HINT`. -/
def svcIpv6Hint : Nat := 6

/-- What the rules of a request let through: the address hints, unless a rule
answers for them or filters them, and the ECH value. -/
structure HttpsFilter where
  ipv4Hint : Bool
  ipv6Hint : Bool
  ech : Bool

/-- `struct dns_request_https`, with the copies made out of parameters: how many
bytes of a value were read, and how many it has. -/
structure RequestHttps where
  alpn : Bytes := List.replicate maxAlpnLen 0
  alpnLen : Nat := 0
  port : Nat := 0
  ech : Bytes := []
  ipHints : List Bytes := []
  copies : List (Nat × Nat) := []
deriving DecidableEq

/-- `memcpy` out of the value of a parameter. -/
def copyValue (packet : Packet) (param len start count : Nat) :
    Prog DnsFault RequestHttps Bytes := do
  let bytes ← orAbort .read (readAt packet.data (param + 4 + start) count)
  Prog.modify (fun r => { r with copies := r.copies ++ [(start + count, len)] })
  pure bytes

/-- The addresses of a hint, each of `size` bytes. -/
def copyHints (packet : Packet) (param len size : Nat) : Prog DnsFault RequestHttps Unit :=
  forEach
    (fun k => do
      let addr ← copyValue packet param len (k * size) size
      Prog.modify (fun r => { r with ipHints := r.ipHints ++ [addr] }))
    (List.range (len / size))

/-- The loop body of `_dns_server_process_answer_HTTPS`. -/
def processSvcparam (filter : HttpsFilter) (packet : Packet) (param key len : Nat) :
    Prog DnsFault RequestHttps Unit :=
  if key = svcAlpn then do
    let alpn ← copyValue packet param len 0 maxAlpnLen
    Prog.modify (fun r => { r with alpn := alpn, alpnLen := len })
  else if key = svcPort then do
    let port ← copyValue packet param len 0 2
    Prog.modify (fun r => { r with port := beNat port })
  else if key = svcIpv4Hint then
    if filter.ipv4Hint then copyHints packet param len rrALen else pure ()
  else if key = svcEch then
    if filter.ech ∧ len ≤ maxEchLen then do
      let ech ← copyValue packet param len 0 len
      Prog.modify (fun r => { r with ech := ech })
    else pure ()
  else if key = svcIpv6Hint then
    if filter.ipv6Hint then copyHints packet param len rrAaaaLen else pure ()
  else pure ()

def dnsServerProcessAnswerHttps {σ : Type} (filter : HttpsFilter) (packet : Packet) (rrs : Nat) :
    Prog DnsFault σ RequestHttps := do
  let start ← dnsSvcparmStart packet rrs maxCnameLen
  let (_, svcb) ← aside {}
    (forSvcparams packet rrs (processSvcparam filter packet) packet.data.length start.param)
  pure svcb

/-- The reply that `_dns_add_rrs_HTTPS` adds the record to: the type that the request asks for,
and the room in the packet once `dns_add_HTTPS_start` has begun the record, if it has. -/
structure ReplyPlace where
  qtype : Nat
  left : Option Nat

/-- `_dns_add_rrs_HTTPS` puts an ALPN parameter into the reply: it has records to add and
`dns_SVCB_add_alpn` has the room for this one. -/
def RequestHttps.hasAlpn (r : RequestHttps) (place : ReplyPlace) : Prop :=
  place.qtype = DnsType.https.code ∧ (r.alpn.head? ≠ some 0 ∧ 0 < r.alpnLen) ∧
    ∃ left ∈ place.left, 2 + 2 + r.alpnLen ≤ left

instance (r : RequestHttps) (place : ReplyPlace) : Decidable (r.hasAlpn place) :=
  inferInstanceAs (Decidable (_ ∧ _))

/-- The value of that parameter: `dns_HTTPS_add_alpn` reads as many bytes of the
array as the length says. -/
def RequestHttps.replyAlpn (r : RequestHttps) : Option Bytes :=
  readAt r.alpn 0 r.alpnLen

section

variable (filter : HttpsFilter) (place : ReplyPlace)

/-- The record with these parameters is processed, no copy leaves its parameter,
and the ALPN value of the reply lies in the array and is one of the record. -/
def AlpnRelayed (packet : Packet) (rrs : Nat) (params : List (Nat × Bytes)) : Prop :=
  ∃ r, dnsServerProcessAnswerHttps filter packet rrs () = .done r () ∧
    (∀ copy ∈ r.copies, copy.1 ≤ copy.2) ∧
    (r.hasAlpn place → ∃ value, r.replyAlpn = some value ∧ (svcAlpn, value) ∈ params)

/-- The ALPN value behind one more parameter. -/
def nextAlpn (last : Option Bytes) (p : Nat × Bytes) : Option Bytes :=
  if p.1 = svcAlpn then some p.2 else last

def lastAlpn (params : List (Nat × Bytes)) : Option Bytes :=
  params.foldl nextAlpn none

/-- The parameters are long enough for what is copied out of them, and the last
ALPN value is not longer than its array, unless it starts with a zero or the reply
has no HTTPS records or no room for it. -/
def AlpnFits (params : List (Nat × Bytes)) : Prop :=
  (∀ p ∈ params, (p.1 = svcAlpn → maxAlpnLen ≤ p.2.length) ∧ (p.1 = svcPort → 2 ≤ p.2.length)) ∧
    ∀ value, lastAlpn params = some value → value.head? ≠ some 0 →
      place.qtype = DnsType.https.code → (∃ left ∈ place.left, 2 + 2 + value.length ≤ left) →
        value.length ≤ maxAlpnLen

/-! ## Walking over the parameters -/

/-- A parameter, with the place where it stands. -/
structure Svcparam where
  pos : Nat
  key : Nat
  value : Bytes

def Svcparam.pair (v : Svcparam) : Nat × Bytes :=
  (v.key, v.value)

def Svcparam.process (packet : Packet) (v : Svcparam) : Prog DnsFault RequestHttps Unit :=
  processSvcparam filter packet v.pos v.key v.value.length

/-- The values that were enumerated are those of parameters at places of the
packet, and every loop over the parameters visits these places. -/
theorem forSvcparams_visits
    {packet : Packet} {rrs rounds : Nat} {first : Option Nat} {noted params : List (Nat × Bytes)}
    (h : forSvcparams packet rrs (collectSvcparam packet) rounds first noted = .done () params) :
    ∃ visited : List Svcparam, params = noted ++ visited.map Svcparam.pair ∧
      (∀ v ∈ visited, readAt packet.data (v.pos + 4) v.value.length = some v.value) ∧
      ∀ {σ : Type} (body : Nat → Nat → Nat → Prog DnsFault σ Unit),
        forSvcparams packet rrs body rounds first =
          forEach (fun v : Svcparam => body v.pos v.key v.value.length) visited := by
  induction rounds generalizing first noted with
  | zero =>
    cases first with
    | none =>
      cases h
      exact ⟨[], by simp, by simp, fun _ => rfl⟩
    | some param => cases h
  | succ rounds ih =>
  cases first with
  | none =>
    cases h
    exact ⟨[], by simp, by simp, fun _ => rfl⟩
  | some param =>
  simp only [forSvcparams, bind_eq_done, orAbort_eq_done, collectSvcparam,
    modify_eq_done, dnsGetRrNestedNext, pure_eq_done] at h
  obtain ⟨⟨key, len⟩, _, ⟨hhead, rfl⟩, _, _, ⟨value, _, ⟨hvalue, rfl⟩, rfl⟩, next, _,
    ⟨rrLen, _, ⟨hlen, rfl⟩, rfl, rfl⟩, hrest⟩ := h
  obtain ⟨visited, rfl, hin, hloop⟩ := ih hrest
  obtain ⟨rfl, -⟩ := Image.at_of_read hvalue
  refine ⟨⟨param, key, value⟩ :: visited, by simp [Svcparam.pair], ?_, fun body => ?_⟩
  · simpa using ⟨hvalue, hin⟩
  rw [forEach, ← hloop body]
  simp only [forSvcparams, hhead, dnsGetRrNestedNext, hlen]
  rfl

theorem readAt_within {m : Bytes} {i n start count : Nat} {bs : Bytes} (h : readAt m i n = some bs)
    (hle : start + count ≤ n) (hcount : 0 < count) :
    readAt m (i + start) count = some ((bs.drop start).take count) := by
  obtain ⟨hin, rfl⟩ := (readAt_eq_some (by omega)).mp h
  rw [readAt_eq_some hcount, drop_take, take_take, drop_drop]
  exact ⟨by omega, by rw [Nat.min_eq_left (by omega)]⟩

/-- The copies out of a parameter, as far as they are made. -/
def copiesOf (key len : Nat) : List (Nat × Nat) :=
  let hints (size : Nat) := (List.range (len / size)).map fun k => (k * size + size, len)
  if key = svcAlpn then [(maxAlpnLen, len)]
  else if key = svcPort then [(2, len)]
  else if key = svcIpv4Hint then if filter.ipv4Hint then hints rrALen else []
  else if key = svcEch then if filter.ech ∧ len ≤ maxEchLen then [(len, len)] else []
  else if key = svcIpv6Hint then if filter.ipv6Hint then hints rrAaaaLen else []
  else []

theorem hint_within {len size k : Nat} (hk : k ∈ List.range (len / size)) :
    k * size + size ≤ len := by
  rw [← Nat.succ_mul]
  exact (Nat.mul_le_mul_right size (mem_range.mp hk)).trans (Nat.div_mul_le_self _ _)

/-- Only the copies of an ALPN value and of a port can leave their parameter. -/
theorem copiesOf_within_iff (key len : Nat) :
    (∀ copy ∈ copiesOf filter key len, copy.1 ≤ copy.2) ↔
      (key = svcAlpn → maxAlpnLen ≤ len) ∧ (key = svcPort → 2 ≤ len) := by
  have hne : svcPort ≠ svcAlpn := by decide
  unfold copiesOf
  by_cases halpn : key = svcAlpn
  · simp [halpn, hne.symm]
  by_cases hport : key = svcPort
  · simp [hport, hne]
  refine iff_of_true ?_ ⟨fun h => absurd h halpn, fun h => absurd h hport⟩
  simp only [if_neg halpn, if_neg hport]
  split_ifs
  all_goals simp only [mem_map, mem_singleton, not_mem_nil]
  all_goals rintro copy hcopy
  · obtain ⟨k, hk, rfl⟩ := hcopy
    exact hint_within hk
  · cases hcopy
  · cases hcopy
    exact le_rfl
  · cases hcopy
  · obtain ⟨k, hk, rfl⟩ := hcopy
    exact hint_within hk
  · cases hcopy
  · cases hcopy

end

/-- What processing one parameter has done. -/
structure Processed (filter : HttpsFilter) (v : Svcparam) (r r' : RequestHttps) : Prop where
  copies : r'.copies = r.copies ++ copiesOf filter v.key v.value.length
  other : v.key ≠ svcAlpn → r'.alpn = r.alpn ∧ r'.alpnLen = r.alpnLen
  alpn : v.key = svcAlpn → maxAlpnLen ≤ v.value.length → r'.alpn = v.value.take maxAlpnLen
  alpnLen : v.key = svcAlpn → r'.alpnLen = v.value.length

section Parameter

variable {filter : HttpsFilter} {packet : Packet} {v : Svcparam}
variable (hv : readAt packet.data (v.pos + 4) v.value.length = some v.value)
include hv

theorem copyValue_within
    (r : RequestHttps) {start count : Nat} (hle : start + count ≤ v.value.length) :
    ∃ bytes, copyValue packet v.pos v.value.length start count r =
      .done bytes { r with copies := r.copies ++ [(start + count, v.value.length)] } := by
  rcases Nat.eq_zero_or_pos count with rfl | hcount
  · exact ⟨[], by simp [copyValue, readAt]⟩
  · exact ⟨(v.value.drop start).take count, by simp [copyValue, readAt_within hv hle hcount]⟩

/-- A copy from the start of a value returns, or it leaves both the value and the
packet. -/
theorem copyValue_cases (r : RequestHttps) {count : Nat} (hcount : 0 < count) :
    (∃ bytes, copyValue packet v.pos v.value.length 0 count r =
        .done bytes { r with copies := r.copies ++ [(count, v.value.length)] } ∧
      (count ≤ v.value.length → bytes = v.value.take count)) ∨
      (copyValue packet v.pos v.value.length 0 count r = .fault .read ∧
        v.value.length < count) := by
  have hwithin : 0 + count ≤ v.value.length → _ := fun h => readAt_within hv h hcount
  simp only [Nat.zero_add, drop_zero] at hwithin
  cases hread : readAt packet.data (v.pos + 4 + 0) count with
  | none =>
    refine Or.inr ⟨by simp only [copyValue, hread]; rfl, Nat.lt_of_not_le fun hle => ?_⟩
    cases hread.symm.trans (hwithin hle)
  | some bytes =>
    refine Or.inl ⟨bytes, by simp [copyValue, hread], fun hle => ?_⟩
    exact Option.some.inj (hread.symm.trans (hwithin hle))

theorem copyHints_done (r : RequestHttps) (size : Nat) :
    ∃ r', copyHints packet v.pos v.value.length size r = .done () r' ∧ r'.copies = r.copies ++
        (List.range (v.value.length / size)).map (fun k => (k * size + size, v.value.length)) ∧
      r'.alpn = r.alpn ∧ r'.alpnLen = r.alpnLen := by
  have hin : ∀ k ∈ List.range (v.value.length / size), k * size + size ≤ v.value.length :=
    fun _ => hint_within
  rw [copyHints]
  -- one hint after the other
  generalize List.range (v.value.length / size) = ks at hin
  induction ks generalizing r with
  | nil => exact ⟨r, rfl, by simp, rfl, rfl⟩
  | cons k ks ih =>
  obtain ⟨addr, hcopy⟩ := copyValue_within hv r (hin k mem_cons_self)
  obtain ⟨r', hrest, hcopies, halpn, hlen⟩ := ih { r with
      copies := r.copies ++ [(k * size + size, v.value.length)]
      ipHints := r.ipHints ++ [addr] }
    (fun k' hk' => hin k' (mem_cons_of_mem k hk'))
  refine ⟨r', ?_, by simp [hcopies], halpn, hlen⟩
  simp only [forEach, bind_eq_done]
  exact ⟨(), _, ⟨addr, _, hcopy, rfl⟩, hrest⟩

/-- **One parameter.**  It is processed, or the parameter is too short for what is
copied out of it. -/
theorem processSvcparam_cases (filter : HttpsFilter) (r : RequestHttps) :
    (∃ r', processSvcparam filter packet v.pos v.key v.value.length r = .done () r' ∧
        Processed filter v r r') ∨
      (processSvcparam filter packet v.pos v.key v.value.length r = .fault .read ∧
        ∃ copy ∈ copiesOf filter v.key v.value.length, copy.2 < copy.1) := by
  have hhints := copyHints_done hv r
  -- a parameter other than ALPN that returns
  have hother : ∀ {m : Prog DnsFault RequestHttps Unit} {r' : RequestHttps}, v.key ≠ svcAlpn →
      m r = .done () r' → r'.copies = r.copies ++ copiesOf filter v.key v.value.length →
      r'.alpn = r.alpn → r'.alpnLen = r.alpnLen →
      ∃ r', m r = .done () r' ∧ Processed filter v r r' := by
    intro m r' hne hm hcopies halpn hlen
    exact ⟨r', hm, hcopies, fun _ => ⟨halpn, hlen⟩, fun h => absurd h hne, fun h => absurd h hne⟩
  unfold processSvcparam copiesOf at *
  by_cases halpn : v.key = svcAlpn
  · simp only [if_pos halpn]
    rcases copyValue_cases hv r (show 0 < maxAlpnLen by decide) with
      ⟨bytes, hcopy, hbytes⟩ | ⟨hcopy, hshort⟩
    · refine Or.inl ⟨_, bind_eq_done.mpr ⟨bytes, _, hcopy, rfl⟩, ?_, ?_, ?_, ?_⟩
      · simp [copiesOf, halpn]
      · exact fun hne => absurd halpn hne
      · exact fun _ => hbytes
      · exact fun _ => rfl
    · exact Or.inr ⟨by simp only [bind, hcopy], _, mem_singleton_self _, hshort⟩
  simp only [if_neg halpn] at hother ⊢
  by_cases hport : v.key = svcPort
  · simp only [if_pos hport] at hother ⊢
    rcases copyValue_cases hv r (show 0 < 2 by decide) with
      ⟨bytes, hcopy, -⟩ | ⟨hcopy, hshort⟩
    · exact Or.inl (hother halpn (bind_eq_done.mpr ⟨bytes, _, hcopy, rfl⟩) rfl rfl rfl)
    · exact Or.inr ⟨by simp only [bind, hcopy], _, mem_singleton_self _, hshort⟩
  simp only [if_neg hport] at hother ⊢
  refine Or.inl ?_
  have hskip := @hother (pure ()) r halpn rfl
  split_ifs at hother hskip ⊢ with h4 hf4 hech hfech h6 hf6
  · obtain ⟨r', hdone, hcopies, hsame, hlen⟩ := hhints rrALen
    exact hother halpn hdone hcopies hsame hlen
  · exact hskip (by simp) rfl rfl
  · obtain ⟨bytes, hcopy⟩ := copyValue_within hv r (Nat.zero_add v.value.length).le
    rw [Nat.zero_add] at hcopy
    exact hother halpn (bind_eq_done.mpr ⟨bytes, _, hcopy, rfl⟩) rfl rfl rfl
  · exact hskip (by simp) rfl rfl
  · obtain ⟨r', hdone, hcopies, hsame, hlen⟩ := hhints rrAaaaLen
    exact hother halpn hdone hcopies hsame hlen
  · exact hskip (by simp) rfl rfl
  · exact hskip (by simp) rfl rfl

end Parameter

/-- The array holds the start of the last ALPN value, if there was one. -/
def HoldsAlpn (last : Option Bytes) (r : RequestHttps) : Prop :=
  match last with
  | none => r.alpnLen = 0
  | some value => r.alpn = value.take maxAlpnLen ∧ r.alpnLen = value.length

/-- **All parameters.** -/
theorem processSvcparams_cases {packet : Packet} (filter : HttpsFilter) {visited : List Svcparam}
    (hin : ∀ v ∈ visited, readAt packet.data (v.pos + 4) v.value.length = some v.value)
    (r : RequestHttps) :
    (∃ r', forEach (Svcparam.process filter packet) visited r = .done () r' ∧
        r'.copies = r.copies ++ visited.flatMap (fun v => copiesOf filter v.key v.value.length) ∧
        ((∀ v ∈ visited, v.key = svcAlpn → maxAlpnLen ≤ v.value.length) → ∀ last, HoldsAlpn last r →
            HoldsAlpn ((visited.map Svcparam.pair).foldl nextAlpn last) r')) ∨
      (∃ v ∈ visited, ∃ copy ∈ copiesOf filter v.key v.value.length, copy.2 < copy.1) ∧
        ∀ r', forEach (Svcparam.process filter packet) visited r ≠ .done () r' := by
  induction visited generalizing r with
  | nil => exact Or.inl ⟨r, rfl, by simp, fun _ _ h => h⟩
  | cons v visited ih =>
  obtain ⟨hv, hvisited⟩ := forall_mem_cons.mp hin
  rcases processSvcparam_cases hv filter r with ⟨r₁, hstep, hprocessed⟩ | ⟨hfault, hcopy⟩
  · rcases ih hvisited r₁ with ⟨r', hrest, hcopies, halpn⟩ | ⟨⟨w, hw, hcopy⟩, hrest⟩
    · refine Or.inl ⟨r', ?_, ?_, fun hlong last hlast => ?_⟩
      · rw [forEach, bind_eq_done]
        exact ⟨(), r₁, hstep, hrest⟩
      · rw [hcopies, hprocessed.copies, flatMap_cons, append_assoc]
      obtain ⟨hlong, hlongs⟩ := forall_mem_cons.mp hlong
      refine halpn hlongs _ ?_
      rw [nextAlpn]
      by_cases hkey : v.pair.1 = svcAlpn
      · rw [if_pos hkey]
        exact ⟨hprocessed.alpn hkey (hlong hkey), hprocessed.alpnLen hkey⟩
      rw [if_neg hkey]
      obtain ⟨hsame, hlen⟩ := hprocessed.other hkey
      cases last with
      | none => exact hlen.trans hlast
      | some value => exact ⟨hsame.trans hlast.1, hlen.trans hlast.2⟩
    · refine Or.inr ⟨⟨w, mem_cons_of_mem v hw, hcopy⟩, fun r' hdone => ?_⟩
      rw [forEach, bind_eq_done] at hdone
      obtain ⟨_, r₂, hstep', hdone⟩ := hdone
      cases hstep.symm.trans hstep'
      exact hrest r' hdone
  · refine Or.inr ⟨⟨v, mem_cons_self, hcopy⟩, fun r' hdone => ?_⟩
    rw [forEach, bind_eq_done] at hdone
    obtain ⟨_, r₂, hstep', -⟩ := hdone
    cases hfault.symm.trans hstep'

theorem lastAlpn_mem
    {params : List (Nat × Bytes)} {value : Bytes} (h : lastAlpn params = some value) :
    (svcAlpn, value) ∈ params := by
  have hfold : ∀ last, params.foldl nextAlpn last = some value →
      last = some value ∨ (svcAlpn, value) ∈ params := by
    clear h
    induction params with
    | nil => exact fun _ => Or.inl
    | cons p params ih =>
      intro last h
      rcases ih _ h with hnext | hmem
      · rw [nextAlpn] at hnext
        split_ifs at hnext with hkey
        · cases hnext
          exact Or.inr (hkey ▸ mem_cons_self)
        · exact Or.inl hnext
      · exact Or.inr (mem_cons_of_mem p hmem)
  exact (hfold none h).resolve_left nofun

/-- **ALPN values are relayed within bounds.** -/
theorem alpn_relayed_iff
    {packet : Packet} {rrs : Nat} {start : SvcparmStart} {params : List (Nat × Bytes)}
    (hrecord : dnsGetSvcb packet rrs () = .done (start, params) ())
    (filter : HttpsFilter) (place : ReplyPlace) :
    AlpnRelayed filter place packet rrs params ↔ AlpnFits place params := by
  simp only [dnsGetSvcb, bind_eq_done, Prod.exists, aside_eq_done, pure_eq_done]
    at hrecord
  obtain ⟨start, _, hstart, _, _, _, ⟨hwalk, -⟩, hparams, -⟩ := hrecord
  cases hparams
  obtain ⟨visited, rfl, hin, hloop⟩ := forSvcparams_visits hwalk
  rw [nil_append]
  -- processing the record is processing the parameters that were visited
  have hall : forSvcparams packet rrs (processSvcparam filter packet) packet.data.length
      start.param = forEach (Svcparam.process filter packet) visited := hloop _
  have hanswer : ∀ r, dnsServerProcessAnswerHttps filter packet rrs () = .done r () ↔
      forEach (Svcparam.process filter packet) visited {} = .done () r := by
    intro r
    simp only [dnsServerProcessAnswerHttps, bind_eq_done, Prod.exists, aside_eq_done,
      pure_eq_done, hstart]
    constructor
    · rintro ⟨_, _, ⟨⟩, _, _, _, ⟨hrun, -⟩, rfl, -⟩
      exact hall ▸ hrun
    · exact fun hrun => ⟨_, _, rfl, (), r, (), ⟨hall ▸ hrun, trivial⟩, rfl, trivial⟩
  simp only [AlpnRelayed, hanswer]
  rcases processSvcparams_cases filter hin {} with
    ⟨r, hdone, hcopies, halpn⟩ | ⟨⟨v, hv, copy, hcopy, hshort⟩, hnever⟩
  · have hholds := fun hlong => halpn hlong none rfl
    change _ → HoldsAlpn (lastAlpn _) r at hholds
    constructor
    · rintro ⟨r', hdone', hok, hreply⟩
      cases hdone.symm.trans hdone'
      have hlong : ∀ p ∈ visited.map Svcparam.pair,
          (p.1 = svcAlpn → maxAlpnLen ≤ p.2.length) ∧ (p.1 = svcPort → 2 ≤ p.2.length) := by
        intro p hp
        obtain ⟨v, hv, rfl⟩ := mem_map.mp hp
        refine (copiesOf_within_iff filter _ _).mp fun copy hcopy => hok copy ?_
        rw [hcopies]
        exact mem_append_right _ (mem_flatMap.mpr ⟨v, hv, hcopy⟩)
      refine ⟨hlong, fun value hlast hhead htype hroom => ?_⟩
      have hvalue : maxAlpnLen ≤ value.length := (hlong _ (lastAlpn_mem hlast)).1 rfl
      have hpos : 0 < maxAlpnLen := by decide
      have harray := hholds fun v hv => (hlong _ (mem_map_of_mem hv)).1
      rw [hlast] at harray
      obtain ⟨w, hread, -⟩ := hreply ⟨htype,
        ⟨by rwa [harray.1, head?_take, if_neg hpos.ne'], by rw [harray.2]; omega⟩,
        by rwa [harray.2]⟩
      rw [RequestHttps.replyAlpn, harray.1, harray.2, readAt_eq_some (by omega)] at hread
      have hin' := hread.1
      rw [length_take] at hin'
      omega
    · rintro ⟨hlong, hlastFits⟩
      refine ⟨r, hdone, fun copy hcopy => ?_, ?_⟩
      · rw [hcopies] at hcopy
        obtain ⟨v, hv, hcopy⟩ := mem_flatMap.mp hcopy
        exact (copiesOf_within_iff filter _ _).mpr (hlong _ (mem_map_of_mem hv)) copy hcopy
      rintro ⟨htype, ⟨hhead, hpos⟩, hroom⟩
      have harray := hholds fun v hv => (hlong _ (mem_map_of_mem hv)).1
      cases hlast : lastAlpn (visited.map Svcparam.pair) with
      | none =>
        rw [hlast] at harray
        exact absurd harray hpos.ne'
      | some value =>
        rw [hlast] at harray
        rw [harray.1, head?_take, if_neg (by decide)] at hhead
        have hle := hlastFits value hlast hhead htype (by rwa [harray.2] at hroom)
        refine ⟨value, ?_, lastAlpn_mem hlast⟩
        rw [RequestHttps.replyAlpn, harray.1, harray.2, take_of_length_le hle]
        simp [readAt]
  · refine iff_of_false ?_ fun hfits => ?_
    · rintro ⟨r, hdone, -⟩
      exact hnever r hdone
    have hwithin := (copiesOf_within_iff filter v.key v.value.length).mpr
      (hfits.1 v.pair (mem_map_of_mem hv))
    exact absurd (hwithin copy hcopy) (Nat.not_le.mpr hshort)

/-- The packet decoded from an answer with one HTTPS record, of the name `a` and
with one ALPN value. -/
def alpnAnswer (alpn : Bytes) : Outcome DnsFault Packet Unit :=
  dnsDecode 512
    ([0, 1, 0x81, 0x80, 0, 0, 0, 1, 0, 0, 0, 0, 1, 97, 0] ++ beBytes 2 DnsType.https.code ++
      beBytes 2 classIn ++ beBytes 4 60 ++ beBytes 2 (7 + alpn.length) ++ [0, 1, 0] ++
      beBytes 2 svcAlpn ++ beBytes 2 alpn.length ++ alpn)
    smallPacket

/-- The packet that this answer is decoded into. -/
def alpnPacket (alpn : Bytes) : Packet :=
  match alpnAnswer alpn with
  | .done _ packet => packet
  | _ => smallPacket

/-- A filter that lets everything through. -/
def passAll : HttpsFilter :=
  ⟨true, true, true⟩

/-- A reply with room for HTTPS records. -/
def httpsReply : ReplyPlace :=
  ⟨DnsType.https.code, some 200⟩

theorem alpn_relayed_iff_fullArray :
    AlpnRelayed passAll httpsReply (alpnPacket (List.replicate 32 104)) 0
      [(svcAlpn, List.replicate 32 104)] := by
  have hrecord : dnsGetSvcb (alpnPacket (List.replicate 32 104)) 0 () = .done
      (⟨ascii "a", 60, 1, CStr.ofBuffer [], some 32⟩, [(svcAlpn, List.replicate 32 104)]) () := by
    decide +kernel
  refine (alpn_relayed_iff hrecord passAll httpsReply).mpr ⟨by decide, fun value hlast _ _ _ => ?_⟩
  cases hlast
  decide

/-- `h2` is copied with the 29 bytes behind it, and of a value of 40 bytes the
reply reads 8 bytes behind the array. -/
theorem alpn_not_bounded :
    (∃ r, (alpnAnswer [2, 104, 50]).isDone = true ∧
        dnsServerProcessAnswerHttps passAll (alpnPacket [2, 104, 50]) 0 () = .done r () ∧
        r.copies = [(32, 3)]) ∧
      ∃ r, (alpnAnswer (List.replicate 40 104)).isDone = true ∧
        dnsServerProcessAnswerHttps passAll (alpnPacket (List.replicate 40 104)) 0 () =
          .done r () ∧ r.hasAlpn httpsReply ∧ r.replyAlpn = none := by
  refine ⟨⟨{ alpn := [2, 104, 50] ++ List.replicate 29 0, alpnLen := 3, copies := [(32, 3)] }, ?_⟩,
    ⟨{ alpn := List.replicate 32 104, alpnLen := 40, copies := [(32, 40)] }, ?_⟩⟩
  all_goals decide +kernel

end SmartDns.Server
