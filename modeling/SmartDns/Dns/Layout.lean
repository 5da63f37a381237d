import SmartDns.Dns.Chains

/-!
# The layout of a packet

A packet is filled from its start: every record takes its head and its bytes
behind what is already used, and the records of one section are chained.
`Layout p entries` states this for the list of all records in the order in
which they were entered.  Whatever is written behind the used length leaves it
alone, so only `_dns_rr_add_end` has to be looked at; it keeps the layout in a
buffer whose offsets stay below the end mark.
-/

namespace SmartDns.Dns

open List

open Image (At ofList)

/-- A record of a packet. -/
structure Entry where
  type : RrType
  offset : Nat
  len : Nat
deriving DecidableEq, Repr

namespace Entry

def stop (e : Entry) : Nat :=
  e.offset + sizeofRrs + e.len

/-- The section and the place of the record. -/
def node (e : Entry) : RrType × Nat :=
  (e.type, e.offset)

end Entry

/-- The offsets of the records of a section, in the order of the chain. -/
def chainOf (entries : List Entry) (type : RrType) : List Nat :=
  nodesOf type (entries.map Entry.node)

theorem mem_chainOf {entries : List Entry} {type : RrType} {n : Nat} :
    n ∈ chainOf entries type ↔ ∃ e ∈ entries, e.type = type ∧ e.offset = n := by
  rw [chainOf, mem_nodesOf, mem_map]
  constructor
  · rintro ⟨e, he, hnode⟩
    exact ⟨e, he, congrArg Prod.fst hnode, congrArg Prod.snd hnode⟩
  · rintro ⟨e, he, rfl, rfl⟩
    exact ⟨e, he, rfl⟩

structure Layout (p : Packet) (entries : List Entry) : Prop where
  size : p.data.length + sizeofPacket = p.size
  used : p.len ≤ p.data.length
  chains : Chains p (entries.map Entry.node)
  apart : entries.Pairwise (fun a b => a.stop ≤ b.offset)
  bound : ∀ e ∈ entries, e.stop ≤ p.len
  lens : ∀ e ∈ entries, p.rrsLen e.offset = some e.len
  count : ∀ type, p.count type = (chainOf entries type).length

/-- What a record holds behind its link: its length, its type and its bytes. -/
def Entry.Kept (e : Entry) (p p' : Packet) : Prop :=
  ∀ k, e.offset + 10 ≤ k → k < e.stop → p'.data[k]? = p.data[k]?

theorem rrsLen_congr {p q : Packet} {rrs : Nat} (hlen : q.data.length = p.data.length)
    (h : ∀ k, rrs + 10 ≤ k → k < rrs + 12 → q.data[k]? = p.data[k]?) :
    q.rrsLen rrs = p.rrsLen rrs := by
  rw [Packet.rrsLen, Packet.rrsLen, readAt_congr hlen (by simpa using h)]

theorem Entry.Kept.rrsLen
    {e : Entry} {p p' : Packet} (h : e.Kept p p') (hlen : p'.data.length = p.data.length) :
    p'.rrsLen e.offset = p.rrsLen e.offset := by
  refine rrsLen_congr hlen ?_
  intro k hlo hhi
  refine h k hlo ?_
  simp only [Entry.stop, sizeofRrs]
  omega

section Layout

variable {p : Packet} {entries : List Entry}

theorem Layout.congr (h : Layout p entries) {q : Packet} (hlength : q.data.length = p.data.length)
    (hsize : q.size = p.size) (hlen : q.len = p.len)
    (hstart : ∀ type, q.start type = p.start type) (hcount : ∀ type, q.count type = p.count type)
    (hsame : ∀ k, k < p.len → q.data[k]? = p.data[k]?) :
    Layout q entries where
  size := by rw [hlength, hsize, h.size]
  used := by rw [hlength, hlen]; exact h.used
  chains := by
    refine h.chains.congr hlength hstart hlen.ge ?_
    intro item hitem k _ hk
    have hbound := h.chains.bound item hitem
    simp only [sizeofRrs] at hbound
    exact hsame k (by omega)
  apart := h.apart
  bound e he := by rw [hlen]; exact h.bound e he
  lens e he := by
    rw [← h.lens e he]
    have hbound := h.bound e he
    simp only [Entry.stop, sizeofRrs] at hbound
    exact rrsLen_congr hlength (fun k _ hk => hsame k (by omega))
  count type := (hcount type).trans (h.count type)

/-- What is written behind the used part leaves the layout alone. -/
theorem Layout.store
    (h : Layout p entries) {c c' : Context} (hc : c.data = p.data) {lo : Nat} (hlo : p.len ≤ lo)
    (hframe : Context.Frame lo c c') :
    Layout (p.store c') entries := by
  refine h.congr (by rw [Packet.store, hframe.length, hc]) rfl rfl (store_start p · c')
    (store_count p · c') ?_
  intro k hk
  rw [Packet.store, hframe.below k (by omega), hc]

/-- What `_dns_rr_add_end` has made of a packet. -/
structure Appended (p : Packet) (entries : List Entry) (e : Entry) (p' : Packet) : Prop where
  layout : Layout p' (entries ++ [e])
  length : p'.data.length = p.data.length
  body : ∀ k, e.offset + sizeofRrs ≤ k → p'.data[k]? = p.data[k]?

theorem link_enter_size (p : Packet) (items : List (RrType × Nat)) (type : RrType)
    (rtype len : Nat) :
    ((p.link items type).enter type rtype len).size = p.size := by
  rw [Packet.link]
  split
  · cases type <;> rfl
  · cases type <;> rfl

/-- The cells that entering a record changes in front of it: the link of the last record of
the section. -/
theorem link_enter_data (h : Layout p entries) (type : RrType) (rtype len : Nat)
    (hfits : p.len + len + sizeofRrs ≤ p.data.length) :
    let p' := (p.link (entries.map Entry.node) type).enter type rtype len
    p'.data.length = p.data.length ∧ (∀ k, p.len + sizeofRrs ≤ k → p'.data[k]? = p.data[k]?) ∧
      ∀ e ∈ entries, e.Kept p p' := by
  intro p'
  obtain ⟨hlinklen, hlink, -⟩ := link_data type h.chains (by omega)
  have hlen := (link_fields p (entries.map Entry.node) type).1
  obtain ⟨henter, hdata, -⟩ := enter_data (p := p.link (entries.map Entry.node) type) type rtype len
    (by rw [hlen, hlinklen]; omega)
  rw [hlen] at hdata
  refine ⟨henter.trans hlinklen, ?_, ?_⟩
  · intro k hk
    refine (hdata k (Or.inr hk)).trans (hlink k ?_)
    intro last hlast
    have hbound := h.chains.node_bound (mem_of_getLast? hlast)
    simp only [sizeofRrs] at hbound hk
    omega
  · intro e he k hlo hhi
    have hbound := h.bound e he
    refine (hdata k (Or.inl (by omega))).trans (hlink k ?_)
    intro last hlast
    obtain ⟨f, hf, -, rfl⟩ := mem_chainOf.mp (mem_of_getLast? hlast)
    by_cases hef : e = f
    · subst hef
      omega
    · have hapart := pairwise_or_of_ne h.apart he hf hef
      simp only [Entry.stop, sizeofRrs] at hapart hhi
      omega

theorem chainOf_append (entries : List Entry) (e : Entry) (type : RrType) :
    chainOf (entries ++ [e]) type =
      if e.type = type then chainOf entries type ++ [e.offset] else chainOf entries type := by
  rw [chainOf, map_append, nodesOf_append]
  split
  next h => simp [nodesOf, Entry.node, h, chainOf]
  next h => simp [nodesOf, Entry.node, h, chainOf]

/-- **`_dns_rr_add_end` enters one record**, unless there is no room for it. -/
theorem Layout.wp_dnsRrAddEnd
    (h : Layout p entries) (type : RrType) (rtype len : Nat) (hlow : p.len ≤ rrEnd)
    (hsmall : p.len + len + sizeofRrs ≤ p.data.length → p.len + len + sizeofRrs ≤ rrEnd)
    {Q : Unit → Packet → Prop} {E : Packet → Prop}
    (hfull : p.data.length < p.len + len + sizeofRrs → E p)
    (hQ : ∀ p', Appended p entries ⟨type, p.len, len⟩ p' → Q () p') :
    Prog.wp (dnsRrAddEnd type rtype len) Q E p := by
  have hsize := h.size
  simp only [rrEnd, sizeofPacket] at hlow hsmall hsize
  refine Dns.wp_dnsRrAddEnd h.chains h.size (by omega) ?_ ?_
  · intro hfull'
    simp only [sizeofPacket] at hfull'
    exact hfull (by omega)
  intro hfits
  obtain ⟨hlength, hbody, hkept⟩ := link_enter_data h type rtype len hfits
  obtain ⟨hlinklen, -, -⟩ := link_data type h.chains (by omega)
  obtain ⟨hlen, hcount⟩ := link_fields p (entries.map Entry.node) type
  have hsize' := link_enter_size p (entries.map Entry.node) type rtype len
  have hin : (p.link (entries.map Entry.node) type).len + sizeofRrs ≤
      (p.link (entries.map Entry.node) type).data.length := by
    omega
  have hrrsLen := (enter_head type rtype len hin).2
  rw [hlen, Nat.mod_eq_of_lt (by omega)] at hrrsLen
  simp only [sizeofRrs] at hfits hsmall
  have hfew : ∀ type, (chainOf entries type).length < 2 ^ 16 - 1 := by
    intro type
    have := h.chains.length_nodesOf_le type
    simp only [sizeofRrs] at this
    rw [chainOf]
    omega
  refine hQ _ ⟨⟨?_, ?_, ?_, ?_, ?_, ?_, ?_⟩, hlength, hbody⟩
  · rw [hlength]
    exact h.size.trans hsize'.symm
  · rw [hlength, enter_len, hlen, sizeofRrs]
    omega
  · rw [map_append]
    exact h.chains.enter (by simp only [sizeofRrs]; omega) (by simp only [rrEnd]; omega)
  · rw [pairwise_append]
    refine ⟨h.apart, pairwise_singleton _ _, ?_⟩
    intro a ha b hb
    obtain rfl := mem_singleton.mp hb
    exact h.bound a ha
  · intro e he
    rw [enter_len, hlen]
    rcases mem_append.mp he with he | he
    · have := h.bound e he
      omega
    · obtain rfl := mem_singleton.mp he
      simp only [Entry.stop]
      omega
  · intro e he
    rcases mem_append.mp he with he | he
    · rw [(hkept e he).rrsLen hlength, h.lens e he]
    · obtain rfl := mem_singleton.mp he
      exact hrrsLen
  · intro other
    rw [enter_count, hcount, hcount, h.count, h.count, chainOf_append]
    by_cases hother : other = type
    · subst hother
      have := hfew other
      rw [if_pos rfl, if_pos rfl, length_append, length_singleton, Nat.mod_eq_of_lt (by omega)]
    · rw [if_neg hother, if_neg (Ne.symm hother)]

end Layout

/-! ## Walking a section -/

section Walk

variable {σ α : Type} {p : Packet} {body : Nat → Prog DnsFault σ α}

/-- Run one program for each record of a list. -/
def forNodes (body : Nat → Prog DnsFault σ α) : List Nat → Prog DnsFault σ (List α)
  | [] => pure []
  | n :: ns => do
      let a ← body n
      let rest ← forNodes body ns
      pure (a :: rest)

theorem forRrs_eq_forNodes {s : Nat} {ns : List Nat} (h : Linked p.rrsNext rrEnd s ns) :
    forRrs p body (if s = rrEnd then none else some s) ns.length = forNodes body ns := by
  induction ns generalizing s with
  | nil => rfl
  | cons n ns ih =>
    obtain ⟨rfl, hne, m, hm, hrest⟩ := h
    rw [if_neg hne, length_cons, forRrs, dnsGetRrsNext, hm, forNodes, ← ih hrest]
    rfl

theorem forSection_eq_forNodes
    {type : RrType} {ns : List Nat} (hlinked : Linked p.rrsNext rrEnd (p.start type) ns)
    (hcount : p.count type = ns.length) :
    forSection p type body = forNodes body ns := by
  rw [forSection, dnsGetRrsStart, hcount, forRrs_eq_forNodes hlinked]

end Walk

end SmartDns.Dns
