import SmartDns.Dns.Nested
import SmartDns.Dns.NameSafe
import SmartDns.Lib.Linked

/-!
# The record chains of a packet

The records of a packet stand one behind another in memory, and those of one
section are linked in the order in which they were added.  `Chains p items`
states this for the list `items` of all records, each with its section and its
offset.  `_dns_rr_add_end` appends a record, as long as its offset can be told
from the end mark.
-/

namespace SmartDns.Dns

open Prog Packet List
open Image (At ofList)

variable {n : Nat}

/-! ## Fields -/

section Fields

variable (p : Packet) (type other : RrType) (v : Nat)

@[simp] theorem setStart_data : (p.setStart v type).data = p.data := by
  cases type <;> rfl

@[simp] theorem setStart_addr : (p.setStart v type).addr = p.addr := by
  cases type <;> rfl

@[simp] theorem setStart_size : (p.setStart v type).size = p.size := by
  cases type <;> rfl

@[simp] theorem setStart_len : (p.setStart v type).len = p.len := by
  cases type <;> rfl

@[simp] theorem setStart_count : (p.setStart v type).count other = p.count other := by
  cases type <;> cases other <;> rfl

theorem setStart_start :
    (p.setStart v type).start other = if other = type then v else p.start other := by
  cases type <;> cases other <;> rfl

@[simp] theorem setCount_data : (p.setCount v type).data = p.data := by
  cases type <;> rfl

@[simp] theorem setCount_start : (p.setCount v type).start other = p.start other := by
  cases type <;> cases other <;> rfl

@[simp] theorem store_start (c : Context) : (p.store c).start type = p.start type := by
  cases type <;> rfl

@[simp] theorem store_count (c : Context) : (p.store c).count type = p.count type := by
  cases type <;> rfl

end Fields

/-! ## Links in memory -/

theorem rrsNext_congr {p q : Packet} {rrs : Nat} (hlen : q.data.length = p.data.length)
    (h : ∀ k, rrs + 8 ≤ k → k < rrs + 10 → q.data[k]? = p.data[k]?) :
    q.rrsNext rrs = p.rrsNext rrs := by
  rw [rrsNext, rrsNext, readAt_congr hlen (by simpa using h)]

theorem rrsNext_at {p : Packet} {rrs v : Nat} (h : At (ofList p.data) (rrs + 8) (leBytes 2 v)) :
    p.rrsNext rrs = some (v % 2 ^ 16) := by
  have hread := h.read
  rw [length_leBytes] at hread
  rw [rrsNext, hread, Option.map_some, leNat_leBytes]
  rfl

/-- The offsets of the records of one section. -/
def nodesOf (type : RrType) (items : List (RrType × Nat)) : List Nat :=
  (items.filter (fun item => item.1 = type)).map Prod.snd

@[simp] theorem nodesOf_append (type : RrType) (items items' : List (RrType × Nat)) :
    nodesOf type (items ++ items') = nodesOf type items ++ nodesOf type items' := by
  simp [nodesOf]

theorem mem_nodesOf {type : RrType} {items : List (RrType × Nat)} :
    n ∈ nodesOf type items ↔ (type, n) ∈ items := by
  simp [nodesOf]

structure Chains (p : Packet) (items : List (RrType × Nat)) : Prop where
  apart : items.Pairwise (fun a b => a.2 + sizeofRrs ≤ b.2)
  bound : ∀ item ∈ items, item.2 + sizeofRrs ≤ p.len
  linked : ∀ type, Linked p.rrsNext rrEnd (p.start type) (nodesOf type items)

namespace Chains

variable {p q : Packet} {items : List (RrType × Nat)}

variable (h : Chains p items)
include h

theorem node_bound {type : RrType} (hn : n ∈ nodesOf type items) : n + sizeofRrs ≤ p.len :=
  h.bound (type, n) (mem_nodesOf.mp hn)

/-- A packet with the same links and at least the same length has the same
chains. -/
theorem congr (hlen : q.data.length = p.data.length)
    (hstart : ∀ type, q.start type = p.start type) (hle : p.len ≤ q.len)
    (hdata : ∀ item ∈ items, ∀ k, item.2 + 8 ≤ k → k < item.2 + 10 → q.data[k]? = p.data[k]?) :
    Chains q items where
  apart := h.apart
  bound item hitem := (h.bound item hitem).trans hle
  linked type := by
    rw [hstart type]
    refine (h.linked type).congr ?_
    intro n hn
    exact rrsNext_congr hlen (hdata (type, n) (mem_nodesOf.mp hn))

theorem nodes_apart (type : RrType) :
    (nodesOf type items).Pairwise (fun a b => a + sizeofRrs ≤ b) := by
  simp only [nodesOf, pairwise_map]
  exact h.apart.filter _

theorem length_nodesOf_le (type : RrType) : sizeofRrs * (nodesOf type items).length ≤ p.len := by
  have hroom : ∀ (ns : List Nat) (N : Nat), ns.Pairwise (fun a b => a + sizeofRrs ≤ b) →
      (∀ n ∈ ns, n + sizeofRrs ≤ N) → sizeofRrs * ns.length ≤ N := by
    intro ns
    induction ns using List.reverseRecOn with
    | nil => simp
    | append_singleton ns n ih =>
      intro N hns hN
      have hsplit := pairwise_append.mp hns
      have hrest := ih n hsplit.1 (fun m hm => hsplit.2.2 m hm n (by simp))
      have hn := hN n (by simp)
      rw [length_append, length_singleton, Nat.mul_add]
      omega
  exact hroom _ _ (h.nodes_apart type) (fun n hn => h.node_bound hn)

end Chains

theorem wp_lastRrs {σ : Type} {p : Packet} {Q : Nat → σ → Prop} {E : σ → Prop} {s : σ}
    {ns : List Nat} {last start : Nat}
    (h : Linked p.rrsNext rrEnd start (ns ++ [last])) {rounds : Nat} (hrounds : ns.length < rounds)
    (hQ : Q last s) :
    wp (lastRrs p rounds start) Q E s := by
  induction ns generalizing start rounds with
  | nil =>
    obtain ⟨rounds, rfl⟩ : ∃ r, rounds = r + 1 := ⟨rounds - 1, by omega⟩
    obtain ⟨rfl, -, m, hm, hend⟩ := h
    obtain rfl : m = rrEnd := hend
    simp only [lastRrs, wp_bind, wp_orAbort]
    exact ⟨rrEnd, hm, hQ⟩
  | cons n ns ih =>
  obtain ⟨rounds, rfl⟩ : ∃ r, rounds = r + 1 := ⟨rounds - 1, by omega⟩
  obtain ⟨rfl, -, m, hm, hrest⟩ := h
  have hmne : m ≠ rrEnd := by cases ns <;> exact hrest.1 ▸ hrest.2.1
  simp only [lastRrs, wp_bind, wp_orAbort]
  refine ⟨m, hm, ?_⟩
  rw [if_neg hmne]
  exact ih hrest (by simpa using hrounds)

/-! ## Entering a record -/

/-- Link a new record at the end of the packet behind the last one of its
section. -/
def Packet.link (p : Packet) (items : List (RrType × Nat)) (type : RrType) : Packet :=
  match (nodesOf type items).getLast? with
  | none => p.setStart (p.len % 2 ^ 16) type
  | some last => { p with data := overwrite p.data (last + 8) (leBytes 2 p.len) }

/-- Write the head of a new record and count it. -/
def Packet.enter (p : Packet) (type : RrType) (rtype len : Nat) : Packet :=
  { p with data := overwrite p.data p.len (rrsHead p.addr rtype len) }.counted type len

@[simp] theorem length_rrsHead (addr rtype len : Nat) :
    (rrsHead addr rtype len).length = sizeofRrs := by
  simp [rrsHead, sizeofRrs]

section Enter

variable {p : Packet} {items : List (RrType × Nat)} {type : RrType} {rtype len : Nat}

theorem wp_patchPacket {Q : Unit → Packet → Prop} {E : Packet → Prop} {pos : Nat} {bs : Bytes}
    (h : pos + bs.length ≤ p.data.length) (hQ : Q () { p with data := overwrite p.data pos bs }) :
    wp (patchPacket pos bs) Q E p := by
  simp only [patchPacket, wp_bind, wp_get, wp_orAbort, wp_modify]
  exact ⟨_, writeAt_of_le h, hQ⟩

theorem Chains.start_eq_rrEnd_iff (h : Chains p items) :
    p.start type = rrEnd ↔ nodesOf type items = [] := by
  have hlinked := h.linked type
  constructor
  · intro hstart
    cases hnodes : nodesOf type items with
    | nil => rfl
    | cons n ns =>
      rw [hnodes] at hlinked
      exact absurd (hlinked.1 ▸ hstart) hlinked.2.1
  · intro hnodes
    rw [hnodes] at hlinked
    exact hlinked

theorem wp_dnsRrAddEnd {Q : Unit → Packet → Prop} {E : Packet → Prop}
    (h : Chains p items) (hdata : p.data.length + sizeofPacket = p.size) (hsmall : p.len < 2 ^ 20)
    (hfull : p.size < p.len + len + sizeofPacket + sizeofRrs → E p)
    (hQ : p.len + len + sizeofRrs ≤ p.data.length →
      Q () ((p.link items type).enter type rtype len)) :
    wp (dnsRrAddEnd type rtype len) Q E p := by
  simp only [dnsRrAddEnd, wp_bind, wp_failWhen, wp_get]
  refine ⟨hfull, fun hroom => ?_⟩
  have hfits : p.len + len + sizeofRrs ≤ p.data.length := by omega
  have hQ := hQ hfits
  rcases eq_nil_or_concat (nodesOf type items) with hnil | ⟨ns, last, hsnoc⟩
  · rw [if_pos (h.start_eq_rrEnd_iff.mpr hnil)]
    simp only [wp_bind, wp_modify]
    refine wp_patchPacket (by simp; omega) ?_
    simpa [link, hnil, enter] using hQ
  rw [concat_eq_append] at hsnoc
  have hstart : p.start type ≠ rrEnd := by
    intro hstart
    rw [h.start_eq_rrEnd_iff, hsnoc] at hstart
    simp at hstart
  have hmem : last ∈ nodesOf type items := by simp [hsnoc]
  have hlast := h.node_bound hmem
  have hfew := h.length_nodesOf_le type
  rw [hsnoc, length_append, length_singleton] at hfew
  simp only [sizeofRrs] at hfits hlast hfew
  have hin : last + 8 + (leBytes 2 p.len).length ≤ p.data.length := by
    rw [length_leBytes]
    omega
  rw [if_neg hstart]
  simp only [wp_bind, wp_modify]
  refine wp_lastRrs (by rw [← hsnoc]; exact h.linked type) (by omega) ?_
  refine wp_patchPacket hin ?_
  refine wp_patchPacket (by simp [length_overwrite hin, sizeofRrs]; omega) ?_
  simpa [link, hsnoc, enter] using hQ

theorem link_fields (p : Packet) (items : List (RrType × Nat)) (type : RrType) :
    (p.link items type).len = p.len ∧ ∀ other, (p.link items type).count other = p.count other := by
  rw [link]
  split
  · simp
  · exact ⟨rfl, fun _ => rfl⟩

/-- The link changes one cell pair: that of the last record of the section. -/
theorem link_data (type : RrType) (h : Chains p items) (hfits : p.len ≤ p.data.length) :
    (p.link items type).data.length = p.data.length ∧
    (∀ k, (∀ last, (nodesOf type items).getLast? = some last → ¬ (last + 8 ≤ k ∧ k < last + 10)) →
    (p.link items type).data[k]? = p.data[k]?) ∧
      ∀ last, (nodesOf type items).getLast? = some last →
    (p.link items type).rrsNext last = some (p.len % 2 ^ 16) := by
  cases hlast : (nodesOf type items).getLast? with
  | none => simp [link, hlast]
  | some last =>
  have hbound := h.node_bound (mem_of_getLast? hlast)
  simp only [sizeofRrs] at hbound
  have hin : last + 8 + (leBytes 2 p.len).length ≤ p.data.length := by
    rw [length_leBytes]
    omega
  simp only [link, hlast, Option.some.injEq, forall_eq']
  refine ⟨length_overwrite hin, ?_, ?_⟩
  · intro k hk
    rw [getElem?_overwrite hin, if_neg (by simpa using hk)]
  · exact rrsNext_at (Image.at_overwrite hin)

theorem enter_data (type : RrType) (rtype len : Nat) (hfits : p.len + sizeofRrs ≤ p.data.length) :
    (p.enter type rtype len).data.length = p.data.length ∧ (∀ k, k < p.len ∨ p.len + sizeofRrs ≤ k →
    (p.enter type rtype len).data[k]? = p.data[k]?) ∧
      At (ofList (p.enter type rtype len).data) p.len (rrsHead p.addr rtype len) := by
  have hin : p.len + (rrsHead p.addr rtype len).length ≤ p.data.length := by exact hfits
  simp only [enter, counted, setCount_data]
  refine ⟨length_overwrite hin, ?_, Image.at_overwrite hin⟩
  intro k hk
  rw [getElem?_overwrite hin, length_rrsHead, if_neg (by omega)]

/-- The numbers of the new record. -/
theorem enter_head (type : RrType) (rtype len : Nat) (hfits : p.len + sizeofRrs ≤ p.data.length) :
    (p.enter type rtype len).rrsNext p.len = some rrEnd ∧
      (p.enter type rtype len).rrsLen p.len = some (len % 2 ^ 16) := by
  obtain ⟨-, -, hhead⟩ := enter_data type rtype len hfits
  simp only [rrsHead, Image.at_append] at hhead
  obtain ⟨⟨⟨-, hnext⟩, hlen⟩, -⟩ := hhead
  have hreadLen := hlen.read
  simp only [length_append, length_leBytes] at hreadLen
  refine ⟨rrsNext_at (by simpa using hnext), ?_⟩
  rw [rrsLen, hreadLen, Option.map_some, leNat_leBytes]
  rfl

theorem enter_count (p : Packet) (type other : RrType) (rtype len : Nat) :
    (p.enter type rtype len).count other =
      if other = type then (p.count type + 1) % 2 ^ 16 else p.count other := by
  cases type <;> cases other <;> rfl

theorem enter_start (p : Packet) (type other : RrType) (rtype len : Nat) :
    (p.enter type rtype len).start other = p.start other := by
  exact setCount_start _ type other _

theorem enter_len (p : Packet) (type : RrType) (rtype len : Nat) :
    (p.enter type rtype len).len = p.len + len + sizeofRrs := rfl

/-- Entering a record keeps the links of the records in front of it. -/
theorem enter_rrsNext_below
    (type : RrType) (rtype len : Nat) (hfits : p.len + sizeofRrs ≤ p.data.length)
    (hn : n + sizeofRrs ≤ p.len) :
    (p.enter type rtype len).rrsNext n = p.rrsNext n := by
  obtain ⟨hlen, hdata, -⟩ := enter_data type rtype len hfits
  simp only [sizeofRrs] at hn
  exact rrsNext_congr hlen (fun k _ hk => hdata k (by omega))

/-- The link of a record that is not the last of the section stays. -/
theorem link_rrsNext (h : Chains p items) (hfits : p.len ≤ p.data.length) {other : RrType}
    (hn : n ∈ nodesOf other items)
    (hne : ∀ last, (nodesOf type items).getLast? = some last → (other, n) ≠ (type, last)) :
    (p.link items type).rrsNext n = p.rrsNext n := by
  obtain ⟨hlen, hdata, -⟩ := link_data type h hfits
  refine rrsNext_congr hlen (fun k hk hk' => hdata k ?_)
  intro last hlast
  have hmem := mem_nodesOf.mp (mem_of_getLast? hlast)
  have hapart := pairwise_or_of_ne h.apart (mem_nodesOf.mp hn) hmem (hne last hlast)
  simp only [sizeofRrs] at hapart
  omega

/-- **A record is appended to its section**, as long as its offset is not taken
for the end mark. -/
theorem Chains.enter
    (h : Chains p items) (hfits : p.len + sizeofRrs ≤ p.data.length) (hend : p.len < rrEnd) :
    Chains ((p.link items type).enter type rtype len) (items ++ [(type, p.len)]) := by
  obtain ⟨hlinklen, -, hlast⟩ := link_data type h (by omega)
  have hlen := (link_fields p items type).1
  have hmod : p.len % 2 ^ 16 = p.len := Nat.mod_eq_of_lt (by simp only [rrEnd] at hend; omega)
  have hfits' : (p.link items type).len + sizeofRrs ≤ (p.link items type).data.length := by
    rw [hlen, hlinklen]
    exact hfits
  have hnew := (enter_head type rtype len hfits').1
  rw [hlen] at hnew
  have hbelow : ∀ {other : RrType} {n : Nat}, n ∈ nodesOf other items →
      (∀ last, (nodesOf type items).getLast? = some last → (other, n) ≠ (type, last)) →
      ((p.link items type).enter type rtype len).rrsNext n = p.rrsNext n := by
    intro other n hn hne
    rw [enter_rrsNext_below type rtype len hfits' (by rw [hlen]; exact h.node_bound hn)]
    exact link_rrsNext h (by omega) hn hne
  refine ⟨?_, ?_, ?_⟩
  · rw [pairwise_append]
    refine ⟨h.apart, pairwise_singleton _ _, ?_⟩
    intro a ha b hb
    obtain rfl : b = (type, p.len) := by simpa using hb
    exact h.bound a ha
  · intro item hitem
    rw [enter_len, hlen]
    rcases mem_append.mp hitem with hitem | hitem
    · have := h.bound item hitem
      omega
    obtain rfl : item = (type, p.len) := by simpa using hitem
    omega
  intro other
  rw [enter_start, nodesOf_append]
  by_cases hother : other = type
  · subst hother
    have hsingle : nodesOf other [(other, p.len)] = [p.len] := by simp [nodesOf]
    rw [hsingle]
    rcases eq_nil_or_concat (nodesOf other items) with hnil | ⟨ns, last, hsnoc⟩
    · have hstart : (p.link items other).start other = p.len := by
        rw [link, hnil, getLast?_nil]
        simp only [setStart_start, if_true, hmod]
      rw [hnil, hstart]
      exact ⟨rfl, by omega, rrEnd, hnew, rfl⟩
    rw [concat_eq_append] at hsnoc
    have hgetLast : (nodesOf other items).getLast? = some last := by
      rw [hsnoc, getLast?_concat]
    have hstart : (p.link items other).start other = p.start other := by
      rw [link, hgetLast]
      rfl
    have hlinked := h.linked other
    rw [hsnoc] at hlinked ⊢
    rw [hstart]
    refine hlinked.snoc ?_ ?_ hnew (by omega)
    · intro n hn
      refine hbelow (by rw [hsnoc]; simp [hn]) ?_
      intro last' hlast' heq
      have hnodes := h.nodes_apart other
      rw [hsnoc, pairwise_append] at hnodes
      have hlt := hnodes.2.2 n hn last (by simp)
      obtain rfl : last = last' := by simpa [hgetLast] using hlast'
      obtain rfl : n = last := congrArg Prod.snd heq
      simp only [sizeofRrs] at hlt
      omega
    · have hlastmem : last ∈ nodesOf other items := by simp [hsnoc]
      rw [enter_rrsNext_below other rtype len hfits'
        (by rw [hlen]; exact h.node_bound hlastmem), hlast last hgetLast, hmod]
  · have hnone : nodesOf other [(type, p.len)] = [] := by simp [nodesOf, Ne.symm hother]
    have hstart : (p.link items type).start other = p.start other := by
      rw [link]
      split
      · simp [setStart_start, hother]
      · rfl
    rw [hnone, append_nil, hstart]
    refine (h.linked other).congr ?_
    intro n hn
    refine hbelow hn ?_
    intro last _ heq
    exact hother (congrArg Prod.fst heq)

end Enter

end SmartDns.Dns
