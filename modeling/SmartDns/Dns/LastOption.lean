import SmartDns.Dns.PacketRuns

/-!
# The last option of a packet

The options of a packet are kept as records whose owner is the root.
`_dns_encode_opts` writes them behind everything else, in the order of their
chain.  So the bytes of a client subnet that was added last are the last bytes
of the message.
-/

namespace SmartDns.Dns

open Prog List
open Image (At ofList)

variable {N : Nat} {p : Packet}

/-- The head of a record whose owner is the root. -/
def rootHead (qtype qclass ttl rrLen : Nat) : Bytes :=
  [0] ++ beBytes 2 qtype ++ beBytes 2 qclass ++ beBytes 4 ttl ++ beBytes 2 rrLen

@[simp] theorem length_rootHead (qtype qclass ttl rrLen : Nat) :
    (rootHead qtype qclass ttl rrLen).length = 11 := by
  simp [rootHead]

/-! ## Adding a record of the root -/

section Write

variable {c : Context} {Q : Nat → Context → Prop} {E : Context → Prop}

variable (hE : ∀ c', E c') (hsize : c.maxsize ≤ c.data.length)
include hE hsize

/-- The question part of the head is written whole, when there is room. -/
theorem wp_dnsAddQrHead_root (qtype qclass : Nat) (hQ : c.ptr + 5 ≤ c.maxsize → Q 5 { c with
      data := overwrite c.data c.ptr ([0] ++ beBytes 2 qtype ++ beBytes 2 qclass)
      ptr := c.ptr + ([0] ++ beBytes 2 qtype ++ beBytes 2 qclass).length }) :
    wp (dnsAddQrHead (CStr.ofBuffer []) qtype qclass) Q E c := by
  have hname : (CStr.ofBuffer []).bytes = [] := rfl
  simp only [dnsAddQrHead, dnsEncodeDomain, hname, dnsGetDomainOffset, if_pos,
    encodeDomainLoop, encodeDomainEnd, wp_bind, wp_get, wp_advance, wp_pure]
  rw [wp_failWhen]
  refine ⟨fun _ => hE _, fun hone => ?_⟩
  simp only [Context.leftLen] at hone
  refine wp_patch (by simp only [length_singleton]; omega) ?_
  rw [if_neg (by decide)]
  simp only [wp_bind, wp_pure]
  rw [wp_failWhen]
  refine ⟨fun _ => hE _, fun _ => ?_⟩
  rw [wp_failWhen]
  refine ⟨fun _ => hE _, fun hfour => ?_⟩
  simp only [Context.leftLen] at hfour
  refine wp_writeBytes_append [0] (by simp; omega) ?_
  refine wp_writeBytes_append _ (by simp; omega) ?_
  exact hQ (by omega)

/-- The head is written whole, when there is room. -/
theorem wp_dnsAddRrHead_root (qtype qclass ttl rrLen : Nat)
    (hQ : c.ptr + 11 ≤ c.maxsize → Q 11 { c with
      data := overwrite c.data c.ptr (rootHead qtype qclass ttl rrLen), ptr := c.ptr + 11 }) :
    wp (dnsAddRrHead (CStr.ofBuffer []) qtype qclass ttl rrLen) Q E c := by
  simp only [dnsAddRrHead, wp_bind, wp_pure]
  refine wp_dnsAddQrHead_root hE hsize qtype qclass fun hfive => ?_
  rw [wp_failWhen]
  refine ⟨fun _ => hE _, fun hsix => ?_⟩
  simp only [Context.leftLen, length_append, length_beBytes, length_singleton] at hsix
  refine wp_writeBytes_append _ (by simp; omega) ?_
  refine wp_writeBytes_append _ (by simp; omega) ?_
  simpa [rootHead] using hQ (by omega)

/-- The record is written whole, when there is room. -/
theorem wp_writeRootRecord (rtype ttl : Nat) (raw : Bytes)
    (hQ : c.ptr + 11 + raw.length ≤ c.maxsize → Q (11 + raw.length)
      ⟨overwrite c.data c.ptr (rootHead rtype classIn ttl raw.length ++ raw), c.maxsize,
        c.ptr + (rootHead rtype classIn ttl raw.length ++ raw).length, c.namedict⟩) :
    wp (do
      let len ← dnsAddRrHead (CStr.ofBuffer []) rtype classIn ttl raw.length
      failWhen (fun c => c.leftLen < raw.length)
      writeBytes raw
      pure (len + raw.length)) Q E c := by
  simp only [wp_bind, wp_pure]
  refine wp_dnsAddRrHead_root hE hsize _ _ _ _ fun heleven => ?_
  rw [wp_failWhen]
  refine ⟨fun _ => hE _, fun hraw => ?_⟩
  simp only [Context.leftLen] at hraw
  have hlast := wp_writeBytes_append (E := E) (Q := fun _ => Q (11 + raw.length))
    (rootHead rtype classIn ttl raw.length) (i := c.ptr)
    (show c.ptr + (rootHead rtype classIn ttl raw.length ++ raw).length ≤ c.data.length by
      simp only [length_append, length_rootHead]; omega) (hQ (by omega))
  rwa [length_rootHead] at hlast

end Write

/-! ## Adding a client subnet -/

section Subnet

variable {ecs : OptEcs}

/-- The record of a client subnet in a packet. -/
def OptEcs.raw (ecs : OptEcs) : Bytes :=
  leBytes 2 optEcs ++ leBytes 2 (4 + prefixBytes ecs.sourcePrefix) ++
    (leBytes 2 ecs.family ++ [UInt8.ofNat ecs.sourcePrefix, UInt8.ofNat ecs.scopePrefix] ++
      ecs.addr.toList.take (prefixBytes ecs.sourcePrefix))

theorem dnsAddOptEcs_eq (h : ecs.sourcePrefix ≤ 128) :
    dnsAddOptEcs ecs = dnsAddRaw .opt optEcs (CStr.ofBuffer []) 0 ecs.raw := by
  have hbytes := prefixBytes_le h
  simp only [rrAaaaLen] at hbytes
  have hread : readAt ecs.image 0 (4 + prefixBytes ecs.sourcePrefix) =
      some (leBytes 2 ecs.family ++ [UInt8.ofNat ecs.sourcePrefix, UInt8.ofNat ecs.scopePrefix] ++
        ecs.addr.toList.take (prefixBytes ecs.sourcePrefix)) := by
    rw [readAt, if_pos (.inr (by rw [length_ecsImage]; omega)), drop_zero, OptEcs.image,
      take_append, take_of_length_le (by simp)]
    simp
  have hfits : ecs.raw.length ≤ maxOptLen := by
    simp only [OptEcs.raw, length_append, length_leBytes, length_cons, length_nil, length_take,
      maxOptLen]
    omega
  rw [dnsAddOptEcs, hread]
  change (intoBuffer maxOptLen ecs.raw >>= _) = _
  rw [intoBuffer, if_pos hfits]
  rfl

/-- A prefix that is longer than an address is a read behind the argument. -/
theorem dnsAddOptEcs_fault (h : ¬ ecs.sourcePrefix ≤ 128) : dnsAddOptEcs ecs p = .fault .read := by
  have hread : readAt ecs.image 0 (4 + prefixBytes ecs.sourcePrefix) = none := by
    rw [readAt, if_neg]
    rw [length_ecsImage, prefixBytes]
    split <;> omega
  rw [dnsAddOptEcs, hread]
  rfl

end Subnet

/-- A record of the root is the last one of the options. -/
structure RootLast (p : Packet) (rrs rtype : Nat) (raw : Bytes) : Prop where
  layout : ∃ entries, Layout p (entries ++ [⟨.opt, rrs, 11 + raw.length⟩])
  bytes : At (ofList p.data) (rrs + sizeofRrs) (rootHead rtype classIn 0 raw.length ++ raw)

/-- `_dns_add_RAW` for an option. -/
theorem Filled.wp_addRaw_root (h : Filled N p) (rtype : Nat) (raw : Bytes) :
    wp (dnsAddRaw .opt rtype (CStr.ofBuffer []) 0 raw) (fun _ p' => RootLast p' p.len rtype raw)
      (fun _ => True) p := by
  obtain ⟨entries, hlayout⟩ := h.layout
  have hsmall := h.small
  have hused := hlayout.used
  obtain ⟨c, hc⟩ : ∃ c, p.context = c := ⟨_, rfl⟩
  have hptr : p.len + sizeofRrs = c.ptr := congrArg Context.ptr hc
  have hdata : c.data = p.data := hc ▸ rfl
  have hinside : c.maxsize ≤ c.data.length := hc ▸ h.inside
  simp only [dnsAddRaw, dnsAddRrsStart, inPacket]
  rw [wp_bind, wp_failWhen]
  refine ⟨fun _ => trivial, fun _ => ?_⟩
  rw [wp_bind, wp_zoom, hc]
  refine wp_writeRootRecord (fun _ => trivial) hinside rtype 0 raw fun hroom => ?_
  have hin : c.ptr + (rootHead rtype classIn 0 raw.length ++ raw).length ≤ c.data.length := by
    rw [length_append, length_rootHead]
    omega
  have hframe := Context.Frame.overwrite _ _
    (c.ptr + (rootHead rtype classIn 0 raw.length ++ raw).length) hin
    (show p.len ≤ c.ptr by omega)
  have hlength : c.data.length = N := by rw [hdata, h.length]
  refine (hlayout.store hdata le_rfl hframe).wp_dnsRrAddEnd .opt rtype (11 + raw.length) ?_ ?_
    (fun _ => trivial) ?_
  · exact hused.trans (h.length.trans_le hsmall)
  · exact fun hfits => hfits.trans ((hframe.length.trans hlength).trans_le hsmall)
  · intro p' happended
    refine ⟨⟨entries, happended.layout⟩, ?_⟩
    rw [hptr]
    exact (Image.at_overwrite hin).congr fun k hk _ => happended.body k (hptr.trans_le hk)

/-! ## Records that are refused -/

section Refused

variable {rtype ttl : Nat} {domain : CStr} {raw raw' : Bytes} {type : RrType}

/-- What `_dns_add_RAW` writes. -/
def writeRecord (rtype : Nat) (domain : CStr) (ttl : Nat) (raw : Bytes) :
    Prog DnsFault Context Nat := do
  let len ← dnsAddRrHead domain rtype classIn ttl raw.length
  failWhen (fun c => c.leftLen < raw.length)
  writeBytes raw
  pure (len + raw.length)

theorem Writing.writeRecord {lo : Nat} {c₀ c : Context} (h : Writing lo c₀ c) :
    wp (writeRecord rtype domain ttl raw)
      (fun n c' => Writing lo c₀ c' ∧ c.ptr + n ≤ c₀.maxsize) (fun _ => True) c := by
  simp only [Dns.writeRecord, wp_bind]
  refine wp_mono (h.addRrHead domain rtype classIn ttl raw.length) ?_ (fun _ _ => trivial)
  rintro n c₁ ⟨h₁, hptr, -, -⟩
  simp only [wp_failWhen, wp_pure]
  refine ⟨fun _ => trivial, fun hleft => ?_⟩
  refine wp_post (h₁.writeBytes raw hleft) fun _ c₂ h₂ => ⟨h₂.1, ?_⟩
  have hmax := h₁.frame.maxsize
  simp only [Context.leftLen] at hleft
  omega

theorem writeBytes_ne_failed {bs : Bytes} {c d : Context} : writeBytes bs c ≠ .failed d := by
  cases hwrite : writeAt c.data c.ptr bs with
  | some data => simp [writeBytes, patch, advance, bind, Prog.get, orAbort, Prog.modify, hwrite,
      pure]
  | none => simp [writeBytes, patch, bind, Prog.get, orAbort, abort, hwrite]

/-- Whether there is room for a record does not depend on its bytes. -/
theorem writeRecord_failed {c d : Context} (hlen : raw'.length = raw.length)
    (h : writeRecord rtype domain ttl raw c = .failed d) :
    writeRecord rtype domain ttl raw' c = .failed d := by
  simp only [writeRecord, hlen, bind_eq_failed] at h ⊢
  rcases h with h | ⟨n, c₁, hhead, h | ⟨_, c₂, hroom, h⟩⟩
  · exact .inl h
  · exact .inr ⟨n, c₁, hhead, .inl h⟩
  · rcases h with h | ⟨_, _, -, h⟩
    · exact absurd h writeBytes_ne_failed
    · cases h

theorem Filled.addRaw_failed {s : Packet} (h : Filled N p) (hlen : raw'.length = raw.length)
    (hfail : dnsAddRaw type rtype domain ttl raw p = .failed s) :
    dnsAddRaw type rtype domain ttl raw' p = .failed s := by
  change (dnsAddRrsStart >>= fun _ => inPacket (writeRecord rtype domain ttl raw) >>= _) p = _
    at hfail
  change (dnsAddRrsStart >>= fun _ => inPacket (writeRecord rtype domain ttl raw') >>= _) p = _
  simp only [bind_eq_failed, inPacket, zoom_eq_failed, zoom_eq_done] at hfail ⊢
  rcases hfail with hfail | ⟨_, _, hstart, ⟨d, hfail, rfl⟩ | ⟨len, _, ⟨d, hrecord, rfl⟩, hfail⟩⟩
  · exact .inl hfail
  · exact .inr ⟨_, _, hstart, .inl ⟨d, writeRecord_failed hlen hfail, rfl⟩⟩
  -- a record that was written is entered
  exfalso
  obtain ⟨-, rfl⟩ := failWhen_eq_done.mp hstart
  obtain ⟨entries, hlayout⟩ := h.layout
  have hsize := hlayout.size
  have hused := hlayout.used
  have hsmall := h.length.trans_le h.small
  have hptr : p.len ≤ p.context.ptr := Nat.le_add_right _ _
  obtain ⟨hwriting, hroom⟩ := (Writing.refl h.inside hptr).writeRecord.post hrecord
  have hlength := hwriting.frame.length
  have henter : wp (dnsRrAddEnd type rtype len) (fun _ _ => True) (fun _ => False) (p.store d) := by
    refine (hlayout.store rfl le_rfl hwriting.frame).wp_dnsRrAddEnd type rtype len ?_ ?_ ?_
      (fun _ _ => trivial)
    · exact hused.trans hsmall
    · exact fun hfits => hfits.trans (hlength.trans_le hsmall)
    · intro hfull
      change d.data.length < p.len + len + sizeofRrs at hfull
      simp only [Packet.context, sizeofPacket] at hroom hlength hsize
      omega
  simp only [wp, hfail] at henter

/-- Two client subnets with one prefix are both added, or none is, with the same outcome. -/
theorem Filled.addOptEcs_alike (h : Filled N p) {e e' : OptEcs}
    (hsources : e.sourcePrefix = e'.sourcePrefix) :
    (∃ q q', dnsAddOptEcs e p = .done () q ∧ dnsAddOptEcs e' p = .done () q') ∨
      (dnsAddOptEcs e p = dnsAddOptEcs e' p ∧ (dnsAddOptEcs e p).isDone = false) := by
  by_cases hsource : e.sourcePrefix ≤ 128
  case neg =>
    rw [dnsAddOptEcs_fault hsource, dnsAddOptEcs_fault (hsources ▸ hsource)]
    exact .inr ⟨rfl, rfl⟩
  have hlen : e'.raw.length = e.raw.length := by
    simp only [OptEcs.raw, length_append, length_leBytes, length_take, Vector.length_toList,
      length_cons, hsources]
  have hsafe := h.addOptEcs hsource
  have hsafe' := h.addOptEcs (hsources ▸ hsource)
  rw [dnsAddOptEcs_eq hsource] at hsafe ⊢
  rw [dnsAddOptEcs_eq (hsources ▸ hsource)] at hsafe' ⊢
  cases hadd : dnsAddRaw .opt optEcs (CStr.ofBuffer []) 0 e.raw p with
  | fault reason =>
    simp only [wp, hadd] at hsafe
  | failed s => exact .inr ⟨(h.addRaw_failed hlen hadd).symm, rfl⟩
  | done _ q =>
    cases hadd' : dnsAddRaw .opt optEcs (CStr.ofBuffer []) 0 e'.raw p with
    | fault reason =>
      simp only [wp, hadd'] at hsafe'
    | failed s =>
      rw [h.addRaw_failed hlen.symm hadd'] at hadd
      cases hadd
    | done _ q' => exact .inl ⟨q, q', rfl, rfl⟩

end Refused

/-! ## Reading the head -/

section Read

variable {c : Context} {qtype qclass ttl rrLen : Nat}

/-- The head of a record of the root is read while another buffer is written. -/
theorem dnsGetRrsHead_root {rrs len : Nat} (hlen : p.rrsLen rrs = some len) (hin : 11 ≤ len)
    (h : At (ofList p.data) (rrs + sizeofRrs) (rootHead qtype qclass ttl rrLen))
    (hqtype : qtype < 2 ^ 16) (hqclass : qclass < 2 ^ 16) :
    dnsGetRrsHead p rrs c = .done (⟨[], qtype, qclass, ttl % 2 ^ 32, rrLen % 2 ^ 16⟩,
      ⟨p.data, rrs + sizeofRrs + len, rrs + sizeofRrs + 11, p.namedict⟩) c := by
  have hcells := at_writtenImage h (i := rrs + sizeofRrs) (j := rrs + sizeofRrs + 11) le_rfl
    (by simp)
  simp only [rootHead, append_assoc, Image.at_append] at hcells
  obtain ⟨hzero, htype, hclass, -⟩ := hcells
  have hquestion : dnsGetQrHead maxCnameLen
      ⟨p.data, rrs + sizeofRrs + len, rrs + sizeofRrs, p.namedict⟩ = .done ([], qtype, qclass)
        ⟨p.data, rrs + sizeofRrs + len, rrs + sizeofRrs + 5, p.namedict⟩ := by
    refine dnsGetQrHead_questionAt (n := DomainName.root) (writtenImage_le p.data _ _)
      ((writtenImage_below _ (Nat.le_add_right _ 11)).mono
        (show rrs + sizeofRrs + 11 ≤ rrs + sizeofRrs + len by omega)) ?_ hqtype hqclass
    refine ⟨rrs + sizeofRrs + 1, .root (Image.at_cons.mp hzero).1, ?_, rfl⟩
    rw [Image.at_append]
    exact ⟨htype, hclass⟩
  simp only [rootHead, Image.at_append, length_append, length_beBytes, length_singleton] at h
  obtain ⟨⟨-, httl⟩, hrrLen⟩ := h
  refine wp.eq_done ?_
  simp only [dnsGetRrsHead, dnsInitContextByRrs, hlen, wp_bind, wp_orAbort, wp_pure, wp_aside,
    dnsGetRrHead, wp_attempt, dnsReadInt, dnsReadShort]
  refine ⟨len, rfl, wp_of_done hquestion ?_⟩
  refine wp_failWhen_leftLen (by simp only; omega) ?_
  refine wp_readBytes_at httl (length_beBytes _ _) ?_
  refine wp_readBytes_at hrrLen (length_beBytes _ _) ?_
  rw [beNat_beBytes, beNat_beBytes]
  exact ⟨rfl, trivial⟩

end Read

/-! ## Encoding the last option -/

section Encode

variable {c c' : Context} {α β : Type} {u : Unit} {rrs : Nat}

theorem writeBytes_eq_done {bs : Bytes} :
    writeBytes bs c = .done u c' ↔ (bs = [] ∨ c.ptr + bs.length ≤ c.data.length) ∧
      { c with data := overwrite c.data c.ptr bs, ptr := c.ptr + bs.length } = c' := by
  simp only [writeBytes, patch, advance, writeAt, bind_eq_done, get_eq_done, orAbort_eq_done,
    modify_eq_done, Option.ite_none_right_eq_some, Option.some.injEq]
  constructor
  · rintro ⟨_, _, ⟨rfl, rfl⟩, _, _, ⟨_, _, ⟨rfl, rfl⟩, _, _, ⟨⟨hin, rfl⟩, rfl⟩, rfl⟩, rfl⟩
    exact ⟨hin, rfl⟩
  · rintro ⟨hin, rfl⟩
    exact ⟨c, c, ⟨rfl, rfl⟩, (), _, ⟨c, c, ⟨rfl, rfl⟩, _, c, ⟨⟨hin, rfl⟩, rfl⟩, rfl⟩, rfl⟩

/-- A program that never moves the cursor back. -/
def Forward (m : Prog DnsFault Context α) : Prop :=
  ∀ c a c', m c = .done a c' → c.ptr ≤ c'.ptr

theorem Forward.bind {m : Prog DnsFault Context α} {f : α → Prog DnsFault Context β}
    (hm : Forward m) (hf : ∀ a, Forward (f a)) : Forward (m >>= f) := by
  intro c b c' h
  obtain ⟨a, d, hfirst, hrest⟩ := bind_eq_done.mp h
  exact (hm c a d hfirst).trans (hf a d b c' hrest)

theorem forward_writeBytes (bs : Bytes) : Forward (writeBytes bs) := by
  intro c u c' h
  obtain ⟨-, rfl⟩ := writeBytes_eq_done.mp h
  exact Nat.le_add_right _ _

theorem forward_orAbort (e : DnsFault) (o : Option α) : Forward (orAbort e o) := by
  intro c a c' h
  exact (congrArg Context.ptr (orAbort_eq_done.mp h).2).le

theorem forward_failWhen (P : Context → Prop) [DecidablePred P] : Forward (failWhen P) := by
  intro c u c' h
  exact (congrArg Context.ptr (failWhen_eq_done.mp h).2).le

theorem forward_dnsGetRrsHead : Forward (dnsGetRrsHead p rrs) := by
  refine Forward.bind ((forward_orAbort _ _).bind fun len => ?_) fun context => ?_
  · intro c a c' h
    exact (congrArg Context.ptr (pure_eq_done.mp h).2).le
  · intro c a c' h
    exact (congrArg Context.ptr (aside_eq_done.mp h).2).le

theorem forward_dnsEncodeOpt : Forward (dnsEncodeOpt p rrs) := by
  refine forward_dnsGetRrsHead.bind fun head => (forward_failWhen _).bind fun _ => ?_
  refine (forward_failWhen _).bind fun _ => (forward_orAbort _ _).bind fun code => ?_
  refine (forward_orAbort _ _).bind fun length => (forward_writeBytes _).bind fun _ => ?_
  refine (forward_writeBytes _).bind fun _ => (forward_failWhen _).bind fun _ => ?_
  split
  · refine ((forward_orAbort _ _).bind fun _ => forward_writeBytes _).bind fun _ => ?_
    refine (forward_orAbort _ _).bind fun _ => (forward_writeBytes _).bind fun _ => ?_
    split
    · exact nofun
    · exact (forward_orAbort _ _).bind fun _ => forward_writeBytes _
  · exact (forward_orAbort _ _).bind fun _ => forward_writeBytes _

theorem forNodes_last {body : Nat → Prog DnsFault Context α} {ns : List Nat} {n : Nat}
    {as : List α} (hbody : ∀ n, Forward (body n)) (h : forNodes body (ns ++ [n]) c = .done as c') :
    ∃ d a, c.ptr ≤ d.ptr ∧ body n d = .done a c' := by
  induction ns generalizing c as with
  | nil =>
    simp only [nil_append, forNodes, bind_eq_done, pure_eq_done] at h
    obtain ⟨a, d, hlast, _, _, ⟨-, rfl⟩, -, rfl⟩ := h
    exact ⟨c, a, le_rfl, hlast⟩
  | cons first ns ih =>
    simp only [cons_append, forNodes, bind_eq_done, pure_eq_done] at h
    obtain ⟨a, d, hfirst, _, _, hrest, -, rfl⟩ := h
    obtain ⟨e, b, hle, hlast⟩ := ih hrest
    exact ⟨e, b, (hbody first c a d hfirst).trans hle, hlast⟩

/-- The bytes of a client subnet in a message, behind the code and the length of the option. -/
def OptEcs.wire (ecs : OptEcs) : Bytes :=
  beBytes 2 ecs.family ++ [UInt8.ofNat ecs.sourcePrefix, UInt8.ofNat ecs.scopePrefix] ++
    ecs.addr.toList.take (prefixBytes ecs.sourcePrefix)

theorem at_suffix {m bs : Bytes} {i : Nat} (h : At (ofList m) i bs) :
    bs <:+ m.take (i + bs.length) := by
  have hread := h.read
  rw [readAt, Option.ite_none_right_eq_some, Option.some.injEq, take_drop] at hread
  exact ⟨_, (congrArg _ hread.2.symm).trans (take_append_drop i _)⟩

theorem length_take_addr {ecs : OptEcs} (hsource : ecs.sourcePrefix ≤ 128) :
    (ecs.addr.toList.take (prefixBytes ecs.sourcePrefix)).length =
      prefixBytes ecs.sourcePrefix := by
  rw [length_take, Vector.length_toList, min_eq_left (prefixBytes_le hsource)]

/-- Bytes that are written one behind another. -/
theorem writeBytes_append {a b : Bytes} {d : Context} (hne : a ≠ [])
    (ha : writeBytes a c = .done u d) (hb : writeBytes b d = .done u c') :
    writeBytes (a ++ b) c = .done u c' := by
  obtain ⟨hin, rfl⟩ := writeBytes_eq_done.mp ha
  have hin := hin.resolve_left hne
  obtain ⟨hin', rfl⟩ := writeBytes_eq_done.mp hb
  rcases eq_or_ne b [] with rfl | hb
  · simpa using ha
  have hin' := hin'.resolve_left hb
  simp only [length_overwrite hin] at hin'
  have hall : c.ptr + (a ++ b).length ≤ c.data.length := by
    rw [length_append]
    omega
  refine writeBytes_eq_done.mpr ⟨.inr hall, ?_⟩
  rw [overwrite_append a b hall, length_append, Nat.add_assoc]

/-- The fields of a client subnet as they are read from its record. -/
theorem RootLast.reads {ecs : OptEcs} (h : RootLast p rrs optEcs ecs.raw)
    (hsource : ecs.sourcePrefix ≤ 128) {i : Nat} (hi : rrs + sizeofRrs + 11 = i) :
    readAt p.data i 2 = some (leBytes 2 optEcs) ∧
      readAt p.data (i + 2) 2 = some (leBytes 2 (4 + prefixBytes ecs.sourcePrefix)) ∧
      readAt p.data (i + 4) 2 = some (leBytes 2 ecs.family) ∧
      readAt p.data (i + 6) 2 =
        some [UInt8.ofNat ecs.sourcePrefix, UInt8.ofNat ecs.scopePrefix] ∧
      readAt p.data (i + 8) (prefixBytes ecs.sourcePrefix) =
        some (ecs.addr.toList.take (prefixBytes ecs.sourcePrefix)) := by
  have hraw := (Image.at_append.mp h.bytes).2
  simp only [OptEcs.raw, Image.at_append, length_append, length_leBytes, length_rootHead,
    length_cons, length_nil, hi] at hraw
  obtain ⟨⟨hcode, hlength⟩, ⟨hfamily, hprefixes⟩, haddr⟩ := hraw
  have hread := haddr.read
  rw [length_take_addr hsource] at hread
  exact ⟨hcode.read, hlength.read, hfamily.read, hprefixes.read, hread⟩

/-- What `_dns_encode_OPT` writes last. -/
theorem RootLast.dnsEncodeOpt_ends {ecs : OptEcs} (h : RootLast p rrs optEcs ecs.raw)
    (hsource : ecs.sourcePrefix ≤ 128) (hdone : dnsEncodeOpt p rrs c = .done u c') :
    ∃ d, d.ptr = c.ptr + 4 ∧ writeBytes ecs.wire d = .done u c' := by
  obtain ⟨entries, hlayout⟩ := h.layout
  have hhead := @dnsGetRrsHead_root p c _ _ _ _ rrs _ (hlayout.lens
    ⟨.opt, rrs, 11 + ecs.raw.length⟩ (by simp)) (Nat.le_add_right _ _)
    (Image.at_append.mp h.bytes).1 (by decide) (by decide)
  obtain ⟨hcode, hlength, hfamily, hprefixes, haddr⟩ := h.reads hsource rfl
  have hbytes := prefixBytes_le hsource
  simp only [rrAaaaLen] at hbytes
  have hlen : leNat (leBytes 2 (4 + prefixBytes ecs.sourcePrefix)) =
      4 + prefixBytes ecs.sourcePrefix := by
    rw [leNat_leBytes, Nat.mod_eq_of_lt (by omega)]
  have hcode' : leNat (leBytes 2 optEcs) = optEcs := by decide
  have hwire : beBytes 2 (leNat (leBytes 2 ecs.family)) = beBytes 2 ecs.family := by
    have hback := beBytes_beNat (beBytes 2 ecs.family)
    rwa [length_beBytes, ← reverse_reverse (beBytes 2 ecs.family)] at hback
  simp only [dnsEncodeOpt, dnsWriteShort, bind_eq_done, hhead, failWhen_eq_done, orAbort_eq_done,
    Outcome.done.injEq] at hdone
  obtain ⟨_, _, ⟨rfl, rfl⟩, _, _, ⟨-, rfl⟩, _, _, ⟨-, rfl⟩, code, _, ⟨hc, rfl⟩, len, _, ⟨hl, rfl⟩,
    _, d₁, hwrite₁, _, d₂, hwrite₂, _, _, ⟨-, rfl⟩, hrest⟩ := hdone
  obtain ⟨-, rfl⟩ := writeBytes_eq_done.mp hwrite₁
  obtain ⟨-, rfl⟩ := writeBytes_eq_done.mp hwrite₂
  obtain rfl := Option.some.inj (hcode.symm.trans hc)
  obtain rfl := Option.some.inj (hlength.symm.trans hl)
  rw [if_pos hcode', hlen, if_neg (by omega), Nat.add_sub_cancel_left] at hrest
  simp only [dnsWriteShortptr, dnsWriteShort, hfamily, hprefixes, haddr, bind_eq_done,
    orAbort_eq_done, Option.some.injEq] at hrest
  obtain ⟨_, _, ⟨_, _, ⟨rfl, rfl⟩, hwrite₃⟩, _, _, ⟨rfl, rfl⟩, _, d₄, hwrite₄, _, _, ⟨rfl, rfl⟩,
    hwrite₅⟩ := hrest
  rw [hwire] at hwrite₃
  refine ⟨_, ?_, writeBytes_append (by simp) (writeBytes_append ?_ hwrite₃ hwrite₄) hwrite₅⟩
  · simp
  · exact List.ne_nil_of_length_pos (by simp)

/-- The cursor behind the head of a record. -/
theorem dnsEncodeRrHead_ptr {domain : CStr} {qtype qclass ttl rrLen n : Nat}
    (h : dnsEncodeRrHead domain qtype qclass ttl rrLen c = .done n c') : 10 ≤ c'.ptr := by
  simp only [dnsEncodeRrHead, dnsEncodeQrHead, dnsWriteShort, dnsWriteInt, bind_eq_done,
    failWhen_eq_done, get_eq_done, pure_eq_done, writeBytes_eq_done] at h
  obtain ⟨_, _, ⟨_, d, -, _, _, ⟨-, rfl⟩, _, _, ⟨-, rfl⟩, -, rfl⟩, _, _, ⟨-, rfl⟩, _, _, ⟨-, rfl⟩,
    _, _, ⟨-, rfl⟩, _, _, ⟨-, rfl⟩, -, rfl⟩ := h
  simp only [length_beBytes]
  omega

/-- What `dns_encode` writes last, the counts of the head apart. -/
theorem RootLast.dnsEncode_ends {ecs : OptEcs} {head : Head}
    (h : RootLast p rrs optEcs ecs.raw) (hsource : ecs.sourcePrefix ≤ 128)
    (hdone : dnsEncode p c = .done head c') : ecs.wire <:+ c'.data.take c'.ptr := by
  obtain ⟨entries, hlayout⟩ := h.layout
  have hchain := chainOf_append entries ⟨.opt, rrs, 11 + ecs.raw.length⟩ .opt
  rw [if_pos rfl] at hchain
  have hcount : p.count .opt = (chainOf entries .opt ++ [rrs]).length := by
    rw [hlayout.count, hchain]
  have hlinked := hlayout.chains.linked .opt
  have hwalk := @forSection_eq_forNodes _ _ p (dnsEncodeOpt p) _ _ (hchain ▸ hlinked) hcount
  have hsome : 0 < p.count .opt := by
    rw [hcount, length_append]
    exact Nat.succ_pos _
  rw [dnsEncode, dnsEncodeBody, if_pos (.inl hsome)] at hdone
  simp only [dnsEncodeOpts, dnsEncodeHeadCount, patch, bind_eq_done, pure_eq_done, get_eq_done,
    failWhen_eq_done, orAbort_eq_done, modify_eq_done, hwalk] at hdone
  obtain ⟨_, _, -, _, d, ⟨_, _, -, _, _, -, _, _, -, _, _, -, _, _, ⟨_, _, -, _, d₁, hhead, _, _,
    ⟨-, rfl⟩, _, _, hnodes, -, rfl⟩, -, rfl⟩, _, _, ⟨_, _, ⟨rfl, rfl⟩, data, _, ⟨hdata, rfl⟩, rfl⟩,
    -, rfl⟩ := hdone
  obtain ⟨d₂, _, hle, hlast⟩ := forNodes_last (fun _ => forward_dnsEncodeOpt) hnodes
  obtain ⟨d₃, hptr, hwire⟩ := h.dnsEncodeOpt_ends hsource hlast
  have hten := dnsEncodeRrHead_ptr hhead
  obtain ⟨hin, rfl⟩ := writeBytes_eq_done.mp hwire
  have hin := hin.resolve_left (ne_nil_of_length_pos (by simp [OptEcs.wire]))
  rw [writeAt, Option.ite_none_right_eq_some, Option.some.injEq] at hdata
  obtain ⟨hpatch, rfl⟩ := hdata
  refine at_suffix ((Image.at_overwrite hin).overwrite (hpatch.resolve_left ?_) (.inr ?_))
  · exact ne_nil_of_length_pos (by simp [headCounts])
  · simp only [headCounts, length_append, length_beBytes]
    omega

/-- **The bytes of a client subnet end the message** when it was added last. -/
theorem Filled.ecs_ends {ecs : OptEcs} {p' : Packet} {head : Head} (h : Filled N p)
    (hadd : dnsAddOptEcs ecs p = .done () p') (hdone : dnsEncode p' c = .done head c') :
    ecs.wire <:+ c'.data.take c'.ptr := by
  have hsource : ecs.sourcePrefix ≤ 128 := by
    by_contra hlong
    rw [dnsAddOptEcs_fault hlong] at hadd
    cases hadd
  rw [dnsAddOptEcs_eq hsource] at hadd
  exact ((h.wp_addRaw_root optEcs ecs.raw).post hadd).dnsEncode_ends hsource hdone

end Encode

end SmartDns.Dns
