import SmartDns.Dns.NameCodec
import SmartDns.Lib.Runs

/-!
# Names written one after another

A message is written piece by piece into one context with one dictionary:
names, and other bytes between them.  A run is sound when, at every name, no
dictionary entry that the name would use leads to another name, and the name
is not cut off to the root for want of room.
-/

namespace SmartDns.Dns

open Image (ofList)

/-- What is written into a message. -/
inductive Piece
  | name (n : DomainName)
  | bytes (bs : Bytes)
deriving DecidableEq

def Piece.name? : Piece → Option DomainName
  | .name n => some n
  | .bytes _ => none

/-- Where a name was written. -/
structure Span where
  name : DomainName
  start : Nat
  stop : Nat
deriving DecidableEq

/-- A message being written.  `ok` says that every write succeeded so far, and
`spans` records the names. -/
structure Writer where
  context : Context
  ok : Bool
  spans : List Span
deriving DecidableEq

open Writer

def startWriter (buffer : Bytes) : Writer where
  context := ⟨buffer, buffer.length, 0, []⟩
  ok := true
  spans := []

def writePiece : Piece → Prog DnsFault Context Unit
  | .name n => do
      let _ ← dnsEncodeDomain n.toCStr
      pure ()
  | .bytes bs => do
      Prog.failWhen (fun c => c.leftLen < bs.length)
      writeBytes bs

/-- The record of a written piece. -/
def Piece.span (p : Piece) (start stop : Nat) : List Span :=
  p.name?.toList.map (fun n => ⟨n, start, stop⟩)

def Writer.write (w : Writer) (p : Piece) : Writer :=
  match writePiece p w.context with
  | .done _ c =>
    { w with
      context := c
      spans := w.spans ++ p.span w.context.ptr c.ptr }
  | .failed c => { w with context := c, ok := false }
  | .fault _ => { w with ok := false }

def Writer.message (w : Writer) : Bytes :=
  w.context.data.take w.context.ptr

/-- At `pos` the name decoder finds `name`. -/
def decodesTo (c : Context) (pos : Nat) (name : Bytes) : Bool :=
  match dnsGetDomainFromPacket c.data c.maxsize maxCnameLen pos with
  | .done out _ => out = name
  | _ => false

/-- The name can be written soundly: it is not cut off to the root, its
suffixes have different hashes, and every entry of the dictionary with the
hash of a suffix leads to that suffix. -/
def NameSafe (c : Context) (n : DomainName) : Prop :=
  (n.labels ≠ [] → c.leftLen ≠ 2) ∧ SuffixesDiffer n.labels ∧
    ∀ s ∈ nameSuffixes n.labels, ∀ item ∈ c.namedict,
      item.hash = dictHash (text s) → decodesTo c item.pos (text s) = true

instance (ls : List Label) : Decidable (SuffixesDiffer ls) :=
  inferInstanceAs (Decidable ((nameSuffixes ls).Pairwise _))

instance (c : Context) (n : DomainName) : Decidable (NameSafe c n) :=
  inferInstanceAs (Decidable (_ ∧ _ ∧ _))

/-- The condition on the next piece, in the state before it is written. -/
def PieceSafe (w : Writer) : Piece → Prop
  | .name n => NameSafe w.context n
  | .bytes _ => True

instance (w : Writer) (p : Piece) : Decidable (PieceSafe w p) :=
  match p with
  | .name n => inferInstanceAs (Decidable (NameSafe w.context n))
  | .bytes _ => inferInstanceAs (Decidable True)

/-- Under the condition every entry that the name would use leads to the right
suffix. -/
theorem NamesOk.matchOk {G : Image UInt8} {c : Context} {n : DomainName}
    (hok : NamesOk G c) (hsafe : NameSafe c n) :
    MatchOk G c.namedict n.labels := by
  intro s hs item hitem hhash
  obtain ⟨ls, hlen, -, htarget⟩ := hok.dict item hitem
  obtain ⟨j, hname⟩ := htarget.nameAt
  have hdecode : dnsGetDomainFromPacket c.data c.maxsize maxCnameLen item.pos = .done (text ls) j :=
    dnsGetDomainFromPacket_nameAt hok.image (hok.below.mono hok.room) hname
      (by simp only [maxCnameLen]; omega)
  have heq := hsafe.2.2 s hs item hitem hhash
  simp only [decodesTo, hdecode, decide_eq_true_eq] at heq
  obtain rfl := text_injective heq
  exact htarget

theorem NamesOk.writeBytes {G : Image UInt8} {c : Context} (hok : NamesOk G c) (bs : Bytes) :
    Prog.wp (writePiece (.bytes bs)) (fun _ c' => NamesOk G c' ∧ c'.maxsize = c.maxsize)
      (fun _ => True) c := by
  simp only [writePiece, Prog.wp_bind, Prog.wp_failWhen]
  refine ⟨fun _ => trivial, fun hleft => ?_⟩
  have hinside := hok.inside
  simp only [Context.leftLen] at hleft
  have hin : c.ptr + bs.length ≤ c.data.length := by omega
  refine wp_writeBytes hin ⟨⟨?_, ?_, ?_, ?_, hok.dict⟩, rfl⟩
  · rw [length_overwrite hin]
    exact hinside
  · simp only
    omega
  · exact hok.image.overwrite hin (fun k hk _ => hok.below k hk)
  · exact hok.below.mono (by simp)

/-- The invariant of a run: every recorded name stands in the message. -/
def WriterOk (w : Writer) : Prop :=
  w.ok = true → w.context.maxsize ≤ 0x4000 ∧
    ∃ G : Image UInt8, NamesOk G w.context ∧
      ∀ span ∈ w.spans, NameAt G span.start span.name.labels span.stop

theorem WriterOk.write {w : Writer} {p : Piece} (hinv : WriterOk w) (hsafe : PieceSafe w p) :
    WriterOk (w.write p) := by
  intro hok'
  cases hrun : writePiece p w.context with
  | failed | fault => simp [Writer.write, hrun] at hok'
  | done u c =>
  simp only [Writer.write, hrun] at hok' ⊢
  obtain ⟨hsmall, G, hok, hspans⟩ := hinv hok'
  cases p with
  | bytes bs =>
    obtain ⟨hok₁, hmax⟩ := (hok.writeBytes bs).post hrun
    refine ⟨hmax ▸ hsmall, G, hok₁, ?_⟩
    simpa [Piece.span, Piece.name?] using hspans
  | name n =>
  have hwrite := Prog.wp_and
    (dnsEncodeDomain_spec hok hsmall (hok.matchOk hsafe) hsafe.2.1 hsafe.1)
    ((Writing.refl hok.inside le_rfl).encodeDomain n.toCStr)
  have hpiece : Prog.wp (writePiece (.name n)) (fun _ c' =>
      (NameAt (G.cover c'.data w.context.ptr c'.ptr) w.context.ptr n.labels c'.ptr ∧
        NamesOk (G.cover c'.data w.context.ptr c'.ptr) c') ∧
      Context.Frame w.context.ptr w.context c') (fun _ => True) w.context := by
    simp only [writePiece, Prog.wp_bind, Prog.wp_pure]
    exact Prog.wp_mono hwrite (fun _ _ h => ⟨h.1, h.2.1.frame⟩) (fun _ _ => trivial)
  obtain ⟨⟨hname, hok₁⟩, hframe⟩ := hpiece.post hrun
  refine ⟨hframe.maxsize ▸ hsmall, _, hok₁, ?_⟩
  intro span hspan
  rcases List.mem_append.mp hspan with hspan | hspan
  · exact (hspans span hspan).mono
      (Image.cover_self_le (hok.image.congr hok.below hframe.below))
  · obtain rfl : span = ⟨n, w.context.ptr, c.ptr⟩ := by
      simpa [Piece.span, Piece.name?] using hspan
    exact hname

/-- The spans of a run without failure are those of its names, in order. -/
theorem run_spans (w : Writer) (pieces : List Piece) (hok : (run write w pieces).ok = true) :
    w.ok = true ∧ (run write w pieces).spans.map Span.name =
      w.spans.map Span.name ++ pieces.filterMap Piece.name? := by
  induction pieces generalizing w with
  | nil => simpa using hok
  | cons p pieces ih =>
  obtain ⟨hok₁, hspans⟩ := ih (w.write p) hok
  rw [run_cons, hspans]
  cases hrun : writePiece p w.context with
  | failed | fault => simp [write, hrun] at hok₁
  | done u c =>
    simp only [write, hrun] at hok₁ ⊢
    refine ⟨hok₁, ?_⟩
    cases p with
    | name n => simp [Piece.span, Piece.name?]
    | bytes bs => simp [Piece.span, Piece.name?, List.filterMap_cons]

/-- **Name compression is lossless**, in every run whose writes are sound:
each name is read back from the message, up to the end of its bytes. -/
theorem names_lossless (buffer : Bytes) (hbuffer : buffer.length ≤ 16384) (pieces : List Piece)
    (hsafe : Admissible write PieceSafe (startWriter buffer) pieces)
    (hok : (run write (startWriter buffer) pieces).ok = true) :
    let w := run write (startWriter buffer) pieces
    w.spans.map Span.name = pieces.filterMap Piece.name? ∧ ∀ span ∈ w.spans, ∀ size, 255 ≤ size →
        dnsGetDomainFromPacket w.message w.message.length size span.start =
          .done (text span.name.labels) span.stop := by
  intro w
  have hstart : WriterOk (startWriter buffer) := by
    intro _
    refine ⟨hbuffer, fun _ => none, ⟨le_rfl, Nat.zero_le _, ?_, fun _ _ => rfl, ?_⟩, ?_⟩
    · intro i a h
      cases h
    · intro item hitem
      cases hitem
    · intro span hspan
      cases hspan
  have hinv : WriterOk w :=
    run_invariant write WriterOk (fun _ _ h h' => h.write h') hstart hsafe
  refine ⟨(run_spans _ _ hok).2, ?_⟩
  obtain ⟨-, G, hnames, hspans⟩ := hinv hok
  intro span hspan size hsize
  have hlen : w.message.length = w.context.ptr := by
    have := hnames.inside
    have := hnames.room
    rw [message, List.length_take]
    omega
  refine dnsGetDomainFromPacket_nameAt (G := G) ?_ ?_ (hspans span hspan) ?_
  · refine hnames.image.congr hnames.below ?_
    intro k hk
    exact List.getElem?_take_of_lt hk
  · rw [hlen]
    exact hnames.below
  · have := span.name.fits
    omega

theorem plain_of_all {s : Bytes} (h : s.all (fun b => b != 0 && b != dot) = true) :
    ∀ b ∈ s, b ≠ 0 ∧ b ≠ dot := by
  intro b hb
  have hplain := List.all_eq_true.mp h b hb
  simpa using hplain

theorem text_single_fits (l : Label) : (text [l]).length ≤ 253 := by
  have hshort := l.short
  simp only [text, dotted, List.append_nil]
  omega

/-- A name of one label. -/
def singleLabel (s : String) (hne : ascii s ≠ []) (hshort : (ascii s).length ≤ 63)
    (hplain : ∀ b ∈ ascii s, b ≠ 0 ∧ b ≠ dot) : DomainName where
  labels := [⟨ascii s, hne, hshort, hplain⟩]
  fits := text_single_fits ⟨ascii s, hne, hshort, hplain⟩

/-- The label `a`. -/
def labelA : Label :=
  ⟨ascii "a", by decide, by decide, plain_of_all (by decide)⟩

/-- The label `b`. -/
def labelB : Label :=
  ⟨ascii "b", by decide, by decide, plain_of_all (by decide)⟩

/-- `a.b`. -/
def plainName : DomainName where
  labels := [labelA, labelB]
  fits := by decide

/-- `a.b` and `x.b`, which share their last label. -/
def sharedSuffix : List Piece :=
  [.name plainName, .bytes [0xFF, 0xFF],
    .name ⟨[⟨ascii "x", by decide, by decide, plain_of_all (by decide)⟩, labelB], by decide⟩]

theorem names_lossless_sharedSuffix :
    (run write (startWriter (List.replicate 24 0)) sharedSuffix).message =
        [1, 97, 1, 98, 0, 0xFF, 0xFF, 1, 120, 0xC0, 2] ∧
      dnsGetDomainFromPacket
          (run write (startWriter (List.replicate 24 0)) sharedSuffix).message
          (run write (startWriter (List.replicate 24 0)) sharedSuffix).message.length 256 7 =
        .done (ascii "x.b") 11 := by
  refine ⟨by decide +kernel, ?_⟩
  have h := (names_lossless (List.replicate 24 0) (by decide) sharedSuffix
    ⟨by decide +kernel, trivial, by decide +kernel, trivial⟩ (by decide +kernel)).2
  exact h ⟨⟨[⟨ascii "x", by decide, by decide, plain_of_all (by decide)⟩, labelB], by decide⟩,
    7, 11⟩ (by decide +kernel) 256 (by decide)

/-- `Aa` and `BB`, which have the same hash. -/
def collidingRun : Writer :=
  run write (startWriter (List.replicate 16 0))
    [.name (singleLabel "Aa" (by decide) (by decide) (plain_of_all (by decide))),
      .name (singleLabel "BB" (by decide) (by decide) (plain_of_all (by decide)))]

/-- A name with two bytes left for it. -/
def cutOffRun : Writer :=
  run write (startWriter (List.replicate 2 0))
    [.name (singleLabel "b" (by decide) (by decide) (plain_of_all (by decide)))]

/-- The two ways in which a write goes wrong although it succeeds: `BB` becomes
a pointer to `Aa`, and with two bytes left a name is written as the root. -/
theorem names_not_lossless :
    (collidingRun.ok = true ∧ collidingRun.spans =
        [⟨singleLabel "Aa" (by decide) (by decide) (plain_of_all (by decide)), 0, 4⟩,
          ⟨singleLabel "BB" (by decide) (by decide) (plain_of_all (by decide)), 4, 6⟩] ∧
      dnsGetDomainFromPacket collidingRun.message collidingRun.message.length 256 4 =
        .done (ascii "Aa") 6) ∧
    (cutOffRun.ok = true ∧
      cutOffRun.spans = [⟨singleLabel "b" (by decide) (by decide) (plain_of_all (by decide)),
        0, 1⟩] ∧
      dnsGetDomainFromPacket cutOffRun.message cutOffRun.message.length 256 0 = .done [] 1) := by
  decide +kernel

end SmartDns.Dns
