import SmartDns.Lib.Memory

/-!
# Domain names and their compressed form

A domain name is a list of labels; its text joins them with dots and determines them.
In a message a name is a sequence of labels, each after its length, that ends
with a zero byte or with a pointer to an earlier place where the rest of the
name stands.  `NameAt G i ls j` says that the image `G` holds the name `ls` at
`i` and that the bytes of this occurrence end in front of `j`.  A pointer leads
to a label, never to a further pointer.
-/

namespace SmartDns

open List

/-- `'.'`. -/
def dot : UInt8 := 46

structure Label where
  bytes : Bytes
  nonempty : bytes ≠ []
  short : bytes.length ≤ 63
  plain : ∀ b ∈ bytes, b ≠ 0 ∧ b ≠ dot
deriving DecidableEq

namespace Label

@[ext] theorem ext {l l' : Label} (h : l.bytes = l'.bytes) : l = l' := by
  cases l
  cases l'
  subst h
  rfl

theorem length_pos (l : Label) : 0 < l.bytes.length :=
  length_pos_iff.mpr l.nonempty

/-- A label behind its length. -/
def wire (l : Label) : Bytes :=
  UInt8.ofNat l.bytes.length :: l.bytes

@[simp] theorem length_wire (l : Label) : l.wire.length = l.bytes.length + 1 := rfl

theorem toNat_ofNat_length (l : Label) : (UInt8.ofNat l.bytes.length).toNat = l.bytes.length := by
  have h := l.short
  simp only [UInt8.toNat_ofNat']
  omega

end Label

/-- The labels behind a first one, each after a dot. -/
def dotted : List Label → Bytes
  | [] => []
  | l :: ls => dot :: (l.bytes ++ dotted ls)

def text : List Label → Bytes
  | [] => []
  | l :: ls => l.bytes ++ dotted ls

theorem text_cons_cons (l l' : Label) (ls : List Label) :
    text (l :: l' :: ls) = l.bytes ++ dot :: text (l' :: ls) := rfl

theorem text_ne_nil {ls : List Label} (h : ls ≠ []) : text ls ≠ [] := by
  cases ls with
  | nil => exact absurd rfl h
  | cons l ls =>
    intro htext
    exact l.nonempty (append_eq_nil_iff.mp htext).1

theorem dotted_noNul (ls : List Label) : ∀ b ∈ dotted ls, b ≠ 0 := by
  induction ls with
  | nil => simp [dotted]
  | cons l ls ih =>
  intro b hb
  simp only [dotted, mem_cons, mem_append] at hb
  rcases hb with rfl | hb | hb
  · decide
  · exact (l.plain b hb).1
  · exact ih b hb

theorem text_noNul (ls : List Label) : ∀ b ∈ text ls, b ≠ 0 := by
  intro b hb
  cases ls with
  | nil => simp [text] at hb
  | cons l ls =>
    rcases mem_append.mp hb with hb | hb
    · exact (l.plain b hb).1
    · exact dotted_noNul ls b hb

theorem takeWhile_text (l : Label) (ls : List Label) :
    (text (l :: ls)).takeWhile (fun b => b != dot) = l.bytes := by
  have hplain : ∀ b ∈ l.bytes, (b != dot) = true := by
    intro b hb
    simpa using (l.plain b hb).2
  have hstop : (dotted ls).takeWhile (fun b => b != dot) = [] := by
    cases ls with
    | nil => rfl
    | cons l' ls => simp [dotted]
  rw [text, takeWhile_append_of_pos hplain, hstop, append_nil]

/-- **A name is determined by its text.** -/
theorem text_injective {ls ls' : List Label} (h : text ls = text ls') : ls = ls' := by
  induction ls generalizing ls' with
  | nil =>
    cases ls' with
    | nil => rfl
    | cons l' ls' => exact absurd h.symm (text_ne_nil (cons_ne_nil _ _))
  | cons l ls ih =>
  cases ls' with
  | nil => exact absurd h (text_ne_nil (cons_ne_nil _ _))
  | cons l' ls' =>
  have hbytes : l.bytes = l'.bytes := by rw [← takeWhile_text l ls, h, takeWhile_text]
  obtain rfl : l = l' := Label.ext hbytes
  have hrest : dotted ls = dotted ls' := append_cancel_left h
  congr 1
  cases ls with
  | nil =>
    cases ls' with
    | nil => rfl
    | cons _ _ => simp [dotted] at hrest
  | cons k ls =>
    cases ls' with
    | nil => simp [dotted] at hrest
    | cons k' ls' =>
      apply ih
      simpa [dotted, text] using hrest

/-- A name of at most 253 characters. -/
structure DomainName where
  labels : List Label
  fits : (text labels).length ≤ 253
deriving DecidableEq

namespace DomainName

/-- The text of a domain name, as a C string. -/
def toCStr (n : DomainName) : CStr where
  bytes := text n.labels
  noNul := text_noNul n.labels

@[simp] theorem toCStr_bytes (n : DomainName) : n.toCStr.bytes = text n.labels := rfl

/-- The root. -/
def root : DomainName where
  labels := []
  fits := by decide

end DomainName

/-- The name `ls` stands at `i`, and its bytes there end in front of `j`. -/
inductive NameAt (G : Image UInt8) : Nat → List Label → Nat → Prop
  | root {i : Nat} :
      G i = some 0 → NameAt G i [] (i + 1)
  | label {i j : Nat} {l : Label} {ls : List Label} :
      G.At i l.wire → NameAt G (i + l.wire.length) ls j → NameAt G i (l :: ls) j
  | pointer {i t j : Nat} {l : Label} {ls : List Label} :
      G.At i (beBytes 2 (0xC000 + t)) → t < 0x4000 →
      G.At t l.wire → NameAt G (t + l.wire.length) ls j →
      NameAt G i (l :: ls) (i + 2)

namespace NameAt

variable {G H : Image UInt8} {i j n : Nat} {ls : List Label}

theorem mono (h : NameAt G i ls j) (hle : Image.Le G H) : NameAt H i ls j := by
  induction h with
  | root hz => exact .root (hle _ _ hz)
  | label hl _ ih => exact .label (hl.mono hle) ih
  | pointer hp ht hl _ ih => exact .pointer (hp.mono hle) ht (hl.mono hle) ih

theorem lt (h : NameAt G i ls j) : i < j := by
  induction h with
  | root _ => omega
  | label _ _ ih => omega
  | pointer _ _ _ _ _ => omega

theorem le_of_below (h : NameAt G i ls j) (hG : G.Below n) : j ≤ n := by
  induction h with
  | @root i hz =>
    by_contra hlt
    rw [hG i (by omega)] at hz
    cases hz
  | label _ _ ih => exact ih
  | @pointer i t j l ls hp _ _ _ _ =>
    by_contra hlt
    have hcell := hp 1 _ rfl
    rw [hG (i + 1) (by omega)] at hcell
    cases hcell

end NameAt

/-- A place that a pointer may lead to: the first label of a name. -/
inductive TargetAt (G : Image UInt8) : Nat → List Label → Prop
  | mk {t j : Nat} {l : Label} {ls : List Label} :
      G.At t l.wire → NameAt G (t + l.wire.length) ls j → TargetAt G t (l :: ls)

namespace TargetAt

variable {G H : Image UInt8} {i t n : Nat} {ls : List Label}

variable (h : TargetAt G t ls)
include h

theorem mono (hle : Image.Le G H) : TargetAt H t ls := by
  cases h with
  | mk hl hn => exact .mk (hl.mono hle) (hn.mono hle)

theorem nameAt : ∃ j, NameAt G t ls j := by
  cases h with
  | mk hl hn => exact ⟨_, .label hl hn⟩

theorem pointer (ht : t < 0x4000) (hi : G.At i (beBytes 2 (0xC000 + t))) :
    NameAt G i ls (i + 2) := by
  cases h with
  | mk hl hn => exact .pointer hi ht hl hn

theorem lt_of_below (hG : G.Below n) : t < n := by
  obtain ⟨j, hj⟩ := h.nameAt
  exact hj.lt.trans_le (hj.le_of_below hG)

end TargetAt

/-- The bytes of `W` from `i` to `j` spell a name: labels, and then a zero byte or a
pointer to a place where the rest stands, of which `T` tells. -/
inductive SpeltAt (T : Nat → List Label → Prop) (W : Image UInt8) :
    Nat → List Label → Nat → Prop
  | root {i : Nat} :
      W i = some 0 → SpeltAt T W i [] (i + 1)
  | label {i j : Nat} {l : Label} {ls : List Label} :
      W.At i l.wire → SpeltAt T W (i + l.wire.length) ls j → SpeltAt T W i (l :: ls) j
  | pointer {i t : Nat} {l : Label} {ls : List Label} :
      W.At i (beBytes 2 (0xC000 + t)) → T t (l :: ls) → SpeltAt T W i (l :: ls) (i + 2)

namespace SpeltAt

variable {T : Nat → List Label → Prop} {W W' G H : Image UInt8} {i j : Nat} {ls : List Label}

theorem mono (h : SpeltAt T W i ls j) (hle : Image.Le W W') : SpeltAt T W' i ls j := by
  induction h with
  | root hz => exact .root (hle _ _ hz)
  | label hl _ ih => exact .label (hl.mono hle) ih
  | pointer hp ht => exact .pointer (hp.mono hle) ht

/-- A name that is spelt with pointers to places of an image stands in every image that
has the bytes and the image. -/
theorem nameAt (h : SpeltAt T W i ls j) (hT : ∀ t s, T t s → t < 0x4000 ∧ TargetAt G t s)
    (hW : Image.Le W H) (hG : Image.Le G H) :
    NameAt H i ls j := by
  induction h with
  | root hz => exact .root (hW _ _ hz)
  | label hl _ ih => exact .label (hl.mono hW) ih
  | @pointer i t l ls hp ht =>
    obtain ⟨hlt, htarget⟩ := hT t _ ht
    exact (htarget.mono hG).pointer hlt (hp.mono hW)

end SpeltAt

/-- A label stands at the place, and behind it the rest of the name is spelt. -/
inductive LabelAt (T : Nat → List Label → Prop) (W : Image UInt8) : Nat → List Label → Prop
  | mk {i j : Nat} {l : Label} {ls : List Label} :
      W.At i l.wire → SpeltAt T W (i + l.wire.length) ls j → LabelAt T W i (l :: ls)

namespace LabelAt

variable {T : Nat → List Label → Prop} {W W' G H : Image UInt8} {i n : Nat} {ls : List Label}

theorem mono (h : LabelAt T W i ls) (hle : Image.Le W W') : LabelAt T W' i ls := by
  cases h with
  | mk hl hrest => exact .mk (hl.mono hle) (hrest.mono hle)

theorem lt_of_below (h : LabelAt T W i ls) (hW : W.Below n) : i < n := by
  cases h with
  | mk hl _ =>
    by_contra hge
    have hcell := (Image.at_cons.mp hl).1
    rw [hW i (by omega)] at hcell
    cases hcell

end LabelAt

/-- The names that a name ends with, itself included and the root left out. -/
def nameSuffixes : List Label → List (List Label)
  | [] => []
  | l :: ls => (l :: ls) :: nameSuffixes ls

theorem ne_nil_of_mem_nameSuffixes {ls s : List Label} (hs : s ∈ nameSuffixes ls) : s ≠ [] := by
  induction ls with
  | nil => cases hs
  | cons l ls ih =>
    rcases mem_cons.mp hs with rfl | hs
    · exact cons_ne_nil l ls
    · exact ih hs

theorem length_text_suffix {ls s : List Label} (hs : s ∈ nameSuffixes ls) :
    (text s).length ≤ (text ls).length := by
  induction ls with
  | nil => cases hs
  | cons l ls ih =>
  rcases mem_cons.mp hs with rfl | hs
  · exact le_rfl
  · refine (ih hs).trans ?_
    cases ls with
    | nil => simp [text]
    | cons l' ls =>
      rw [text_cons_cons, length_append, length_cons]
      omega

end SmartDns
