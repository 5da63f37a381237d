import SmartDns.Lib.Bytes

/-!
# The HPACK tables

The static table and the dynamic table of `http_parse/hpack.c`: insertion with
eviction, resizing, and the two searches.

A context is well formed when its recorded size is the sum of the entry sizes
and stays below its maximum, which bounds the indices the encoder can emit.
Allocation is taken to succeed.
-/

namespace SmartDns.Hpack

open List

variable {hpack : HpackContext}

/-- `struct hpack_dynamic_entry`, without its link. -/
structure HpackDynamicEntry where
  name : CStr
  value : CStr
  size : Nat
deriving DecidableEq

/-- `struct hpack_context`; the newest entry is at the head of the list. -/
structure HpackContext where
  dynamicTable : List HpackDynamicEntry
  dynamicTableSize : Nat
  maxDynamicTableSize : Nat
  entryCount : Int
deriving DecidableEq

def hpackMaxDynamicTableSize : Nat := 65536

def hpackInitContext : HpackContext where
  dynamicTable := []
  dynamicTableSize := 0
  maxDynamicTableSize := 65536
  entryCount := 0

def hpackStaticTable : List (CStr × CStr) :=
  [
    (":authority", ""), (":method", "GET"), (":method", "POST"), (":path", "/"),
    (":path", "/index.html"), (":scheme", "http"), (":scheme", "https"), (":status", "200"),
    (":status", "204"), (":status", "206"), (":status", "304"), (":status", "400"),
    (":status", "404"), (":status", "500"), ("accept-charset", ""),
    ("accept-encoding", "gzip, deflate"), ("accept-language", ""), ("accept-ranges", ""),
    ("accept", ""), ("access-control-allow-origin", ""), ("age", ""), ("allow", ""),
    ("authorization", ""), ("cache-control", ""), ("content-disposition", ""),
    ("content-encoding", ""), ("content-language", ""), ("content-length", ""),
    ("content-location", ""), ("content-range", ""), ("content-type", ""), ("cookie", ""),
    ("date", ""), ("etag", ""), ("expect", ""), ("expires", ""), ("from", ""), ("host", ""),
    ("if-match", ""), ("if-modified-since", ""), ("if-none-match", ""), ("if-range", ""),
    ("if-unmodified-since", ""), ("last-modified", ""), ("link", ""), ("location", ""),
    ("max-forwards", ""), ("proxy-authenticate", ""), ("proxy-authorization", ""), ("range", ""),
    ("referer", ""), ("refresh", ""), ("retry-after", ""), ("server", ""), ("set-cookie", ""),
    ("strict-transport-security", ""), ("transfer-encoding", ""), ("user-agent", ""), ("vary", ""),
    ("via", ""), ("www-authenticate", "")].map
      fun (name, value) => (CStr.ofString name, CStr.ofString value)

def hpackStaticTableSize : Nat := 61

theorem hpackStaticTable_length : hpackStaticTable.length = hpackStaticTableSize := rfl

/-- Name length plus value length plus 32. -/
def entrySize (name value : CStr) : Nat :=
  name.strlen + value.strlen + 32

/--
Eviction from the tail while the table and `extra` exceed the maximum.  The
recursion is on the number of entries.
-/
def hpackEvict (extra : Nat) (hpack : HpackContext) : HpackContext :=
  go hpack.dynamicTable.length hpack
where
  go : Nat → HpackContext → HpackContext
    | 0, hpack => hpack
    | n + 1, hpack =>
      if hpack.maxDynamicTableSize < hpack.dynamicTableSize + extra then
        match hpack.dynamicTable.getLast? with
        | none => hpack
        | some last =>
          go n
            { hpack with
              dynamicTable := hpack.dynamicTable.dropLast
              dynamicTableSize := hpack.dynamicTableSize - last.size
              entryCount := hpack.entryCount - 1 }
      else hpack

section

variable (hpack : HpackContext)

def hpackAddDynamicEntry (name value : CStr) : HpackContext :=
  let size := entrySize name value
  let hpack := hpackEvict size hpack
  if hpack.maxDynamicTableSize < size then hpack
  else
    { hpack with
      dynamicTable := ⟨name, value, size⟩ :: hpack.dynamicTable
      dynamicTableSize := hpack.dynamicTableSize + size
      entryCount := hpack.entryCount + 1 }

def hpackResizeDynamicTable (newSize : Nat) : HpackContext :=
  hpackEvict 0 { hpack with maxDynamicTableSize := newSize }

def hpackGetEntry (index : Nat) : Option (CStr × CStr) :=
  if index = 0 then none
  else if index ≤ hpackStaticTableSize then hpackStaticTable[index - 1]?
  else
    (hpack.dynamicTable[index - hpackStaticTableSize - 1]?).map
      (fun e => (e.name, e.value))

/--
One search loop of `hpack_find_index`: `pos` is the index of the head of the
list, `nameOnly` the first index at which the name alone was found so far.
-/
def hpackFindIn (name value : CStr) :
    List (CStr × CStr) → (pos nameOnly : Nat) → Nat × Nat
  | [], _, nameOnly => (0, nameOnly)
  | entry :: entries, pos, nameOnly =>
    if entry.1 = name then
      let nameOnly := if nameOnly = 0 then pos else nameOnly
      if entry.2 = value then (pos, nameOnly)
      else hpackFindIn name value entries (pos + 1) nameOnly
    else hpackFindIn name value entries (pos + 1) nameOnly

/-- `hpack_find_index`: the static table first, then the dynamic one. -/
def hpackFindIndex (name value : CStr) : Nat × Nat :=
  match hpackFindIn name value hpackStaticTable 1 0 with
  | (0, nameOnly) =>
    hpackFindIn name value
      (hpack.dynamicTable.map (fun e => (e.name, e.value)))
      (hpackStaticTableSize + 1) nameOnly
  | found => found

end

/-- Sum of the recorded entry sizes. -/
def tableSize (entries : List HpackDynamicEntry) : Nat :=
  (entries.map HpackDynamicEntry.size).sum

@[simp] theorem tableSize_nil : tableSize [] = 0 := rfl

@[simp] theorem tableSize_cons (e : HpackDynamicEntry) (entries : List HpackDynamicEntry) :
    tableSize (e :: entries) = e.size + tableSize entries := by
  simp [tableSize]

@[simp] theorem tableSize_append (es fs : List HpackDynamicEntry) :
    tableSize (es ++ fs) = tableSize es + tableSize fs := by
  simp [tableSize]

/-- The size accounting that every table operation keeps. -/
structure HpackContext.Accounted (hpack : HpackContext) : Prop where
  entries : ∀ e ∈ hpack.dynamicTable, e.size = entrySize e.name e.value
  size : hpack.dynamicTableSize = tableSize hpack.dynamicTable
  count : hpack.entryCount = hpack.dynamicTable.length

/-- A context as the connection holds it between two operations. -/
structure HpackContext.Wf (hpack : HpackContext) : Prop
    extends hpack.Accounted where
  le_max : hpack.dynamicTableSize ≤ hpack.maxDynamicTableSize
  max_lt : hpack.maxDynamicTableSize < 2 ^ 64

theorem hpackInitContext_wf : hpackInitContext.Wf := by
  refine ⟨⟨?_, rfl, rfl⟩, ?_, ?_⟩
  · intro e he
    simp [hpackInitContext] at he
  · decide
  · decide

/-- What eviction does: it drops a tail, and stops when `extra` fits. -/
theorem hpackEvict_go_spec (extra n : Nat) (hpack : HpackContext) (hacc : hpack.Accounted)
    (hn : hpack.dynamicTable.length ≤ n) :
    (hpackEvict.go extra n hpack).Accounted ∧
    (hpackEvict.go extra n hpack).maxDynamicTableSize = hpack.maxDynamicTableSize ∧
    ((hpackEvict.go extra n hpack).dynamicTableSize + extra ≤ hpack.maxDynamicTableSize ∨
      (hpackEvict.go extra n hpack).dynamicTableSize = 0) := by
  induction n generalizing hpack with
  | zero =>
    have hnil : hpack.dynamicTable = [] := eq_nil_of_length_eq_zero (by omega)
    refine ⟨hacc, rfl, Or.inr ?_⟩
    show hpack.dynamicTableSize = 0
    rw [hacc.size, hnil]
    rfl
  | succ n ih =>
  unfold hpackEvict.go
  split
  case isFalse hfits => exact ⟨hacc, rfl, Or.inl (by omega)⟩
  case isTrue =>
  cases hlast : hpack.dynamicTable.getLast? with
  | none =>
    have hnil : hpack.dynamicTable = [] := by simpa using hlast
    refine ⟨hacc, rfl, Or.inr ?_⟩
    show hpack.dynamicTableSize = 0
    rw [hacc.size, hnil]
    rfl
  | some last =>
  have happ : hpack.dynamicTable.dropLast ++ [last] = hpack.dynamicTable :=
    dropLast_append_getLast? last hlast
  have hlen : hpack.dynamicTable.length = hpack.dynamicTable.dropLast.length + 1 := by
    rw [← happ]
    simp
  apply ih
  · refine ⟨?_, ?_, ?_⟩
    · intro e he
      exact hacc.entries e (mem_of_mem_dropLast he)
    · have hsum := hacc.size
      rw [← happ] at hsum
      simp only [tableSize_append, tableSize_cons, tableSize_nil] at hsum
      simp only
      omega
    · have hcount := hacc.count
      simp only
      omega
  · simp only
    omega

theorem hpackEvict_spec (extra : Nat) (hacc : hpack.Accounted) :
    (hpackEvict extra hpack).Accounted ∧
    (hpackEvict extra hpack).maxDynamicTableSize = hpack.maxDynamicTableSize ∧
    ((hpackEvict extra hpack).dynamicTableSize + extra ≤ hpack.maxDynamicTableSize ∨
      (hpackEvict extra hpack).dynamicTableSize = 0) :=
  hpackEvict_go_spec extra _ hpack hacc le_rfl

theorem hpackAddDynamicEntry_wf (hwf : hpack.Wf) (name value : CStr) :
    (hpackAddDynamicEntry hpack name value).Wf := by
  obtain ⟨hacc, hmax, hroom⟩ :=
    hpackEvict_spec (entrySize name value) hwf.toAccounted
  have hlt := hwf.max_lt
  unfold hpackAddDynamicEntry
  simp only
  split
  case isTrue htoobig =>
    refine ⟨hacc, ?_, ?_⟩
    · rcases hroom with hroom | hroom <;> omega
    · omega
  case isFalse hfits =>
  refine ⟨⟨?_, ?_, ?_⟩, ?_, ?_⟩
  · intro e he
    rcases mem_cons.mp he with rfl | he
    · rfl
    · exact hacc.entries e he
  · have hsize := hacc.size
    simp only [tableSize_cons]
    omega
  · have hcount := hacc.count
    simp only [length_cons]
    omega
  · simp only
    rcases hroom with hroom | hroom <;> omega
  · simp only
    omega

theorem hpackResizeDynamicTable_wf
    {newSize : Nat} (hacc : hpack.Accounted) (hsize : newSize < 2 ^ 64) :
    (hpackResizeDynamicTable hpack newSize).Wf := by
  have hacc' : ({ hpack with maxDynamicTableSize := newSize } : HpackContext).Accounted :=
    ⟨hacc.entries, hacc.size, hacc.count⟩
  obtain ⟨hres, hmax, hroom⟩ := hpackEvict_spec 0 hacc'
  refine ⟨hres, ?_, ?_⟩
  · unfold hpackResizeDynamicTable
    omega
  · unfold hpackResizeDynamicTable
    simp only at hmax
    omega

theorem HpackContext.Accounted.length_le (hacc : hpack.Accounted) :
    32 * hpack.dynamicTable.length ≤ hpack.dynamicTableSize := by
  rw [hacc.size]
  have h : ∀ entries : List HpackDynamicEntry, (∀ e ∈ entries, e.size = entrySize e.name e.value) →
      32 * entries.length ≤ tableSize entries := by
    intro entries
    induction entries with
    | nil =>
      intro _
      simp
    | cons e entries ih =>
      intro hall
      have he := hall e (by simp)
      have hrest := ih (fun f hf => hall f (mem_cons_of_mem _ hf))
      unfold entrySize at he
      simp only [length_cons, tableSize_cons]
      omega
  exact h _ hacc.entries

variable (hpack : HpackContext)

/-- The two tables behind one index space, which starts at 1. -/
def HpackContext.rows : List (CStr × CStr) :=
  hpackStaticTable ++ hpack.dynamicTable.map (fun e => (e.name, e.value))

theorem hpackGetEntry_eq_rows {index : Nat} (hpos : 0 < index) :
    hpackGetEntry hpack index = hpack.rows[index - 1]? := by
  unfold hpackGetEntry HpackContext.rows
  rw [if_neg (by omega)]
  split
  case isTrue hstatic => rw [getElem?_append_left (by rw [hpackStaticTable_length]; omega)]
  case isFalse hdynamic =>
    rw [getElem?_append_right (by rw [hpackStaticTable_length]; omega),
      hpackStaticTable_length, getElem?_map]
    congr 2

theorem hpackFindIn_spec (name value : CStr) (rows : List (CStr × CStr)) (pos nameOnly : Nat) :
    ((hpackFindIn name value rows pos nameOnly).1 = 0 ∨
      ∃ k, (hpackFindIn name value rows pos nameOnly).1 = pos + k ∧ rows[k]? = some (name, value)) ∧
    ((hpackFindIn name value rows pos nameOnly).2 = nameOnly ∨
      ∃ k v, (hpackFindIn name value rows pos nameOnly).2 = pos + k ∧
        rows[k]? = some (name, v)) := by
  induction rows generalizing pos nameOnly with
  | nil => simp [hpackFindIn]
  | cons entry rows ih =>
  obtain ⟨entryName, entryValue⟩ := entry
  -- what the search finds further on it finds one place later here
  have lift₁ : ∀ {r : Nat}, (r = 0 ∨ ∃ k, r = pos + 1 + k ∧ rows[k]? = some (name, value)) →
      (r = 0 ∨ ∃ k, r = pos + k ∧
        ((entryName, entryValue) :: rows)[k]? = some (name, value)) := by
    rintro r (hr | ⟨k, hr, hk⟩)
    · exact Or.inl hr
    · exact Or.inr ⟨k + 1, by omega, by simpa using hk⟩
  have lift₂ : ∀ {r : Nat}, (∃ k v, r = pos + 1 + k ∧ rows[k]? = some (name, v)) →
      ∃ k v, r = pos + k ∧ ((entryName, entryValue) :: rows)[k]? = some (name, v) := by
    rintro r ⟨k, v, hr, hk⟩
    exact ⟨k + 1, v, by omega, by simpa using hk⟩
  unfold hpackFindIn
  simp only
  split
  case isFalse =>
    obtain ⟨h₁, h₂⟩ := ih (pos + 1) nameOnly
    exact ⟨lift₁ h₁, h₂.imp_right lift₂⟩
  case isTrue hname =>
  subst hname
  have hhere : ∀ r : Nat, r = (if nameOnly = 0 then pos else nameOnly) →
      r = nameOnly ∨ ∃ k v, r = pos + k ∧ ((entryName, entryValue) :: rows)[k]? =
          some (entryName, v) := by
    intro r hr
    split at hr
    · exact Or.inr ⟨0, entryValue, by omega, rfl⟩
    · exact Or.inl hr
  split
  case isTrue hvalue =>
    subst hvalue
    exact ⟨Or.inr ⟨0, rfl, rfl⟩, hhere _ rfl⟩
  case isFalse =>
  obtain ⟨h₁, h₂⟩ :=
    ih (pos + 1) (if nameOnly = 0 then pos else nameOnly)
  refine ⟨lift₁ h₁, ?_⟩
  rcases h₂ with h₂ | h₂
  · exact hhere _ h₂
  · exact Or.inr (lift₂ h₂)

/--
An index of `hpack_find_index` names the header itself, and its name-only
index names a row with the same name.
-/
theorem hpackFindIndex_spec (name value : CStr) :
    ((hpackFindIndex hpack name value).1 = 0 ∨
      hpack.rows[(hpackFindIndex hpack name value).1 - 1]? = some (name, value)) ∧
    ((hpackFindIndex hpack name value).2 = 0 ∨
      ∃ v, hpack.rows[(hpackFindIndex hpack name value).2 - 1]? = some (name, v)) := by
  have hstatic : ∀ {k : Nat} {row : CStr × CStr},
      hpackStaticTable[k]? = some row → hpack.rows[k]? = some row := by
    intro k row hk
    have hlt : k < hpackStaticTable.length := by
      by_contra hge
      rw [getElem?_eq_none (by omega)] at hk
      cases hk
    unfold HpackContext.rows
    rw [getElem?_append_left hlt, hk]
  have hdynamic : ∀ {k : Nat} {row : CStr × CStr},
      (hpack.dynamicTable.map (fun e => (e.name, e.value)))[k]? = some row →
      hpack.rows[hpackStaticTableSize + k]? = some row := by
    intro k row hk
    unfold HpackContext.rows
    rw [getElem?_append_right (by rw [hpackStaticTable_length]; omega),
      hpackStaticTable_length, Nat.add_sub_cancel_left, hk]
  obtain ⟨hs₁, hs₂⟩ := hpackFindIn_spec name value hpackStaticTable 1 0
  unfold hpackFindIndex
  split
  case h_2 found hfound =>
    refine ⟨?_, ?_⟩
    · rcases hs₁ with hs₁ | ⟨k, hr, hk⟩
      · exact Or.inl hs₁
      · right
        rw [hr, Nat.add_sub_cancel_left]
        exact hstatic hk
    · rcases hs₂ with hs₂ | ⟨k, v, hr, hk⟩
      · exact Or.inl hs₂
      · right
        refine ⟨v, ?_⟩
        rw [hr, Nat.add_sub_cancel_left]
        exact hstatic hk
  case h_1 nameOnly hfound =>
  rw [hfound] at hs₂
  obtain ⟨hd₁, hd₂⟩ :=
    hpackFindIn_spec name value (hpack.dynamicTable.map (fun e => (e.name, e.value)))
      (hpackStaticTableSize + 1) nameOnly
  refine ⟨?_, ?_⟩
  · rcases hd₁ with hd₁ | ⟨k, hr, hk⟩
    · exact Or.inl hd₁
    · right
      rw [hr]
      have hk' := hdynamic hk
      rw [show hpackStaticTableSize + 1 + k - 1 = hpackStaticTableSize + k by omega]
      exact hk'
  · rcases hd₂ with hd₂ | ⟨k, v, hr, hk⟩
    · rw [hd₂]
      rcases hs₂ with hs₂ | ⟨k, v, hr, hk⟩
      · exact Or.inl hs₂
      · right
        refine ⟨v, ?_⟩
        simp only at hr
        rw [hr, Nat.add_sub_cancel_left]
        exact hstatic hk
    · right
      refine ⟨v, ?_⟩
      rw [hr]
      have hk' := hdynamic hk
      rw [show hpackStaticTableSize + 1 + k - 1 = hpackStaticTableSize + k by omega]
      exact hk'

end SmartDns.Hpack
