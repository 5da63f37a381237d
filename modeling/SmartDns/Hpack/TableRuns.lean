import SmartDns.Hpack.Codec
import SmartDns.Lib.Runs

/-!
# The dynamic table over a run

Insertions and resizes change the dynamic table of a context.  Whatever their
order, the recorded size is the sum of the entry sizes, it stays below the
maximum, the entry count is the number of entries, and the entries are the ones
that were inserted last, the newest first.
-/

namespace SmartDns.Hpack

open List

variable {hpack : HpackContext} {log : List (CStr × CStr)}

/-- A call that changes the dynamic table. -/
inductive TableCall
  | addDynamicEntry (name value : CStr)
  | resizeDynamicTable (newSize : Nat)

def TableCall.apply (hpack : HpackContext) : TableCall → HpackContext
  | .addDynamicEntry name value => hpackAddDynamicEntry hpack name value
  | .resizeDynamicTable newSize => hpackResizeDynamicTable hpack newSize

/-- The insertions among the calls, the last one first. -/
def TableCall.inserted (log : List (CStr × CStr)) : TableCall → List (CStr × CStr)
  | .addDynamicEntry name value => (name, value) :: log
  | .resizeDynamicTable _ => log

/-- The insertions of a run, the last one first. -/
def insertions (calls : List TableCall) : List (CStr × CStr) :=
  calls.foldl TableCall.inserted []

/-- The entries of the table as header fields. -/
def HpackContext.fields (hpack : HpackContext) : List (CStr × CStr) :=
  hpack.dynamicTable.map (fun e => (e.name, e.value))

theorem hpackEvict_go_keeps (extra n : Nat) (hpack : HpackContext) :
    (hpackEvict.go extra n hpack).dynamicTable <+: hpack.dynamicTable := by
  induction n generalizing hpack with
  | zero => exact prefix_rfl
  | succ n ih =>
  rw [hpackEvict.go]
  split
  · cases hlast : hpack.dynamicTable.getLast? with
    | none => exact prefix_rfl
    | some last => exact (ih _).trans (List.dropLast_prefix hpack.dynamicTable)
  · exact prefix_rfl

theorem hpackEvict_keeps (extra : Nat) (hpack : HpackContext) :
    (hpackEvict extra hpack).dynamicTable <+: hpack.dynamicTable :=
  hpackEvict_go_keeps extra _ hpack

/-- The state of a table whose insertions so far are `log`. -/
structure Recent (hpack : HpackContext) (log : List (CStr × CStr)) : Prop
    extends hpack.Accounted where
  le_max : hpack.dynamicTableSize ≤ hpack.maxDynamicTableSize
  newest : hpack.fields <+: log

theorem recent_init : Recent hpackInitContext [] := by
  have hwf := hpackInitContext_wf
  exact ⟨hwf.toAccounted, hwf.le_max, prefix_rfl⟩

theorem Recent.addDynamicEntry (h : Recent hpack log) (name value : CStr) :
    Recent (hpackAddDynamicEntry hpack name value) ((name, value) :: log) := by
  obtain ⟨hacc, hmax, hroom⟩ := hpackEvict_spec (entrySize name value) h.toAccounted
  have hinit := (hpackEvict_keeps (entrySize name value) hpack).map (fun e => (e.name, e.value))
  rw [hpackAddDynamicEntry]
  by_cases hlarge : (hpackEvict (entrySize name value) hpack).maxDynamicTableSize <
      entrySize name value
  · have hnil : (hpackEvict (entrySize name value) hpack).dynamicTable = [] := by
      have hlen := hacc.length_le
      refine eq_nil_of_length_eq_zero ?_
      rcases hroom with hroom | hroom
      · omega
      · omega
    rw [if_pos hlarge]
    refine ⟨hacc, ?_, ?_⟩
    · rw [hacc.size, hnil]
      exact Nat.zero_le _
    · rw [HpackContext.fields, hnil]
      exact nil_prefix
  · rw [if_neg hlarge]
    refine ⟨⟨?_, ?_, ?_⟩, ?_, ?_⟩
    · intro e he
      rcases mem_cons.mp he with rfl | he
      · rfl
      · exact hacc.entries e he
    · have hsize := hacc.size
      simp only [tableSize_cons]
      omega
    · have hcount := hacc.count
      simp only [length_cons]
      push_cast
      omega
    · simp only
      rcases hroom with hroom | hroom
      · omega
      · omega
    · exact cons_prefix_cons.mpr ⟨rfl, hinit.trans h.newest⟩

theorem Recent.resizeDynamicTable (h : Recent hpack log) (newSize : Nat) :
    Recent (hpackResizeDynamicTable hpack newSize) log := by
  have hacc : ({ hpack with maxDynamicTableSize := newSize } : HpackContext).Accounted :=
    ⟨h.entries, h.size, h.count⟩
  obtain ⟨hacc', hmax, hroom⟩ := hpackEvict_spec 0 hacc
  have hinit := (hpackEvict_keeps 0 { hpack with maxDynamicTableSize := newSize }).map
    (fun e => (e.name, e.value))
  refine ⟨hacc', ?_, hinit.trans h.newest⟩
  rw [hpackResizeDynamicTable, hmax]
  rcases hroom with hroom | hroom
  · exact hroom
  · rw [hroom]
    exact Nat.zero_le _

theorem Recent.apply (h : Recent hpack log) (call : TableCall) :
    Recent (call.apply hpack) (call.inserted log) := by
  cases call with
  | addDynamicEntry name value => exact h.addDynamicEntry name value
  | resizeDynamicTable newSize => exact h.resizeDynamicTable newSize

theorem recent_run (calls : List TableCall) :
    Recent (run TableCall.apply hpackInitContext calls) (insertions calls) := by
  have hkept : ∀ (hpack : HpackContext) (log : List (CStr × CStr)), Recent hpack log →
      Recent (run TableCall.apply hpack calls) (calls.foldl TableCall.inserted log) := by
    induction calls with
    | nil =>
      intro hpack log h
      exact h
    | cons call calls ih =>
      intro hpack log h
      exact ih _ _ (h.apply call)
  exact hkept _ _ recent_init

/-- **The dynamic table is accounted for**, after every sequence of insertions and resizes. -/
theorem dynamicTable_accounting (calls : List TableCall) :
    let hpack := run TableCall.apply hpackInitContext calls
    hpack.dynamicTableSize =
        (hpack.fields.map (fun field => field.1.strlen + field.2.strlen + 32)).sum ∧
      hpack.dynamicTableSize ≤ hpack.maxDynamicTableSize ∧
      hpack.entryCount = hpack.dynamicTable.length ∧
      hpack.fields = (insertions calls).take hpack.dynamicTable.length := by
  intro hpack
  have h := recent_run calls
  refine ⟨?_, h.le_max, h.count, ?_⟩
  · rw [h.size, tableSize, HpackContext.fields, map_map]
    refine congrArg List.sum (map_congr_left ?_)
    intro e he
    rw [h.entries e he]
    rfl
  · have htake := prefix_iff_eq_take.mp h.newest
    rwa [HpackContext.fields, length_map] at htake

-- `a: b` weighs 34 and an empty field 32, so a table of 64 bytes keeps only the second one
example :
    (run TableCall.apply hpackInitContext
      [.resizeDynamicTable 64, .addDynamicEntry (CStr.ofString "a") (CStr.ofString "b"),
        .addDynamicEntry (CStr.ofString "") (CStr.ofString "")]).fields =
      [(CStr.ofString "", CStr.ofString "")] := by
  decide +kernel

/-! ## Blocks of any bytes -/

/-- A well-formed context whose maximum is within the limit of the decoder. -/
structure Limited (hpack : HpackContext) : Prop extends hpack.Wf where
  max_le : hpack.maxDynamicTableSize ≤ hpackMaxDynamicTableSize

section

variable (h : Limited hpack)
include h

theorem Limited.addDynamicEntry (name value : CStr) :
    Limited (hpackAddDynamicEntry hpack name value) := by
  refine ⟨hpackAddDynamicEntry_wf h.toWf name value, ?_⟩
  have hmax := (hpackEvict_spec (entrySize name value) h.toAccounted).2.1
  have hle := h.max_le
  simp only [hpackAddDynamicEntry]
  split
  · omega
  · simpa only [hmax] using hle

theorem Limited.resizeDynamicTable {newSize : Nat}
    (hsize : newSize ≤ hpackMaxDynamicTableSize) :
    Limited (hpackResizeDynamicTable hpack newSize) := by
  have hacc : ({ hpack with maxDynamicTableSize := newSize } : HpackContext).Accounted :=
    ⟨h.entries, h.size, h.count⟩
  have hmax := (hpackEvict_spec 0 hacc).2.1
  exact ⟨hpackResizeDynamicTable_wf h.toAccounted (hsize.trans_lt (by decide)), hmax.trans_le hsize⟩

theorem Limited.decodeField {seen : Bool} {data : Bytes} {field : HpackField}
    (hfield : hpackDecodeField hpack seen data = some field) : Limited field.ctx := by
  cases data with
  | nil => cases hfield
  | cons first data =>
  simp only [hpackDecodeField] at hfield
  split at hfield
  · split at hfield
    · cases hfield
    · obtain ⟨header, -, rfl⟩ := Option.map_eq_some_iff.mp hfield
      exact h
  split at hfield
  · obtain ⟨r, -, rfl⟩ := Option.map_eq_some_iff.mp hfield
    exact h.addDynamicEntry r.1.1 r.1.2
  split at hfield
  · iterate 3
      split at hfield
      · cases hfield
    cases hfield
    exact h.resizeDynamicTable (not_lt.mp ‹_›)
  · obtain ⟨r, -, rfl⟩ := Option.map_eq_some_iff.mp hfield
    exact h

theorem Limited.decodeHeaders {σ : Type} (onHeader : σ → CStr → CStr → Option σ) (fuel : Nat)
    (seen : Bool) (data : Bytes) (acc : σ) :
    Limited (hpackDecodeHeadersLoop onHeader fuel hpack seen data acc).ctx := by
  induction fuel generalizing hpack seen data acc with
  | zero => exact h
  | succ fuel ih =>
    rw [hpackDecodeHeadersLoop]
    split
    · exact h
    split
    · exact h
    next hfield =>
      have hnext := h.decodeField hfield
      repeat' split
      · exact ih hnext _ _ _
      · exact hnext
      · exact ih hnext _ _ _

end

/-- **The peer cannot make the decoder's table grow.**  After any header blocks, well-formed
or not, the table holds at most 2048 entries of at most 64 KiB altogether, and its recorded
size is that of its entries. -/
theorem decoder_table_bounded (blocks : List Bytes) :
    let hpack := decoderAfter hpackInitContext blocks
    hpack.dynamicTableSize = (hpack.fields.map (fun f => entrySize f.1 f.2)).sum ∧
      hpack.dynamicTableSize ≤ 65536 ∧ hpack.dynamicTable.length ≤ 2048 := by
  intro hpack
  have h : Limited hpack := by
    refine foldlRecOn blocks _ ⟨hpackInitContext_wf, le_rfl⟩ ?_
    intro hpack h block _
    exact h.decodeHeaders collectHeader block.length false block []
  have hle := h.le_max.trans h.max_le
  have hlength := h.length_le
  rw [hpackMaxDynamicTableSize] at hle
  refine ⟨?_, hle, by omega⟩
  rw [h.size, tableSize, HpackContext.fields, map_map]
  exact congrArg List.sum (map_congr_left h.entries)

end SmartDns.Hpack
