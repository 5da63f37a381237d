import SmartDns.Http3.Codec

/-!
# Huffman flags of a header block

Every string of a QPACK field line has a flag of its own that says whether it is
Huffman coded.  `_http3_parse_headers_payload` keeps the flag in a variable that
it clears once for each line, and a line with a literal name has two strings.

The parser is written here once more with a log of its calls to
`_quic_read_string`.  Apart from the log it computes the same.
-/

namespace SmartDns.Http3

/-! ## The parser with a log -/

/-- A string that is read: the flag in front of it, and how it is decoded. -/
structure StringRead where
  flag : Bool
  huffman : Bool
deriving DecidableEq, Repr

/-- A result and the strings read on the way. -/
abbrev Logged (α : Type) := List StringRead × Except Int α

/-- Go on after a success. -/
def Logged.andThen {α β : Type} (x : Logged α) (next : α → Logged β) : Logged β :=
  match x with
  | (log, .error e) => (log, .error e)
  | (log, .ok a) => (log ++ (next a).1, (next a).2)

/-- `readHeadString` where `mask` selects the flag; behind the end there is no string. -/
def readHeadStringLogged (h : ReceivedHead) (data : Bytes) (n mask : Nat) (huffman : Bool) :
    Logged (ReceivedHead × CStr × Bytes) :=
  (if data = [] then [] else [⟨firstByteHas mask data, huffman⟩], readHeadString h data n huffman)

/-- `parseHeader` with a log. -/
def parseHeaderLogged (h : ReceivedHead) (data : Bytes) :
    Logged (ReceivedHead × CStr × Option CStr × Bytes) :=
  if firstByteHas 0x80 data then
    -- an indexed line has no strings
    ([], parseHeader h data)
  else if firstByteHas 0x40 data then
    if firstByteHas 0x10 data then
      match quicReadVarint data 4 with
      | none => ([], .error (-1))
      | some (index, rest) =>
        match qpackGetStaticHeaderField index with
        | none => ([], .error (-2))
        | some (name, _) =>
          (readHeadStringLogged h rest 7 0x80 (firstByteHas 0x80 rest)).andThen
            fun (h, value, rest) => ([], .ok (h, name, some value, rest))
    else ([], .error (-2))
  else if firstByteHas 0x20 data then
    let huffman := firstByteHas 0x8 data
    (readHeadStringLogged h data 3 0x8 huffman).andThen fun (h, name, rest) =>
      -- `use_huffman` still holds the flag of the name
      (readHeadStringLogged h rest 7 0x80 (huffman || firstByteHas 0x80 rest)).andThen
        fun (h, value, rest) => ([], .ok (h, name, some value, rest))
  else ([], .error (-2))

/-- `parseHeadersLoop` with a log. -/
def parseHeadersLoopLogged : (fuel : Nat) → ReceivedHead → Bytes → Logged ReceivedHead
  | _, h, [] => ([], .ok h)
  | 0, _, _ :: _ => ([], .error (-1))
  | fuel + 1, h, b :: data =>
    (parseHeaderLogged h (b :: data)).andThen fun line =>
      match line with
      | (h, name, some value, rest) =>
        parseHeadersLoopLogged fuel { h with fields := h.fields ++ [(name, value)] } rest
      | (h, _, none, _) => ([], .ok h)

/-- `http3ParseHeadersPayload` with a log. -/
def http3ParseHeadersPayloadLogged (h : ReceivedHead) (data : Bytes) : Logged ReceivedHead :=
  match data with
  | insertCount :: deltaBase :: rest =>
    if insertCount ≠ 0 ∨ deltaBase ≠ 0 then ([], .error (-2))
    else parseHeadersLoopLogged rest.length h rest
  | _ => ([], .error (-1))

/-! ### Without the log it is the parser -/

@[simp] theorem andThen_error {α β : Type} (log : List StringRead) (e : Int) (next : α → Logged β) :
    Logged.andThen (log, .error e) next = (log, .error e) :=
  rfl

@[simp] theorem andThen_ok {α β : Type} (log : List StringRead) (a : α) (next : α → Logged β) :
    Logged.andThen (log, .ok a) next = (log ++ (next a).1, (next a).2) :=
  rfl

theorem parseHeaderLogged_result (h : ReceivedHead) (data : Bytes) :
    (parseHeaderLogged h data).2 = parseHeader h data := by
  by_cases h80 : firstByteHas 0x80 data = true
  · rw [parseHeaderLogged, if_pos h80]
  by_cases h40 : firstByteHas 0x40 data = true
  · by_cases h10 : firstByteHas 0x10 data = true
    · simp only [parseHeaderLogged, parseHeader, h80, h40, h10, if_true, if_false,
        Bool.false_eq_true]
      cases quicReadVarint data 4 with
      | none => rfl
      | some found =>
        obtain ⟨index, rest⟩ := found
        simp only
        cases qpackGetStaticHeaderField index with
        | none => rfl
        | some field =>
          simp only [readHeadStringLogged]
          cases readHeadString h rest 7 (firstByteHas 0x80 rest) with
          | error e => rfl
          | ok result => rfl
    · simp [parseHeaderLogged, parseHeader, h80, h40, h10]
  · by_cases h20 : firstByteHas 0x20 data = true
    · simp only [parseHeaderLogged, parseHeader, h80, h40, h20, if_true, if_false,
        Bool.false_eq_true, readHeadStringLogged]
      cases readHeadString h data 3 (firstByteHas 0x8 data) with
      | error e => rfl
      | ok result =>
        obtain ⟨h₁, name, rest⟩ := result
        simp only [andThen_ok]
        cases readHeadString h₁ rest 7 (firstByteHas 0x8 data || firstByteHas 0x80 rest) with
        | error e => rfl
        | ok result => rfl
    · simp [parseHeaderLogged, parseHeader, h80, h40, h20]

theorem parseHeadersLoopLogged_result (fuel : Nat) (h : ReceivedHead) (data : Bytes) :
    (parseHeadersLoopLogged fuel h data).2 = parseHeadersLoop fuel h data := by
  induction fuel generalizing h data with
  | zero =>
    cases data with
    | nil => rfl
    | cons b data => rfl
  | succ fuel ih =>
  cases data with
  | nil => rfl
  | cons b data =>
  rw [parseHeadersLoopLogged, parseHeadersLoop, ← parseHeaderLogged_result]
  obtain ⟨log, result⟩ := parseHeaderLogged h (b :: data)
  cases result with
  | error e => rfl
  | ok line =>
    obtain ⟨h', name, value, rest⟩ := line
    cases value with
    | none => rfl
    | some value => exact ih _ rest

theorem http3ParseHeadersPayloadLogged_result (h : ReceivedHead) (data : Bytes) :
    (http3ParseHeadersPayloadLogged h data).2 = http3ParseHeadersPayload h data := by
  cases data with
  | nil => rfl
  | cons insertCount data =>
  cases data with
  | nil => rfl
  | cons deltaBase rest =>
    rw [http3ParseHeadersPayloadLogged, http3ParseHeadersPayload]
    by_cases hzero : insertCount ≠ 0 ∨ deltaBase ≠ 0
    · rw [if_pos hzero, if_pos hzero]
    · rw [if_neg hzero, if_neg hzero]
      exact parseHeadersLoopLogged_result _ h rest

/-! ## When every string is read by its own flag -/

/-- Every string is decoded with Huffman coding exactly when its flag is set. -/
def HonoursFlags (log : List StringRead) : Prop :=
  ∀ read ∈ log, read.huffman = read.flag

/-- A literal name with the flag set is read, and the value behind it has the flag clear. -/
def MixedFlags (h : ReceivedHead) (line : Bytes) : Prop :=
  firstByteHas 0x80 line = false ∧ firstByteHas 0x40 line = false ∧
    firstByteHas 0x20 line = true ∧ firstByteHas 0x8 line = true ∧
    ∃ h' name rest, readHeadString h line 3 true = .ok (h', name, rest) ∧
      rest ≠ [] ∧ firstByteHas 0x80 rest = false

/-- The lines the parser comes to, with the head it has by then. -/
inductive LineFrom : ReceivedHead → Bytes → ReceivedHead → Bytes → Prop
  | here (h : ReceivedHead) (data : Bytes) :
      LineFrom h data h data
  | next {h h₁ h' : ReceivedHead} {data rest line : Bytes} {name value : CStr}
      (hline : parseHeader h data = .ok (h₁, name, some value, rest))
      (hrest : LineFrom { h₁ with fields := h₁.fields ++ [(name, value)] } rest h' line) :
      LineFrom h data h' line

/-- The lines of a block that the parser comes to. -/
def BlockLine (h : ReceivedHead) (data : Bytes) (h' : ReceivedHead) (line : Bytes) : Prop :=
  ∃ rest, data = 0 :: 0 :: rest ∧ LineFrom h rest h' line

theorem honoursFlags_append {log log' : List StringRead} :
    HonoursFlags (log ++ log') ↔ HonoursFlags log ∧ HonoursFlags log' := by
  simp only [HonoursFlags, List.mem_append]
  constructor
  · intro hall
    exact ⟨fun read hread => hall read (Or.inl hread), fun read hread => hall read (Or.inr hread)⟩
  rintro ⟨hl, hr⟩ read (hread | hread)
  · exact hl read hread
  · exact hr read hread

theorem readHeadStringLogged_log (h : ReceivedHead) (data : Bytes) (n mask : Nat) (huffman : Bool) :
    HonoursFlags (readHeadStringLogged h data n mask huffman).1 ↔
      data = [] ∨ huffman = firstByteHas mask data := by
  by_cases hnil : data = []
  · simp [readHeadStringLogged, HonoursFlags, hnil]
  · simp [readHeadStringLogged, HonoursFlags, hnil]

theorem andThen_honours {α β : Type} {x : Logged α} {next : α → Logged β} :
    HonoursFlags (x.andThen next).1 ↔
      HonoursFlags x.1 ∧ ∀ a, x.2 = .ok a → HonoursFlags (next a).1 := by
  obtain ⟨log, result⟩ := x
  cases result with
  | error e => simp
  | ok a => simp [honoursFlags_append]

theorem parseHeaderLogged_honours_reference
    {h : ReceivedHead} {data : Bytes} (h80 : firstByteHas 0x80 data = false)
    (h40 : firstByteHas 0x40 data = true) :
    HonoursFlags (parseHeaderLogged h data).1 := by
  have hnil : HonoursFlags [] := fun read hread => by cases hread
  simp only [parseHeaderLogged, h80, h40, Bool.false_eq_true, if_true, if_false]
  split_ifs with h10
  · cases quicReadVarint data 4 with
    | none => exact hnil
    | some found =>
      obtain ⟨index, rest⟩ := found
      simp only
      cases qpackGetStaticHeaderField index with
      | none => exact hnil
      | some field =>
        refine andThen_honours.mpr ⟨?_, fun _ _ => hnil⟩
        exact (readHeadStringLogged_log _ _ _ _ _).mpr (Or.inr rfl)
  · exact hnil

/-- A line with a literal name has two, and the first one decides for the second. -/
theorem parseHeaderLogged_honours_literal
    {h : ReceivedHead} {data : Bytes} (h80 : firstByteHas 0x80 data = false)
    (h40 : firstByteHas 0x40 data = false) (h20 : firstByteHas 0x20 data = true) :
    HonoursFlags (parseHeaderLogged h data).1 ↔
      ∀ h' name rest, readHeadString h data 3 (firstByteHas 0x8 data) = .ok (h', name, rest) →
        rest = [] ∨ (firstByteHas 0x8 data = true → firstByteHas 0x80 rest = true) := by
  have hnil : HonoursFlags [] := fun read hread => by cases hread
  have hflag : ∀ a b : Bool, (a || b) = b ↔ (a = true → b = true) := by decide
  simp only [parseHeaderLogged, h80, h40, h20, Bool.false_eq_true, if_true, if_false,
    andThen_honours, readHeadStringLogged_log, or_true, true_and, hflag]
  constructor
  · intro hall h' name rest hread
    exact (hall ⟨h', name, rest⟩ hread).1
  · rintro hall ⟨h', name, rest⟩ hread
    exact ⟨hall h' name rest hread, fun _ _ => hnil⟩

/-- One line honours its flags unless the name has it set and the value clear. -/
theorem parseHeaderLogged_honours (h : ReceivedHead) (data : Bytes) :
    HonoursFlags (parseHeaderLogged h data).1 ↔ ¬ MixedFlags h data := by
  cases h80 : firstByteHas 0x80 data with
  | true => simp [parseHeaderLogged, MixedFlags, HonoursFlags, h80]
  | false =>
  cases h40 : firstByteHas 0x40 data with
  | true =>
    have hhonours := parseHeaderLogged_honours_reference (h := h) h80 h40
    simp [hhonours, MixedFlags, h40]
  | false =>
  cases h20 : firstByteHas 0x20 data with
  | false => simp [parseHeaderLogged, MixedFlags, HonoursFlags, h80, h40, h20]
  | true =>
  rw [parseHeaderLogged_honours_literal h80 h40 h20]
  cases h8 : firstByteHas 0x8 data with
  | false => simp [MixedFlags, h8]
  | true =>
    simp only [MixedFlags, h80, h40, h20, h8, true_and, true_imp_iff, not_exists,
      not_and, Bool.not_eq_false, ne_eq, or_iff_not_imp_left]

theorem parseHeadersLoopLogged_honours_nil (fuel : Nat) (h : ReceivedHead) :
    HonoursFlags (parseHeadersLoopLogged fuel h []).1 ↔
      ∀ h' line, LineFrom h [] h' line → ¬ MixedFlags h' line := by
  have hlog : (parseHeadersLoopLogged fuel h []).1 = [] := by
    cases fuel with
    | zero => rfl
    | succ fuel => rfl
  rw [hlog]
  refine iff_of_true (fun read hread => by cases hread) ?_
  intro h' line hline
  cases hline with
  | here =>
    rintro ⟨-, -, h20, -⟩
    cases h20
  | next hparse hrest => cases hparse

theorem parseHeadersLoopLogged_honours
    (fuel : Nat) (h : ReceivedHead) (data : Bytes) (hfuel : data.length ≤ fuel) :
    HonoursFlags (parseHeadersLoopLogged fuel h data).1 ↔
      ∀ h' line, LineFrom h data h' line → ¬ MixedFlags h' line := by
  induction fuel generalizing h data with
  | zero =>
    obtain rfl : data = [] := List.eq_nil_of_length_eq_zero (by omega)
    exact parseHeadersLoopLogged_honours_nil 0 h
  | succ fuel ih =>
  cases data with
  | nil => exact parseHeadersLoopLogged_honours_nil (fuel + 1) h
  | cons b data =>
  rw [parseHeadersLoopLogged, andThen_honours, parseHeaderLogged_honours,
    parseHeaderLogged_result]
  constructor
  · -- the lines are this one and those behind it
    rintro ⟨hthis, hbehind⟩ h' line hline
    cases hline with
    | here => exact hthis
    | next hparse hrest =>
      have hshort := (parseHeader_ok hparse).2
      have hhonours := hbehind _ hparse
      exact (ih _ _ (by simp at hfuel hshort ⊢; omega)).mp hhonours h' line hrest
  intro hall
  refine ⟨hall h (b :: data) (LineFrom.here _ _), ?_⟩
  rintro ⟨h₁, name, value, rest⟩ hparse
  cases value with
  | none =>
    intro read hread
    cases hread
  | some value =>
    have hshort := (parseHeader_ok hparse).2
    refine (ih _ rest (by simp at hfuel hshort ⊢; omega)).mpr ?_
    intro h' line hline
    exact hall h' line (LineFrom.next hparse hline)

/--
Every string of a block is decoded by its own flag exactly when no line that the
parser comes to has a Huffman coded literal name and a plain value.
-/
theorem headerBlock_honoursFlags_iff (h : ReceivedHead) (data : Bytes) :
    HonoursFlags (http3ParseHeadersPayloadLogged h data).1 ↔
      ∀ h' line, BlockLine h data h' line → ¬ MixedFlags h' line := by
  have hempty : HonoursFlags [] := fun read hread => by cases hread
  cases data with
  | nil =>
    refine iff_of_true hempty ?_
    rintro h' line ⟨rest, hdata, -⟩
    cases hdata
  | cons insertCount data =>
  cases data with
  | nil =>
    refine iff_of_true hempty ?_
    rintro h' line ⟨rest, hdata, -⟩
    cases hdata
  | cons deltaBase rest =>
  rw [http3ParseHeadersPayloadLogged]
  by_cases hzero : insertCount ≠ 0 ∨ deltaBase ≠ 0
  · rw [if_pos hzero]
    refine iff_of_true hempty ?_
    rintro h' line ⟨rest, hdata, -⟩
    cases hdata
    simp at hzero
  · obtain ⟨rfl, rfl⟩ : insertCount = 0 ∧ deltaBase = 0 := by simpa using hzero
    rw [if_neg hzero, parseHeadersLoopLogged_honours _ h rest le_rfl]
    constructor
    · rintro hall h' line ⟨rest', hdata, hline⟩
      cases hdata
      exact hall h' line hline
    · intro hall h' line hline
      exact hall h' line ⟨rest, rfl, hline⟩

/--
The name is the letter `a` in Huffman code, the value the plain byte `1f`.  The
value is decoded with Huffman coding and becomes the letter `a`, too.
-/
theorem headerBlock_flags_mixed :
    ¬ HonoursFlags
        (http3ParseHeadersPayloadLogged (httpHeadInit 64) [0, 0, 0x29, 0x1f, 0x01, 0x1f]).1 ∧
      (http3ParseHeadersPayload (httpHeadInit 64) [0, 0, 0x29, 0x1f, 0x01, 0x1f]).map
        (fun h => h.fields) = .ok [(CStr.ofString "a", CStr.ofString "a")] := by
  unfold HonoursFlags
  decide +kernel

end SmartDns.Http3
