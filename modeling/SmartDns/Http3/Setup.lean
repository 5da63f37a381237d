import SmartDns.Http3.Message

/-!
# The head of a message

The parser looks the target or the status of a message up among its fields, and
the length and the coding of its body.  A name that HTTP allows for a field is
never taken for a pseudo field, and the serializer's own fields come first and
last.
-/

namespace SmartDns.Http3

open CStr List Option
open Http2 (strcaseeq isSpace isDigit digitsValue strtolAll)

variable {name : String} {field : Pair} {head : HttpHead} {p : Pair → Bool} {h : ReceivedHead}
variable {target : CStr} {data : Bytes}

/-- The head that was read is the one that was written: the kind of message,
method, path and parameters or status, and the fields in order. -/
structure SameHead (head : HttpHead) (data : Bytes) (got : HttpHead) : Prop where
  headType : got.headType = head.headType
  target : head.headType = .request →
    got.method = head.method ∧ got.url = head.url ∧ got.params = head.params
  code : head.headType = .response → got.code = head.code
  fields : got.fields = messageFields head (head.url.getD default) data

/-- The body of a head can be read back: without one no length is announced,
and one is only read with status 200 and is not changed by its coding. -/
def BodyReadsBack (inflate : Bool → Bytes → Except Int Bytes) (head : HttpHead) (data : Bytes) :
    Prop :=
  if data = [] then
    ∀ length ∈ httpHeadGetFieldsValue head "content-length",
      length.bytes = [] ∨ strtolAll length.bytes = some 0
  else
    (head.headType = .response → head.code = 200) ∧
      ∀ isGzip ∈ contentCoding head, inflate isGzip data = .ok data

/-! ## Looking fields up -/

/-- The value that a look-up in these fields finds. -/
def lastValue (fields : List Pair) (name : String) : Option CStr :=
  (fields.reverse.find? (fieldNamed name)).map Prod.snd

theorem httpHeadGetFieldsValue_eq (h : HttpHead) (name : String) :
    httpHeadGetFieldsValue h name = lastValue h.fields name :=
  rfl

theorem lastValue_append (fields more : List Pair) (name : String) :
    lastValue (fields ++ more) name = (lastValue more name).or (lastValue fields name) := by
  cases hmore : more.reverse.find? (fieldNamed name) with
  | none => simp [lastValue, hmore]
  | some field => simp [lastValue, hmore]

theorem lastValue_of_none
    {fields : List Pair} (h : ∀ field ∈ fields, fieldNamed name field = false) :
    lastValue fields name = none := by
  rw [lastValue, find?_eq_none.mpr, map_none]
  intro field hfield
  simp [h field (mem_reverse.mp hfield)]

/-- A field of a head whose name is none of those that the serializer writes itself.  A name of
more than 134 bytes does not consist of the lowest control characters alone. -/
structure PlainField (field : Pair) : Prop where
  other : ∀ name ∈ [":method", ":path", ":status"], fieldNamed name field = false
  text : 134 < field.1.bytes.length → ∃ b ∈ field.1.bytes, 8 ≤ b.toNat

/-- The two literal names are taken for one in a look-up. -/
def sameName (name other : String) : Bool :=
  strcaseeq ((ofString other).bytes.take 128) (ascii name)

theorem fieldNamed_ofString {other : String} {b : Bool} (h : sameName name other = b) (value : CStr) :
    fieldNamed name (ofString other, value) = b :=
  h

theorem lastValue_lengthPairs
    (h : sameName name "content-length" = false) (data : Bytes) :
    lastValue (lengthPairs data) name = none := by
  apply lastValue_of_none
  intro field hfield
  rw [lengthPairs] at hfield
  split_ifs at hfield
  · cases hfield
  · rw [mem_singleton.mp hfield]
    exact fieldNamed_ofString h _

theorem lastValue_pseudoPairs
    (h : [":method", ":path", ":scheme", ":status"].all (fun other => !sameName name other) = true)
    (head : HttpHead) (target : CStr) : lastValue (pseudoPairs head target) name = none := by
  simp only [all_cons, all_nil, Bool.and_true, Bool.and_eq_true, Bool.not_eq_true'] at h
  obtain ⟨hmethod, hpath, hscheme, hstatus⟩ := h
  apply lastValue_of_none
  intro field hfield
  rw [pseudoPairs] at hfield
  cases htype : head.headType with
  | request =>
    simp only [htype, mem_cons, not_mem_nil, or_false] at hfield
    rcases hfield with rfl | rfl | rfl
    · exact fieldNamed_ofString hmethod _
    · exact fieldNamed_ofString hpath _
    · exact fieldNamed_ofString hscheme _
  | response =>
    simp only [htype, mem_singleton] at hfield
    rw [hfield]
    exact fieldNamed_ofString hstatus _
  | invalid => simp [htype] at hfield

theorem lastValue_messageFields (head : HttpHead) (target : CStr) (data : Bytes) (name : String) :
    lastValue (messageFields head target data) name = (lastValue (lengthPairs data) name).or
        ((lastValue head.fields name).or (lastValue (pseudoPairs head target) name)) := by
  rw [messageFields, lastValue_append, lastValue_append]

theorem lastValue_pseudo
    (hnames : ∀ field ∈ head.fields, PlainField field)
    (hpseudo : name ∈ [":method", ":path", ":status"])
    (hlength : sameName name "content-length" = false) (target : CStr) (data : Bytes) :
    lastValue (messageFields head target data) name = lastValue (pseudoPairs head target) name := by
  have hfields : lastValue head.fields name = none :=
    lastValue_of_none fun field hfield => (hnames field hfield).other name hpseudo
  rw [lastValue_messageFields, lastValue_lengthPairs hlength, hfields, none_or,
    none_or]

theorem lastValue_length (head : HttpHead) (target : CStr) (data : Bytes) :
    lastValue (messageFields head target data) "content-length" =
      if data = [] then lastValue head.fields "content-length"
      else some (ofBuffer (decimal data.length)) := by
  rw [lastValue_messageFields, lastValue_pseudoPairs (by decide), or_none]
  split_ifs with hdata
  · simp [lengthPairs, hdata, lastValue]
  have hfound : fieldNamed "content-length"
      (ofString "content-length", ofBuffer (decimal data.length)) = true :=
    fieldNamed_ofString (by decide) _
  simp [lengthPairs, hdata, lastValue, hfound]

/-! ## Decimal numbers -/

theorem decimal_ne_nil (n : Nat) : decimal n ≠ [] := by
  rw [decimal]
  split_ifs with h0
  · simp
  · simpa using Nat.digits_ne_nil_iff_ne_zero.mpr h0

theorem digitsValue_decimal (n : Nat) : digitsValue (decimal n) = n := by
  rw [decimal]
  split_ifs with h0
  · rw [h0]
    rfl
  rw [digitsValue, map_reverse, foldl_reverse, foldr_map]
  conv_rhs => rw [← Nat.ofDigits_digits 10 n, Nat.ofDigits_eq_foldr]
  apply foldr_ext
  intro d hd value
  have hlt : d < 10 := Nat.digits_lt_base (by decide) hd
  rw [UInt8.toNat_ofNat', Nat.mod_eq_of_lt (by omega), Nat.cast_id]
  omega

theorem length_decimal_le_iff {n k : Nat} (hk : 0 < k) : (decimal n).length ≤ k ↔ n < 10 ^ k := by
  rw [decimal]
  split_ifs with h0
  · simp [h0, Nat.succ_le_of_lt hk]
  · rw [length_map, length_reverse]
    exact Nat.digits_length_le_iff (by decide) n

theorem decimal_start (n : Nat) :
    (decimal n).dropWhile isSpace = decimal n ∧ ((decimal n).head? == some 45) = false ∧
      ((decimal n).head? == some 43) = false := by
  cases hn : decimal n with
  | nil => exact absurd hn (decimal_ne_nil n)
  | cons b rest =>
  have hdigit := decimal_isDigit n b (by rw [hn]; exact mem_cons_self)
  have hb : 48 ≤ b.toNat ∧ b.toNat ≤ 57 := by simpa [isDigit, UInt8.le_iff_toNat_le] using hdigit
  have hspace : isSpace b = false := by
    rw [isSpace]
    simp only [Bool.or_eq_false_iff, beq_eq_false_iff_ne, Bool.and_eq_false_iff,
      decide_eq_false_iff_not, UInt8.le_iff_toNat_le, ne_eq, ← UInt8.toNat_inj]
    simp only [UInt8.toNat_ofNat]
    omega
  refine ⟨by rw [dropWhile_cons, hspace]; rfl, ?_, ?_⟩
  · simp only [head?_cons, beq_eq_false_iff_ne, ne_eq, some.injEq,
      ← UInt8.toNat_inj, UInt8.toNat_ofNat]
    omega
  simp only [head?_cons, beq_eq_false_iff_ne, ne_eq, some.injEq,
    ← UInt8.toNat_inj, UInt8.toNat_ofNat]
  omega

theorem strtolAll_decimal (n : Nat) : strtolAll (decimal n) = some (n : Int) := by
  obtain ⟨hspace, hminus, hplus⟩ := decimal_start n
  have hdigits : (decimal n).all isDigit = true := all_eq_true.mpr (decimal_isDigit n)
  simp only [strtolAll, hspace, hminus, hplus, Bool.or_self, Bool.false_eq_true, if_false,
    hdigits, decimal_ne_nil n, ne_eq, not_false_eq_true, and_self, if_true, digitsValue_decimal]

theorem atoi_decimal {n : Nat} (hn : n ≤ intMax) : atoi (decimal n) = n := by
  obtain ⟨hspace, hminus, hplus⟩ := decimal_start n
  have hdigits : (decimal n).takeWhile isDigit = decimal n :=
    takeWhile_eq_self_iff.mpr (decimal_isDigit n)
  have hint : n ≤ 2 ^ 31 - 1 := hn
  have hstrtol : strtol (decimal n) = n := by
    simp only [strtol, hspace, hminus, hplus, Bool.or_self, Bool.false_eq_true, if_false,
      hdigits, digitsValue_decimal]
    omega
  rw [atoi, hstrtol, Int.bmod_def]
  omega

/-! ## The target and the status -/

theorem httpMethodParse_methodStr (method : HttpMethod) :
    httpMethodParse (ofString (httpMethodStr method)) =
      if method = .invalid ∨ method = .head then .invalid else method := by
  cases method <;> decide

theorem replaceFirst_append
    {front : List Pair} (hfront : ∀ field ∈ front, p field = false) (hfield : p field = true)
    (value : CStr) (back : List Pair) :
    replaceFirst p value (front ++ field :: back) = front ++ (field.1, value) :: back := by
  induction front with
  | nil => simp [replaceFirst, hfield]
  | cons first front ih =>
    have hfirst := hfront first mem_cons_self
    rw [cons_append, replaceFirst, if_neg (by simp [hfirst]),
      ih (fun f hf => hfront f (mem_cons_of_mem _ hf)), cons_append]

/-- The field that a look-up finds stands behind fields that it does not. -/
theorem find?_split
    {fields : List Pair} {value : CStr} (h : (fields.find? p).map Prod.snd = some value) :
    ∃ front name back, fields = front ++ (name, value) :: back ∧
      (∀ field ∈ front, p field = false) ∧ p (name, value) = true := by
  obtain ⟨field, hfind, rfl⟩ := map_eq_some_iff.mp h
  obtain ⟨hp, front, back, hsplit, hfront⟩ := find?_eq_some_iff_append.mp hfind
  exact ⟨front, field.1, back, hsplit, fun f hf => by simpa using hfront f hf, hp⟩

/-- A list has one way to be split at the first element with a property. -/
theorem split_unique
    {front front' back back' : List Pair} {field' : Pair} (hfront : ∀ f ∈ front, p f = false)
    (hfront' : ∀ f ∈ front', p f = false) (hfield : p field = true) (hfield' : p field' = true)
    (h : front ++ field :: back = front' ++ field' :: back') :
    front = front' ∧ field = field' ∧ back = back' := by
  have hspan : ∀ {l r : List Pair} {f : Pair}, (∀ f ∈ l, p f = false) → p f = true →
      (l ++ f :: r).span (!p ·) = (l, f :: r) := by
    intro l r f hl hf
    have hall : ∀ f ∈ l, (!p f) = true := by simpa using hl
    rw [span_eq_takeWhile_dropWhile, takeWhile_append_of_pos hall, dropWhile_append_of_pos hall]
    simp [hf]
  have heq := hspan (r := back) hfront hfield
  rw [h, hspan hfront' hfield'] at heq
  simpa [eq_comm] using heq

/-- What stands behind the `:path` field of a request, the last field first. -/
def behindPath (head : HttpHead) (data : Bytes) : List Pair :=
  (lengthPairs data).reverse ++ head.fields.reverse ++
    [(ofString ":scheme", ofString "https")]

theorem messageFields_reverse
    (htype : head.headType = .request) (target : CStr) (data : Bytes) :
    (messageFields head target data).reverse =
      behindPath head data ++ (ofString ":path", target) ::
        [(ofString ":method", ofString (httpMethodStr head.method))] := by
  simp [messageFields, pseudoPairs, htype, behindPath]

theorem fieldNamed_behindPath
    (hnames : ∀ field ∈ head.fields, PlainField field) (data : Bytes) :
    ∀ field ∈ behindPath head data, fieldNamed ":path" field = false := by
  intro field hfield
  simp only [behindPath, mem_append, mem_reverse, mem_singleton] at hfield
  rcases hfield with (hfield | hfield) | rfl
  · rw [lengthPairs] at hfield
    split_ifs at hfield
    · cases hfield
    · rw [mem_singleton.mp hfield]
      exact fieldNamed_ofString (by decide) _
  · exact (hnames field hfield).other _ (by decide)
  · decide

theorem fieldNamed_path (target : CStr) :
    fieldNamed ":path" (ofString ":path", target) = true :=
  fieldNamed_ofString (by decide) target

theorem lastValue_method
    (htype : head.headType = .request) (target : CStr) :
    lastValue (pseudoPairs head target) ":method" =
      some (ofString (httpMethodStr head.method)) := by
  have hscheme : fieldNamed ":method" (ofString ":scheme", ofString "https") = false := by decide
  have hpath : fieldNamed ":method" (ofString ":path", target) = false :=
    fieldNamed_ofString (by decide) target
  have hmethod : ∀ value, fieldNamed ":method" (ofString ":method", value) = true :=
    fieldNamed_ofString (by decide)
  simp [lastValue, pseudoPairs, htype, hscheme, hpath, hmethod]

/-- The target of a request, as it is set up from the fields of a message. -/
theorem httpHeadSetupHttpcode_request
    (htype : head.headType = .request) (hnames : ∀ field ∈ head.fields, PlainField field)
    (hfields : h.fields = messageFields head target data) :
    httpHeadSetupHttpcode h = if head.method = .invalid ∨ head.method = .head then none
      else
        some { h with
          method := head.method
          url := some (httpHeadParseParams target).1
          headType := .request
          params := h.params ++ (httpHeadParseParams target).2
          fields := messageFields head (httpHeadParseParams target).1 data } := by
  have hmethod : httpHeadGetFieldsValue h.toHttpHead ":method" =
      some (ofString (httpMethodStr head.method)) := by
    rw [httpHeadGetFieldsValue_eq, hfields, lastValue_pseudo hnames (by decide) (by decide),
      lastValue_method htype]
  have hpath : httpHeadGetFieldsValue h.toHttpHead ":path" = some target := by
    rw [httpHeadGetFieldsValue_eq, hfields, lastValue, messageFields_reverse htype,
      find?_append, find?_eq_none.mpr]
    · simp [fieldNamed_path]
    · intro field hfield
      simp [fieldNamed_behindPath hnames data field hfield]
  have hreplace : (replaceFirst (fieldNamed ":path") (httpHeadParseParams target).1
      h.fields.reverse).reverse = messageFields head (httpHeadParseParams target).1 data := by
    rw [hfields, messageFields_reverse htype,
      replaceFirst_append (fieldNamed_behindPath hnames data) (fieldNamed_path target),
      ← messageFields_reverse htype, reverse_reverse]
  simp only [httpHeadSetupHttpcode, hmethod, hpath, hreplace, httpMethodParse_methodStr]
  split_ifs with hbad hvalid
  · rfl
  · exact absurd rfl hvalid
  next hinvalid => exact absurd (Or.inl hinvalid) hbad
  · rfl

/-- The status of a response, as it is set up from the fields of a message. -/
theorem httpHeadSetupHttpcode_response
    (htype : head.headType = .response) (hnames : ∀ field ∈ head.fields, PlainField field)
    (hfields : h.fields = messageFields head target data) :
    httpHeadSetupHttpcode h =
      if atoi (decimal head.code) < 100 ∨ 999 < atoi (decimal head.code) then none
      else some { h with headType := .response, code := (atoi (decimal head.code)).toNat } := by
  have hmethod : httpHeadGetFieldsValue h.toHttpHead ":method" = none := by
    have hstatus : ∀ value, fieldNamed ":method" (ofString ":status", value) = false :=
      fieldNamed_ofString (by decide)
    rw [httpHeadGetFieldsValue_eq, hfields, lastValue_pseudo hnames (by decide) (by decide)]
    simp [lastValue, pseudoPairs, htype, hstatus]
  have hcode : httpHeadGetFieldsValue h.toHttpHead ":status" =
      some (ofBuffer (decimal head.code)) := by
    have hstatus : ∀ value, fieldNamed ":status" (ofString ":status", value) = true :=
      fieldNamed_ofString (by decide)
    rw [httpHeadGetFieldsValue_eq, hfields, lastValue_pseudo hnames (by decide) (by decide)]
    simp [lastValue, pseudoPairs, htype, hstatus]
  simp only [httpHeadSetupHttpcode, hmethod, hcode, ofBuffer_decimal]

/-- What a string is taken apart into is the target of the head. -/
def TargetStored (head : HttpHead) (target : CStr) : Prop :=
  match head.headType with
  | .request =>
    (head.method ≠ .invalid ∧ head.method ≠ .head) ∧
      ∀ url ∈ head.url, httpHeadParseParams target = (url, head.params)
  | .response => 100 ≤ head.code ∧ head.code ≤ 999
  | .invalid => True

/-- The target or the status comes back exactly under the conditions on it. -/
theorem httpHeadSetupHttpcode_iff
    (htype : head.headType ≠ .invalid) (hnames : ∀ field ∈ head.fields, PlainField field)
    (hurl : head.headType = .request → ∃ url, head.url = some url)
    (hfields : h.fields = messageFields head target data) (hparams : h.params = []) :
    (∃ h', httpHeadSetupHttpcode h = some h' ∧ SameHead head data h'.toHttpHead) ↔
      TargetStored head target := by
  rw [TargetStored]
  cases hkind : head.headType with
  | invalid => exact absurd hkind htype
  | request =>
    obtain ⟨url, hurl⟩ := hurl hkind
    simp only [httpHeadSetupHttpcode_request hkind hnames hfields, hurl, mem_some,
      forall_eq']
    constructor
    · rintro ⟨h', hsetup, hsame⟩
      split_ifs at hsetup with hbad
      cases hsetup
      obtain ⟨-, hgotUrl, hgotParams⟩ := hsame.target hkind
      simp only [hurl, some.injEq, hparams, nil_append] at hgotUrl hgotParams
      exact ⟨not_or.mp hbad, Prod.ext hgotUrl hgotParams⟩
    rintro ⟨⟨hinvalid, hhead⟩, hparse⟩
    rw [if_neg (not_or.mpr ⟨hinvalid, hhead⟩), hparse]
    refine ⟨_, rfl, ?_⟩
    constructor
    · exact hkind.symm
    · intro _
      simp [hurl, hparams]
    · intro hresponse
      rw [hkind] at hresponse
      cases hresponse
    · simp [hurl]
  | response =>
  simp only [httpHeadSetupHttpcode_response hkind hnames hfields]
  constructor
  · rintro ⟨h', hsetup, hsame⟩
    split_ifs at hsetup with hbad
    cases hsetup
    have hcode := hsame.code hkind
    simp only at hcode
    omega
  rintro ⟨hlow, hhigh⟩
  have hatoi : atoi (decimal head.code) = head.code := atoi_decimal (by rw [intMax]; omega)
  rw [hatoi, if_neg (by omega)]
  refine ⟨_, rfl, ?_⟩
  constructor
  · exact hkind.symm
  · intro hrequest
    rw [hkind] at hrequest
    cases hrequest
  · intro _
    simp
  · simp only [hfields, messageFields, pseudoPairs, hkind]

/-! ## The announced length -/

theorem http3GetExpectedDataLen_body
    {h : HttpHead} (hdata : data ≠ []) (hlen : data.length ≤ intMax)
    (hfields : h.fields = messageFields head target data) :
    http3GetExpectedDataLen h = some (some data.length) := by
  have hrange : ¬ ((data.length : Int) < 0 ∨ (intMax : Int) < data.length) := by omega
  simp only [http3GetExpectedDataLen, httpHeadGetFieldsValue_eq, hfields, lastValue_length,
    if_neg hdata, ofBuffer_decimal, decimal_ne_nil, if_false, strtolAll_decimal, if_neg hrange,
    Int.toNat_natCast]

theorem http3GetExpectedDataLen_nil
    {h : HttpHead} (hfields : h.fields = messageFields head target []) :
    http3GetExpectedDataLen h = http3GetExpectedDataLen head := by
  simp [http3GetExpectedDataLen, httpHeadGetFieldsValue_eq, hfields, lastValue_length]

theorem http3GetExpectedDataLen_zero (head : HttpHead) :
    (∃ expect, http3GetExpectedDataLen head = some expect ∧ expect.getD 0 = 0) ↔
      ∀ length ∈ httpHeadGetFieldsValue head "content-length",
        length.bytes = [] ∨ strtolAll length.bytes = some 0 := by
  rw [http3GetExpectedDataLen]
  cases httpHeadGetFieldsValue head "content-length" with
  | none => simp
  | some length =>
  simp only [mem_some, forall_eq']
  by_cases hempty : length.bytes = []
  · simp [hempty]
  simp only [hempty, false_or]
  cases hvalue : strtolAll length.bytes with
  | none => simp
  | some value =>
  simp only [some.injEq]
  by_cases hrange : value < 0 ∨ (intMax : Int) < value
  · rw [if_pos hrange]
    constructor
    · rintro ⟨expect, hexpect, -⟩
      cases hexpect
    rintro rfl
    rw [intMax] at hrange
    omega
  rw [if_neg hrange]
  constructor
  · rintro ⟨expect, hexpect, hzero⟩
    cases hexpect
    rw [getD_some] at hzero
    omega
  · rintro rfl
    exact ⟨_, rfl, rfl⟩

/-- The conditions on the body are those on the head that was written. -/
theorem bodyStored_iff
    (inflate : Bool → Bytes → Except Int Bytes) {h : HttpHead} (hlen : data.length ≤ intMax)
    (hsame : SameHead head data h) :
    (∃ expect, http3GetExpectedDataLen h = some expect ∧ BodyStored inflate h expect data) ↔
      BodyReadsBack inflate head data := by
  have hcoding : contentCoding h = contentCoding head := by
    simp only [contentCoding, httpHeadGetFieldsValue_eq, hsame.fields]
    rw [lastValue_messageFields, lastValue_lengthPairs (by decide),
      lastValue_pseudoPairs (by decide), none_or, or_none]
  rw [BodyReadsBack]
  by_cases hdata : data = []
  · subst hdata
    rw [if_pos rfl, ← http3GetExpectedDataLen_zero, ← http3GetExpectedDataLen_nil hsame.fields]
    simp [BodyStored]
  rw [if_neg hdata, http3GetExpectedDataLen_body hdata hlen hsame.fields]
  simp only [BodyStored, hcoding, hsame.headType, some.injEq]
  constructor
  · rintro ⟨expect, rfl, -, hbody⟩
    obtain ⟨hcode, hinflate⟩ := hbody hdata
    exact ⟨fun hresponse => by rw [← hsame.code hresponse, hcode hresponse], hinflate⟩
  rintro ⟨hcode, hinflate⟩
  refine ⟨_, rfl, rfl, fun _ => ⟨?_, hinflate⟩⟩
  intro hresponse
  rw [hsame.code hresponse, hcode hresponse]

end SmartDns.Http3
