import SmartDns.Http3.Setup

/-!
# The head round trip

A message that comes back has short fields only: a longer one is read as another
one, and with it the list of fields or the target is another.  For a message with
short fields the head that is read can be computed.
-/

namespace SmartDns.Http3

open CStr List

variable {h h' got : ReceivedHead} {head : HttpHead} {data : Bytes} {size : Nat} {target : CStr}
variable {fields : List Pair}

/-- Every head with a large enough buffer reads the message back: all of its
bytes, the head and the body. -/
def RoundTrips (inflate : Bool → Bytes → Except Int Bytes) (head : HttpHead) (data bytes : Bytes) :
    Prop :=
  ∃ size₀, ∀ size, size₀ ≤ size →
    ∃ got, httpHeadParseHttp3 inflate (httpHeadInit size) bytes = .ok (got, bytes.length) ∧
      SameHead head data got.toHttpHead ∧ got.data = data

/-- The target or the status of a head can be read back. -/
def TargetReadsBack (head : HttpHead) : Prop :=
  match head.headType with
  | .request =>
    (head.method ≠ .invalid ∧ head.method ≠ .head) ∧
      ∀ url ∈ head.url, PlainTarget url head.params ∧
        (targetText url head.params).length ≤ 63
  | .response => 100 ≤ head.code ∧ head.code ≤ 999
  | .invalid => True

def ReadsBack (inflate : Bool → Bytes → Except Int Bytes) (head : HttpHead) (data : Bytes) : Prop :=
  (∀ field ∈ head.fields, field.1.strlen ≤ 134 ∧ field.2.strlen ≤ 63) ∧
    TargetReadsBack head ∧ BodyReadsBack inflate head data

/-! ## Fields that come back are short -/

theorem storedAll_le (fields : List Pair) :
    (storedAll fields).length ≤ (fields.flatMap (fieldBytes ∘ wire)).length := by
  induction fields with
  | nil => exact Nat.le_refl _
  | cons field fields ih =>
    have hfield := storedBytes_le (wire field)
    simp only [storedAll, flatMap_cons, length_append, Function.comp_apply] at ih ⊢
    omega

theorem shortField_of_loop {fields : List Pair} {fuel : Nat}
    (hnames : ∀ field ∈ fields, 134 < field.1.bytes.length → ∃ b ∈ field.1.bytes, 8 ≤ b.toNat)
    (hsize : (fields.flatMap (fieldBytes ∘ wire)).length ≤ 1024)
    (hroom : h.buff.length + (storedAll fields).length ≤ h.buffSize)
    (hloop : parseHeadersLoop fuel h (fields.flatMap (fieldBytes ∘ wire)) = .ok h')
    (hfields : h.fields ++ fields <+: h'.fields) :
    ∀ field ∈ fields, ShortField (wire field) := by
  induction fields generalizing fuel h with
  | nil => simp
  | cons field fields ih =>
  rw [flatMap_cons, Function.comp_apply] at hsize hloop
  simp only [storedAll, flatMap_cons, length_append] at hroom
  have hnext : h.fields ++ [field] <+: h'.fields := by
    refine List.IsPrefix.trans ?_ hfields
    exact ⟨fields, by simp⟩
  have hshort : ShortField (wire field) := by
    by_contra hlong
    exact parseHeadersLoop_long (hnames field mem_cons_self) hlong hsize hloop hnext
  obtain ⟨fuel', -, -, -, -, rfl, -, -⟩ := parseHeadersLoop_turn hloop
  rw [parseHeadersLoop_short hshort _ (by omega)] at hloop
  have hrest : ∀ other ∈ fields, ShortField (wire other) := by
    refine ih (fun f hf => hnames f (mem_cons_of_mem _ hf)) ?_ ?_ hloop ?_
    · rw [length_append] at hsize
      omega
    · simp only [storedAll, length_append]
      omega
    · simpa using hfields
  intro other hother
  rcases mem_cons.mp hother with rfl | hother
  · exact hshort
  · exact hrest other hother

/-- How the fields that were read and those that are set up from them relate. -/
theorem httpHeadSetupHttpcode_inv
    (hsetup : httpHeadSetupHttpcode h = some h') :
    (∃ target, lastValue h.fields ":path" = some target ∧ h'.headType = .request ∧
        h'.url = some (httpHeadParseParams target).1 ∧
        h'.params = h.params ++ (httpHeadParseParams target).2 ∧
        h'.fields = (replaceFirst (fieldNamed ":path") (httpHeadParseParams target).1
          h.fields.reverse).reverse) ∨
      (lastValue h.fields ":method" = none ∧ h'.fields = h.fields) := by
  simp only [httpHeadSetupHttpcode, httpHeadGetFieldsValue_eq] at hsetup
  split at hsetup
  · split_ifs at hsetup
    split at hsetup
    · cases hsetup
    rename_i target hpath
    cases hsetup
    exact Or.inl ⟨target, hpath, rfl, rfl, rfl, rfl⟩
  rename_i hmethod
  split at hsetup
  · cases hsetup
    exact Or.inr ⟨hmethod, rfl⟩
  split_ifs at hsetup
  cases hsetup
  exact Or.inr ⟨hmethod, rfl⟩

/-- The fields of a request as they were before its target was taken apart. -/
theorem messageFields_of_setup {url : CStr} (htype : head.headType = .request)
    (hnames : ∀ field ∈ head.fields, PlainField field) (hurl : head.url = some url)
    (hparams : h.params = []) (hsetup : httpHeadSetupHttpcode h = some h')
    (hsame : SameHead head data h'.toHttpHead) :
    ∃ target, httpHeadParseParams target = (url, head.params) ∧
      h.fields = messageFields head target data := by
  obtain ⟨-, hgotUrl, hgotParams⟩ := hsame.target htype
  rcases httpHeadSetupHttpcode_inv hsetup with
    ⟨target, hpath, -, htarget, htargetParams, hfields⟩ | ⟨hmethod, hfields⟩
  · refine ⟨target, ?_, ?_⟩
    · rw [htarget, hurl] at hgotUrl
      rw [htargetParams, hparams, nil_append] at hgotParams
      exact Prod.ext (Option.some.inj hgotUrl) hgotParams
    obtain ⟨front, name, back, hsplit, hfront, hname⟩ := find?_split hpath
    have hrev : behindPath head data ++ (ofString ":path", url) ::
        [(ofString ":method", ofString (httpMethodStr head.method))] =
          front ++ (name, (httpHeadParseParams target).1) :: back := by
      rw [← messageFields_reverse htype]
      have hmessage := hsame.fields
      rw [hurl, Option.getD_some] at hmessage
      rw [← hmessage, hfields, reverse_reverse, hsplit, replaceFirst_append hfront hname]
    have hcut : fieldNamed ":path" (name, (httpHeadParseParams target).1) = true := hname
    obtain ⟨rfl, hfield, rfl⟩ := split_unique (fieldNamed_behindPath hnames data) hfront
      (fieldNamed_path url) hcut hrev
    have hpathName : name = ofString ":path" := (congrArg Prod.fst hfield).symm
    rw [← reverse_reverse h.fields, hsplit, hpathName, ← messageFields_reverse htype,
      reverse_reverse]
  · -- without a method the message would not be a request
    have hmessage := hsame.fields
    rw [hfields] at hmessage
    rw [hmessage, lastValue_pseudo hnames (by decide) (by decide),
      lastValue_method htype] at hmethod
    cases hmethod

theorem ofString_short {text : String} (h : (ascii text).length ≤ 63) :
    (ofString text).bytes.length ≤ 63 :=
  (ofBuffer_length_le _).trans h

theorem pseudoPairs_names (head : HttpHead) (target : CStr) :
    ∀ field ∈ pseudoPairs head target, field.1.bytes.length ≤ 63 := by
  intro field hfield
  rw [pseudoPairs] at hfield
  cases htype : head.headType with
  | request =>
    simp only [htype, mem_cons, not_mem_nil, or_false] at hfield
    rcases hfield with rfl | rfl | rfl <;> exact ofString_short (by decide)
  | response =>
    simp only [htype, mem_singleton] at hfield
    rw [hfield]
    exact ofString_short (by decide)
  | invalid => simp [htype] at hfield

theorem lengthPairs_names (data : Bytes) :
    ∀ field ∈ lengthPairs data, field.1.bytes.length ≤ 63 := by
  intro field hfield
  rw [lengthPairs] at hfield
  split_ifs at hfield
  · cases hfield
  · rw [mem_singleton.mp hfield]
    exact ofString_short (by decide)

theorem messageFields_names
    (hnames : ∀ field ∈ head.fields, PlainField field) (target : CStr) (data : Bytes) :
    ∀ field ∈ messageFields head target data, 134 < field.1.bytes.length →
      ∃ b ∈ field.1.bytes, 8 ≤ b.toNat := by
  intro field hfield hlong
  simp only [messageFields, mem_append] at hfield
  rcases hfield with (hfield | hfield) | hfield
  · have hshort := pseudoPairs_names head target field hfield
    omega
  · exact (hnames field hfield).text hlong
  · have hshort := lengthPairs_names data field hfield
    omega

theorem methodStr_short (method : HttpMethod) :
    (ofString (httpMethodStr method)).bytes.length ≤ 63 := by
  cases method <;> exact ofString_short (by decide)

theorem messageFields_request
    (htype : head.headType = .request) (data : Bytes) :
    ∃ rest, ∀ target, messageFields head target data =
      (ofString ":method", ofString (httpMethodStr head.method)) ::
        (ofString ":path", target) :: rest := by
  refine ⟨(ofString ":scheme", ofString "https") :: (head.fields ++ lengthPairs data), ?_⟩
  intro target
  simp [messageFields, pseudoPairs, htype]

/-- A request whose target is too long does not come back: the string that is
read in its place is too short for the same path and parameters. -/
theorem target_of_loop {fuel : Nat} {url target' : CStr} (htype : head.headType = .request)
    (htarget : target.bytes = targetText url head.params)
    (hsize : (headersPayload (messageFields head target data)).length ≤ size)
    (hpayload : (headersPayload (messageFields head target data)).length ≤ 1024)
    (hloop : parseHeadersLoop fuel (httpHeadInit size)
      ((messageFields head target data).flatMap (fieldBytes ∘ wire)) = .ok h)
    (hparse : httpHeadParseParams target' = (url, head.params))
    (hfields : h.fields = messageFields head target' data) :
    target' = target := by
  obtain ⟨rest, hmessage⟩ := messageFields_request htype data
  rw [hmessage] at hsize hpayload hloop hfields
  simp only [headersPayload, flatMap_cons, Function.comp_apply, length_cons,
    length_append] at hsize hpayload
  rw [flatMap_cons, flatMap_cons, Function.comp_apply, Function.comp_apply] at hloop
  -- the method is read back
  have hmethod : ShortField (wire
      (ofString ":method", ofString (httpMethodStr head.method))) :=
    ⟨(ofString_short (by decide)).trans (by decide), methodStr_short head.method⟩
  have hstored := storedBytes_le (wire
    (ofString ":method", ofString (httpMethodStr head.method)))
  obtain ⟨fuel₁, -, -, -, -, rfl, -, -⟩ := parseHeadersLoop_turn hloop
  rw [parseHeadersLoop_short hmethod _ (by change 0 + _ ≤ size; omega)] at hloop
  -- what is read behind it is the target
  have hread : ∀ value : CStr, (httpHeadInit size).fields ++
          [(ofString ":method", ofString (httpMethodStr head.method))] ++
          [(ofString ":path", value)] <+: h.fields →
        value = target' := by
    rintro value ⟨back, hback⟩
    rw [hfields] at hback
    change (ofString ":method", _) :: (ofString ":path", value) :: back = _ at hback
    simp only [List.cons.injEq, Prod.mk.injEq] at hback
    exact hback.2.1.2
  by_cases hshort : target.bytes.length ≤ 63
  · have hpath : ShortField (wire (ofString ":path", target)) :=
      ⟨(ofString_short (by decide)).trans (by decide), hshort⟩
    have hstoredPath := storedBytes_le (wire (ofString ":path", target))
    obtain ⟨fuel₂, -, -, -, -, rfl, -, -⟩ := parseHeadersLoop_turn hloop
    rw [parseHeadersLoop_short hpath _ (by
      simp only [httpHeadInit, nil_append]
      omega)] at hloop
    exact (hread target (parseHeadersLoop_frame hloop).1).symm
  have hle : target.bytes.length ≤ 1024 := by
    simp only [fieldBytes, wire, length_append] at hpayload
    omega
  obtain ⟨value, hvalue, hne, hlen⟩ := parseHeadersLoop_longValue
    ((ofString_short (by decide)).trans (by decide)) (Nat.lt_of_not_le hshort) hle hloop
  have heq := hread value hvalue
  subst heq
  obtain ⟨-, hge, hsame⟩ := httpHeadParseParams_inv hparse
  rw [← htarget] at hge hsame
  exact ext (hsame (by simp only at hlen; omega))

/-- What `http_head_serialize_http3_0` has written of a head and a body: the fields, the
target among them. -/
structure Written (head : HttpHead) (data : Bytes) (target : CStr) (fields : List Pair) :
    Prop where
  eq : fields = messageFields head target data
  type : head.headType ≠ .invalid
  names : ∀ field ∈ head.fields, PlainField field
  url : head.headType = .request →
    ∃ url, head.url = some url ∧ target.bytes = targetText url head.params
  payload : (headersPayload fields).length ≤ 1024
  body : data.length ≤ intMax

theorem messageFields_short (hw : Written head data target fields)
    (hsize : (headersPayload fields).length ≤ size)
    (hread : http3ParseHeadersPayload (httpHeadInit size) (headersPayload fields) = .ok h)
    (hsetup : httpHeadSetupHttpcode h = some h') (hsame : SameHead head data h'.toHttpHead) :
    ∀ field ∈ fields, ShortField (wire field) := by
  obtain ⟨rfl, htype, hnames, htarget, hpayload, -⟩ := hw
  have hframe := (parseHeadersLoop_frame hread).2
  have hfields : h.fields = messageFields head target data := by
    cases hkind : head.headType with
    | invalid => exact absurd hkind htype
    | request =>
      obtain ⟨url, hurl, htext⟩ := htarget hkind
      have hparams : h.params = [] := by
        rw [hframe]
        rfl
      obtain ⟨target', hparse, hfields⟩ :=
        messageFields_of_setup hkind hnames hurl hparams hsetup hsame
      rw [hfields, target_of_loop hkind htext hsize hpayload hread hparse hfields]
    | response =>
      rcases httpHeadSetupHttpcode_inv hsetup with ⟨_, -, hrequest, -⟩ | ⟨-, hfields⟩
      · rw [hsame.headType, hkind] at hrequest
        cases hrequest
      · rw [← hfields, hsame.fields]
        simp only [messageFields, pseudoPairs, hkind]
  have hstored := storedAll_le (messageFields head target data)
  simp only [headersPayload, length_cons] at hpayload hsize
  refine shortField_of_loop (messageFields_names hnames target data) (by omega) ?_ hread ?_
  · change 0 + _ ≤ size
    omega
  · rw [hfields]
    exact prefix_rfl

/-- The head that holds these fields and their strings. -/
def readFields (size : Nat) (fields : List Pair) : ReceivedHead :=
  { httpHeadInit size with buff := storedAll fields, fields := fields }

theorem length_le_flatMap (fields : List Pair) :
    fields.length ≤ (fields.flatMap (fieldBytes ∘ wire)).length := by
  induction fields with
  | nil => exact Nat.le_refl _
  | cons field fields ih =>
    have hpos := fieldBytes_ne_nil (wire field)
    simp only [flatMap_cons, length_append, length_cons, Function.comp_apply]
    omega

theorem http3ParseHeadersPayload_short
    {fields : List Pair} (hshort : ∀ field ∈ fields, ShortField (wire field))
    (hsize : (headersPayload fields).length ≤ size) :
    http3ParseHeadersPayload (httpHeadInit size) (headersPayload fields) =
      .ok (readFields size fields) := by
  have hstored := storedAll_le fields
  have hcount := length_le_flatMap fields
  simp only [headersPayload, length_cons] at hsize
  obtain ⟨fuel, hfuel⟩ := Nat.exists_eq_add_of_le' hcount
  have hloop := @parseHeadersLoop_append fuel (httpHeadInit size) fields hshort []
    (by change 0 + _ ≤ size; omega)
  rw [append_nil, ← hfuel] at hloop
  simp only [http3ParseHeadersPayload, headersPayload, hloop, parseHeadersLoop]
  rfl

/-- The fields of a message are short when those of the head and the target
are. -/
theorem messageFields_short_of (hfields : ∀ field ∈ head.fields, ShortField (wire field))
    (htarget : head.headType = .request → target.bytes.length ≤ 63)
    (hcode : head.headType = .response → head.code ≤ 999) (hdata : data.length ≤ intMax) :
    ∀ field ∈ messageFields head target data, ShortField (wire field) := by
  intro field hfield
  simp only [messageFields, mem_append] at hfield
  rcases hfield with (hfield | hfield) | hfield
  · refine ⟨(pseudoPairs_names head target field hfield).trans (by decide), ?_⟩
    rw [pseudoPairs] at hfield
    cases htype : head.headType with
    | request =>
      simp only [htype, mem_cons, not_mem_nil, or_false] at hfield
      rcases hfield with rfl | rfl | rfl
      · exact methodStr_short head.method
      · exact htarget htype
      · exact ofString_short (by decide)
    | response =>
      simp only [htype, mem_singleton] at hfield
      have hlt : head.code < 10 ^ 63 := by
        have := hcode htype
        omega
      rw [hfield, wire, ofBuffer_decimal]
      exact (length_decimal_le_iff (by decide)).mpr hlt
    | invalid => simp [htype] at hfield
  · exact hfields field hfield
  · refine ⟨(lengthPairs_names data field hfield).trans (by decide), ?_⟩
    rw [lengthPairs] at hfield
    split_ifs at hfield
    · cases hfield
    have hlt : data.length < 10 ^ 63 := by
      rw [intMax] at hdata
      omega
    rw [mem_singleton.mp hfield, wire, ofBuffer_decimal]
    exact (length_decimal_le_iff (by decide)).mpr hlt

/-! ## The round trip -/

theorem Written.of_serialize {bytes : Bytes} {bufferLen : Nat} (htype : head.headType ≠ .invalid)
    (hnames : ∀ field ∈ head.fields, PlainField field) (hbuffer : bufferLen ≤ intMax)
    (hwrite : httpHeadSerializeHttp3 head data bufferLen = some bytes) :
    ∃ target fields, bytes = messageBytes fields data ∧ Written head data target fields := by
  obtain ⟨target, rfl, hpayload, hdata, htarget⟩ := httpHeadSerializeHttp3_eq hwrite
  exact ⟨target, _, rfl, rfl, htype, hnames, htarget, hpayload, hdata.trans hbuffer⟩

section Message

variable (inflate : Bool → Bytes → Except Int Bytes) (hw : Written head data target fields)
variable (hsize : (messageBytes fields data).length < size)

include hw hsize

theorem Written.fits : (headersPayload fields).length ≤ size ∧
    (messageBytes fields data).length ≠ 0 ∧ data.length < 2 ^ 62 := by
  have hdata := hw.body
  simp only [messageBytes, headersPayload, length_append, length_cons, intMax] at *
  omega

/-- What a message that was read has gone through. -/
theorem Written.parse_ok
    (hparse : httpHeadParseHttp3 inflate (httpHeadInit size) (messageBytes fields data) =
      .ok (got, (messageBytes fields data).length)) (hsame : SameHead head data got.toHttpHead) :
    ∃ h₁ h expect, http3ParseHeadersPayload (httpHeadInit size) (headersPayload fields) = .ok h₁ ∧
      httpHeadSetupHttpcode h₁ = some h ∧ http3GetExpectedDataLen h.toHttpHead = some expect ∧
      finishMessage inflate h expect data (messageBytes fields data).length =
        .ok (got, (messageBytes fields data).length) ∧
      SameHead head data h.toHttpHead := by
  obtain ⟨-, hne, hlen⟩ := hw.fits hsize
  rw [httpHeadParseHttp3_message inflate hw.payload hlen hsize] at hparse
  cases hframe : parseHeadersFrame (httpHeadInit size) (headersPayload fields) with
  | error e => simp [hframe] at hparse
  | ok result =>
    simp only [hframe] at hparse
    obtain ⟨h₁, hread, hsetup, hexpect⟩ := parseHeadersFrame_ok hframe
    rw [finishMessage_head inflate hne hparse] at hsame
    exact ⟨h₁, _, _, hread, hsetup, hexpect, hparse, hsame⟩

/-- A message with short fields comes back exactly under the conditions on
target and body. -/
theorem Written.parse_iff_of_short (hshort : ∀ field ∈ fields, ShortField (wire field)) :
    (∃ got, httpHeadParseHttp3 inflate (httpHeadInit size) (messageBytes fields data) =
            .ok (got, (messageBytes fields data).length) ∧
        SameHead head data got.toHttpHead ∧ got.data = data) ↔
      TargetStored head target ∧ BodyReadsBack inflate head data := by
  obtain ⟨hfits, hne, hlen⟩ := hw.fits hsize
  have hbytes : 2 + (storedAll fields).length + data.length ≤
      (messageBytes fields data).length := by
    have hstored := storedAll_le fields
    have hframe : data.length ≤ (dataFrameBytes data).length := by
      rw [dataFrameBytes]
      split_ifs with hnil
      · simp [hnil]
      · simp only [length_append]
        omega
    simp only [messageBytes, headersPayload, length_append, length_cons]
    omega
  have hread := http3ParseHeadersPayload_short hshort hfits
  have hsetupIff := @httpHeadSetupHttpcode_iff head (readFields size fields) target data hw.type
    hw.names (fun hkind => (hw.url hkind).imp fun _ h => h.1) hw.eq rfl
  -- what is set up is a head without a body, in the same buffer
  have hbody : ∀ h expect, httpHeadSetupHttpcode (readFields size fields) = some h →
      ((∃ got, finishMessage inflate h expect data (messageBytes fields data).length =
              .ok (got, (messageBytes fields data).length) ∧ got.data = data) ↔
        BodyStored inflate h.toHttpHead expect data) := by
    intro h expect hsetup
    have hframe := httpHeadSetupHttpcode_frame hsetup
    apply finishMessage_iff
    · constructor
      · rw [hframe]
        rfl
      · rw [hframe]
        rfl
    · rw [hframe]
      change (storedAll _).length + data.length ≤ size
      omega
    · rw [hframe]
      change _ < size
      omega
  constructor
  · rintro ⟨got, hparse, hsame, hgot⟩
    obtain ⟨h₁, h, expect, hread₁, hsetup, hexpect, hfinish, hsame⟩ :=
      hw.parse_ok inflate hsize hparse hsame
    rw [hread] at hread₁
    cases hread₁
    refine ⟨hsetupIff.mp ⟨h, hsetup, hsame⟩, ?_⟩
    exact (bodyStored_iff inflate hw.body hsame).mp
      ⟨expect, hexpect, (hbody h expect hsetup).mp ⟨got, hfinish, hgot⟩⟩
  · rintro ⟨htargetStored, hbodyBack⟩
    obtain ⟨h, hsetup, hsame⟩ := hsetupIff.mpr htargetStored
    obtain ⟨expect, hexpect, hstored⟩ := (bodyStored_iff inflate hw.body hsame).mpr hbodyBack
    obtain ⟨got, hparse, hgot⟩ := (hbody h expect hsetup).mpr hstored
    have hframe : parseHeadersFrame (httpHeadInit size) (headersPayload fields) =
        .ok (h, expect) := by
      simp only [parseHeadersFrame, hread, hsetup, hexpect]
    rw [httpHeadParseHttp3_message inflate hw.payload hlen hsize]
    refine ⟨got, by simpa only [hframe] using hparse, ?_, hgot⟩
    rw [finishMessage_head inflate hne hparse]
    exact hsame

end Message

/-- A head that comes back has short fields, and a target and a body that can be
read back. -/
theorem Written.readsBack (inflate : Bool → Bytes → Except Int Bytes)
    (hw : Written head data target fields)
    (hback : RoundTrips inflate head data (messageBytes fields data)) :
    ReadsBack inflate head data := by
  obtain ⟨size₀, hall⟩ := hback
  obtain ⟨got, hparse, hsame, hgot⟩ := hall (max size₀ ((messageBytes fields data).length + 1))
    (Nat.le_max_left _ _)
  have hsize : (messageBytes fields data).length <
      max size₀ ((messageBytes fields data).length + 1) :=
    Nat.lt_of_lt_of_le (Nat.lt_succ_self _) (Nat.le_max_right _ _)
  obtain ⟨h₁, h, -, hread, hsetup, -, -, hsame'⟩ := hw.parse_ok inflate hsize hparse hsame
  have hshort := messageFields_short hw (hw.fits hsize).1 hread hsetup hsame'
  obtain ⟨hstored, hbody⟩ := (hw.parse_iff_of_short inflate hsize hshort).mp
    ⟨got, hparse, hsame, hgot⟩
  rw [hw.eq] at hshort
  refine ⟨?_, ?_, hbody⟩
  · intro field hfield
    exact hshort field (by simp [messageFields, hfield])
  rw [TargetStored] at hstored
  rw [TargetReadsBack]
  cases hkind : head.headType with
  | request =>
    obtain ⟨url, hurl, htext⟩ := hw.url hkind
    simp only [hkind, hurl, Option.mem_some, forall_eq'] at hstored ⊢
    refine ⟨hstored.1, (httpHeadParseParams_inv hstored.2).1, ?_⟩
    rw [← htext]
    exact (hshort (ofString ":path", target) (by simp [messageFields, pseudoPairs, hkind])).2
  | response =>
    simp only [hkind] at hstored
    exact hstored
  | invalid => trivial

theorem Written.roundTrips (inflate : Bool → Bytes → Except Int Bytes)
    (hw : Written head data target fields) (hback : ReadsBack inflate head data) :
    RoundTrips inflate head data (messageBytes fields data) := by
  obtain ⟨hfields, htargetBack, hbodyBack⟩ := hback
  refine ⟨(messageBytes fields data).length + 1, ?_⟩
  intro size hsize
  rw [TargetReadsBack] at htargetBack
  have hshort : ∀ field ∈ fields, ShortField (wire field) := by
    rw [hw.eq]
    apply messageFields_short_of hfields _ _ hw.body
    · intro hkind
      obtain ⟨url, hurl, htext⟩ := hw.url hkind
      simp only [hkind, hurl, Option.mem_some, forall_eq'] at htargetBack
      rw [htext]
      exact htargetBack.2.2
    · intro hkind
      simp only [hkind] at htargetBack
      exact htargetBack.2
  apply (hw.parse_iff_of_short inflate hsize hshort).mpr
  refine ⟨?_, hbodyBack⟩
  rw [TargetStored]
  cases hkind : head.headType with
  | request =>
    obtain ⟨url, hurl, htext⟩ := hw.url hkind
    simp only [hkind, hurl, Option.mem_some, forall_eq'] at htargetBack ⊢
    exact ⟨htargetBack.1, httpHeadParseParams_plain htargetBack.2.1 htext⟩
  | response =>
    simp only [hkind] at htargetBack
    exact htargetBack
  | invalid => trivial

/-- A build without zlib. -/
def noZlib : Bool → Bytes → Except Int Bytes :=
  fun _ _ => .error (-2)

/-- A POST with a parameter and the field that the client adds. -/
def postHead : HttpHead where
  headType := .request
  method := .post
  url := some (ofString "/q")
  params := [(ofString "a", ofString "b")]
  fields := [(ofString ":authority", ofString "x.y")]

/-- A response with a value of 64 bytes. -/
def longValueHead : HttpHead where
  headType := .response
  code := 200
  fields := [(ofString "x", ofBuffer (List.replicate 64 97))]

end SmartDns.Http3
