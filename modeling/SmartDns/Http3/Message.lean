import SmartDns.Http3.Target

/-!
# Messages

What `http_head_serialize_http3_0` writes, and how `http_head_parse_http3_0`
takes it apart again: one HEADERS frame and, with a body, one DATA frame.  What
becomes of the body is settled here.
-/

namespace SmartDns.Http3

open CStr List

variable {head : HttpHead} {data payload : Bytes} {h h' : ReceivedHead} {expect : Option Nat}
variable {total : Nat}

/-! ## The fields of a message -/

/-- The fields that the serializer puts in front. -/
def pseudoPairs (head : HttpHead) (target : CStr) : List Pair :=
  match head.headType with
  | .request =>
    [(ofString ":method", ofString (httpMethodStr head.method)), (ofString ":path", target),
      (ofString ":scheme", ofString "https")]
  | .response => [(ofString ":status", ofBuffer (decimal head.code))]
  | .invalid => []

/-- The field that the serializer adds for a body. -/
def lengthPairs (data : Bytes) : List Pair :=
  if data = [] then []
  else [(ofString "content-length", ofBuffer (decimal data.length))]

/-- The fields of a message whose `:path` is `target`. -/
def messageFields (head : HttpHead) (target : CStr) (data : Bytes) : List Pair :=
  pseudoPairs head target ++ head.fields ++ lengthPairs data

/-! ## What the serializer writes -/

/-- The DATA frame, if there is a body. -/
def dataFrameBytes (data : Bytes) : Bytes :=
  if data = [] then []
  else quicvarint http3DataFrame ++ (quicvarint data.length ++ data)

def headersPayload (fields : List Pair) : Bytes :=
  0 :: 0 :: fields.flatMap (fieldBytes ∘ wire)

def messageBytes (fields : List Pair) (data : Bytes) : Bytes :=
  quicvarint http3HeaderFrame ++ (quicvarint (headersPayload fields).length ++
    (headersPayload fields ++ dataFrameBytes data))

theorem decimal_isDigit (n : Nat) : ∀ b ∈ decimal n, Http2.isDigit b = true := by
  intro b hb
  rw [decimal] at hb
  split_ifs at hb with h0
  · rw [mem_singleton.mp hb]
    decide
  obtain ⟨d, hd, rfl⟩ := mem_map.mp hb
  have hlt : d < 10 := Nat.digits_lt_base (by decide) (mem_reverse.mp hd)
  have hall : ∀ d < 10, Http2.isDigit (UInt8.ofNat (48 + d)) = true := by decide
  exact hall d hlt

theorem decimal_noNul (n : Nat) : ∀ b ∈ decimal n, b ≠ 0 := by
  rintro b hb rfl
  exact absurd (decimal_isDigit n 0 hb) (by decide)

theorem ofBuffer_decimal (n : Nat) : (ofBuffer (decimal n)).bytes = decimal n :=
  ofBuffer_bytes_of_noNul (decimal_noNul n)

theorem paramsText_noNul {mark : UInt8} (hmark : mark ≠ 0) (params : List Pair) :
    ∀ b ∈ paramsText mark params, b ≠ 0 := by
  induction params generalizing mark with
  | nil => simp [paramsText]
  | cons param params ih =>
  intro b hb
  simp only [paramsText, cons_append, append_assoc, mem_cons, mem_append] at hb
  rcases hb with rfl | hb | rfl | hb | hb
  · exact hmark
  · exact param.1.noNul b hb
  · decide
  · exact param.2.noNul b hb
  · exact ih (by decide) b hb

theorem targetText_noNul (url : CStr) (params : List Pair) :
    ∀ b ∈ targetText url params, b ≠ 0 := by
  intro b hb
  rcases mem_append.mp hb with hb | hb
  · exact url.noNul b hb
  · exact paramsText_noNul (by decide) params b hb

/-- `request_path` is the path with its parameters when it is not cut off. -/
theorem requestPath_eq {url : CStr} {params : List Pair} {path : Bytes}
    (h : requestPath url params = some path) (hlen : path.length < 1023) :
    path = targetText url params := by
  rw [requestPath] at h
  split_ifs at h with hnil hroom
  · cases h
    rw [targetText, hnil, paramsText, append_nil, take_of_length_le]
    rw [length_take] at hlen
    omega
  · cases h
    rfl

theorem ofString_bytes {text : String} (h : (ascii text).all (· != 0) = true) :
    (ofString text).bytes = ascii text := by
  apply ofBuffer_bytes_of_noNul
  intro b hb
  simpa using all_eq_true.mp h b hb

theorem wire_ofString {name : String} (h : (ascii name).all (· != 0) = true) (value : CStr) :
    wire (ofString name, value) = (ascii name, value.bytes) := by
  rw [wire, ofString_bytes h]

theorem ofString_methodStr (method : HttpMethod) :
    (ofString (httpMethodStr method)).bytes = ascii (httpMethodStr method) := by
  cases method <;> exact ofString_bytes (by decide)

theorem lengthField_eq (data : Bytes) : lengthField data = (lengthPairs data).map wire := by
  rw [lengthField, lengthPairs]
  split_ifs with h
  · rfl
  · rw [map_singleton, wire_ofString (by decide), ofBuffer_decimal]

/-- The pseudo fields of a message of at most 1022 bytes of fields. -/
theorem pseudoFields_eq {pseudo : List (Bytes × Bytes)} (h : pseudoFields head = some pseudo)
    (hlen : (pseudo.flatMap fieldBytes).length ≤ 1022) :
    ∃ target : CStr, pseudo = (pseudoPairs head target).map wire ∧ (head.headType = .request →
        ∃ url, head.url = some url ∧ target.bytes = targetText url head.params) := by
  rw [pseudoFields] at h
  cases htype : head.headType with
  | request =>
    simp only [htype] at h
    cases hurl : head.url with
    | none => simp [hurl] at h
    | some url =>
      simp only [hurl] at h
      obtain ⟨path, hpath, rfl⟩ := Option.map_eq_some_iff.mp h
      have hle : path.length < 1023 := by
        simp only [flatMap_cons, flatMap_nil, fieldBytes, length_append] at hlen
        omega
      have heq := requestPath_eq hpath hle
      have hbytes : (ofBuffer path).bytes = path :=
        ofBuffer_bytes_of_noNul (heq ▸ targetText_noNul url head.params)
      refine ⟨ofBuffer path, ?_, fun _ => ⟨url, rfl, hbytes.trans heq⟩⟩
      simp only [pseudoPairs, htype, map_cons, map_nil]
      rw [wire_ofString (by decide), wire_ofString (by decide), wire_ofString (by decide),
        hbytes, ofString_methodStr, ofString_bytes (by decide)]
  | response =>
    simp only [htype] at h
    cases h
    refine ⟨default, ?_, by simp⟩
    simp only [pseudoPairs, htype, map_cons, map_nil]
    rw [wire_ofString (by decide), ofBuffer_decimal]
  | invalid =>
    simp only [htype] at h
    cases h
    exact ⟨default, by simp [pseudoPairs, htype], by simp⟩

theorem http3BuildHeadersPayload_eq (h : http3BuildHeadersPayload head data 1024 = some payload) :
    ∃ target : CStr, payload = headersPayload (messageFields head target data) ∧
      payload.length ≤ 1024 ∧
      (head.headType = .request →
        ∃ url, head.url = some url ∧ target.bytes = targetText url head.params) := by
  rw [http3BuildHeadersPayload, if_neg (by decide)] at h
  cases hpseudo : pseudoFields head with
  | none => simp [hpseudo] at h
  | some pseudo =>
  simp only [hpseudo] at h
  obtain ⟨flat, hflat, rfl⟩ := Option.map_eq_some_iff.mp h
  obtain ⟨rfl, hlen⟩ := buildHeaders_eq hflat
  have hpseudoLen : (pseudo.flatMap fieldBytes).length ≤ 1022 := by
    simp only [flatMap_append, length_append] at hlen
    omega
  obtain ⟨target, rfl, htarget⟩ := pseudoFields_eq hpseudo hpseudoLen
  refine ⟨target, ?_, by simp only [length_append, length_cons, length_nil]; omega,
    htarget⟩
  have hmap : (pseudoPairs head target).map wire ++
      head.fields.map (fun f => (f.1.bytes, f.2.bytes)) ++ lengthField data =
        (messageFields head target data).map wire := by
    rw [lengthField_eq, messageFields, map_append, map_append]
    rfl
  rw [hmap, flatMap_map]
  rfl

theorem httpHeadSerializeHttp3_eq {bytes : Bytes} {bufferLen : Nat}
    (h : httpHeadSerializeHttp3 head data bufferLen = some bytes) :
    ∃ target : CStr, bytes = messageBytes (messageFields head target data) data ∧
      (headersPayload (messageFields head target data)).length ≤ 1024 ∧
      data.length ≤ bufferLen ∧
      (head.headType = .request →
        ∃ url, head.url = some url ∧ target.bytes = targetText url head.params) := by
  rw [httpHeadSerializeHttp3] at h
  cases hpayload : http3BuildHeadersPayload head data 1024 with
  | none => simp [hpayload] at h
  | some payload =>
  simp only [hpayload] at h
  obtain ⟨target, rfl, hsize, htarget⟩ := http3BuildHeadersPayload_eq hpayload
  cases hheaders : writeFrame http3HeaderFrame
      (headersPayload (messageFields head target data)) bufferLen with
  | none => simp [hheaders] at h
  | some headers =>
  simp only [hheaders] at h
  obtain ⟨rfl, hlen⟩ := writeFrame_eq hheaders
  split_ifs at h with hdata
  · cases h
    refine ⟨target, ?_, hsize, by simp [hdata], htarget⟩
    simp [messageBytes, dataFrameBytes, if_pos hdata]
  obtain ⟨frame, hframe, rfl⟩ := Option.map_eq_some_iff.mp h
  obtain ⟨rfl, hle⟩ := writeFrame_eq hframe
  rw [length_append] at hle
  refine ⟨target, ?_, hsize, by omega, htarget⟩
  simp [messageBytes, dataFrameBytes, if_neg hdata]

/-! ## How the message is taken apart -/

theorem quicvarint_ne_nil (value : Nat) : 0 < (quicvarint value).length := by
  rw [quicvarint]
  split_ifs <;> simp

theorem parseFrames_frame {frameType fuel offset k : Nat} (htype : frameType < 2 ^ 62)
    (hpayload : payload.length < 2 ^ 62) (rest : Bytes)
    (hk : (quicvarint frameType ++ quicvarint payload.length).length = k)
    (hroom : offset + k < h.buffSize) :
    parseFrames (fuel + 1) h offset expect
        (quicvarint frameType ++ (quicvarint payload.length ++ (payload ++ rest))) =
      match parseFrame h expect frameType payload with
      | .error e => .error e
      | .ok (.inl h₁) => .ok (.stopped h₁)
      | .ok (.inr (h₁, expect₁)) =>
        parseFrames fuel h₁ (offset + k + payload.length) expect₁ rest := by
  subst hk
  have hpos := quicvarint_ne_nil frameType
  obtain ⟨b, data, hdata⟩ := exists_cons_of_length_pos (show 0 <
    (quicvarint frameType ++ (quicvarint payload.length ++ (payload ++ rest))).length by
      rw [length_append]; omega)
  have hlen : (quicvarint frameType ++ (quicvarint payload.length ++ (payload ++ rest))).length -
      (payload ++ rest).length = (quicvarint frameType ++ quicvarint payload.length).length := by
    simp only [length_append]
    omega
  have hfits : ¬ (payload ++ rest).length < payload.length := by simp
  rw [hdata, parseFrames, ← hdata]
  simp only [quicvarintDecode_quicvarint htype, quicvarintDecode_quicvarint hpayload, hlen,
    if_neg (Nat.not_le.mpr hroom), take_left, drop_left]
  exact if_neg hfits

/-- Setting up the target or the status leaves the buffer alone. -/
theorem httpHeadSetupHttpcode_frame (hsetup : httpHeadSetupHttpcode h = some h') :
    h' = { h with toHttpHead := h'.toHttpHead } := by
  simp only [httpHeadSetupHttpcode] at hsetup
  split at hsetup
  · split_ifs at hsetup
    split at hsetup
    · cases hsetup
    · cases hsetup
      rfl
  split at hsetup
  · cases hsetup
    rfl
  split_ifs at hsetup
  cases hsetup
  rfl

theorem parseHeadersFrame_ok (hframe : parseHeadersFrame h payload = .ok (h', expect)) :
    ∃ h₁, http3ParseHeadersPayload h payload = .ok h₁ ∧ httpHeadSetupHttpcode h₁ = some h' ∧
      http3GetExpectedDataLen h'.toHttpHead = some expect := by
  simp only [parseHeadersFrame] at hframe
  split at hframe
  · cases hframe
  rename_i h₁ hpayload
  split at hframe
  · cases hframe
  rename_i h₂ hsetup
  split at hframe
  · cases hframe
  rename_i hexpect
  cases hframe
  exact ⟨h₁, hpayload, hsetup, hexpect⟩

section Inflate

variable (inflate : Bool → Bytes → Except Int Bytes)

/-- What is left to do behind the HEADERS frame of a message with this body. -/
def finishMessage (h : ReceivedHead) (expectDataLen : Option Nat) (data : Bytes) (total : Nat) :
    Except Int (ReceivedHead × Nat) :=
  if data = [] then finishParse inflate h total expectDataLen
  else
    match parseDataFrame h data with
    | .error e => .error e
    | .ok (.inl h₁) => .ok (h₁, 0)
    | .ok (.inr h₁) => finishParse inflate h₁ total expectDataLen

/-- The parser takes a message apart into the two frames it was written as. -/
theorem httpHeadParseHttp3_message
    {fields : List Pair} {size : Nat} (hpayload : (headersPayload fields).length ≤ 1024)
    (hdata : data.length < 2 ^ 62) (hsize : (messageBytes fields data).length < size) :
    httpHeadParseHttp3 inflate (httpHeadInit size) (messageBytes fields data) =
      match parseHeadersFrame (httpHeadInit size) (headersPayload fields) with
      | .error e => .error e
      | .ok (h, expect) =>
        finishMessage inflate h expect data (messageBytes fields data).length := by
  have hheader := quicvarint_ne_nil http3HeaderFrame
  have hlength := quicvarint_ne_nil (headersPayload fields).length
  obtain ⟨k, hk⟩ : ∃ k, (quicvarint http3HeaderFrame ++
    quicvarint (headersPayload fields).length).length = k := ⟨_, rfl⟩
  obtain ⟨l, hl⟩ : ∃ l, (quicvarint http3DataFrame ++ quicvarint data.length).length = l :=
    ⟨_, rfl⟩
  have hbytes : (messageBytes fields data).length =
      k + (headersPayload fields).length + (dataFrameBytes data).length := by
    simp only [messageBytes, length_append] at hk ⊢
    omega
  obtain ⟨fuel, hfuel⟩ : ∃ fuel, (messageBytes fields data).length = fuel + 1 + 1 := by
    rw [length_append] at hk
    exact ⟨(messageBytes fields data).length - 2, by omega⟩
  have hinit : { httpHeadInit size with dataLen := 0 } = httpHeadInit size := rfl
  have hroom : 0 + k < (httpHeadInit size).buffSize := by
    change _ < size
    omega
  rw [httpHeadParseHttp3, hinit, hfuel, messageBytes,
    parseFrames_frame (by decide) (by omega) _ hk hroom]
  simp only [parseFrame, if_true]
  cases hframe : parseHeadersFrame (httpHeadInit size) (headersPayload fields) with
  | error e => rfl
  | ok result =>
  obtain ⟨h, expect⟩ := result
  have hsizeEq : h.buffSize = size := by
    obtain ⟨h₁, hpayload, hsetup, -⟩ := parseHeadersFrame_ok hframe
    rw [httpHeadSetupHttpcode_frame hsetup, (parseHeadersLoop_frame hpayload).2]
    rfl
  simp only [Except.map, finishMessage]
  rw [dataFrameBytes] at hbytes ⊢
  split_ifs at hbytes ⊢ with hnil
  · simp only [parseFrames, length_nil, Nat.add_zero] at hbytes ⊢
    rw [← hfuel, hbytes, Nat.zero_add]
  rw [← append_assoc, length_append, hl] at hbytes
  have hnext := @parseFrames_frame data h expect http3DataFrame fuel
    (0 + k + (headersPayload fields).length) l (by decide) hdata [] hl (by omega)
  rw [append_nil] at hnext
  rw [hnext]
  have hne : http3DataFrame ≠ http3HeaderFrame := by decide
  simp only [parseFrame, if_neg hne, if_true]
  cases hdataFrame : parseDataFrame h data with
  | error e => rfl
  | ok result =>
  cases result with
  | inl h₁ => rfl
  | inr h₁ =>
    have htotal : fuel + 1 + 1 = 0 + k + (headersPayload fields).length + l + data.length := by
      omega
    rw [htotal]
    simp only [Except.map, Sum.map_inr, parseFrames]

/-! ## The body -/

theorem finishParse_ok
    {got : ReceivedHead} {offset : Nat}
    (hparse : finishParse inflate h offset expect = .ok (got, total)) :
    expect.getD h.dataLen = h.dataLen ∧ ∃ h₁, http3DecodeContentEncoding inflate h = .ok h₁ ∧
        got = { h₁ with version := some (ofString "HTTP/3.0") } := by
  simp only [finishParse] at hparse
  split_ifs at hparse with hless hmore
  split at hparse
  · cases hparse
  rename_i h₁ hdecode
  split_ifs at hparse
  cases hparse
  exact ⟨by omega, h₁, hdecode, rfl⟩

theorem http3DecodeContentEncoding_head (hdecode : http3DecodeContentEncoding inflate h = .ok h') :
    h'.toHttpHead = h.toHttpHead := by
  simp only [http3DecodeContentEncoding] at hdecode
  split at hdecode
  · split_ifs at hdecode
    · cases hdecode
      rfl
    split at hdecode
    · cases hdecode
    · simp only [storeDecompressed] at hdecode
      split_ifs at hdecode
      · cases hdecode
        rfl
      · cases hdecode
        rfl
  · cases hdecode
    rfl

theorem parseDataFrame_head (hframe : parseDataFrame h payload = .ok (.inr h')) :
    h'.toHttpHead = h.toHttpHead := by
  simp only [parseDataFrame, httpHeadBufferAppend] at hframe
  split_ifs at hframe
  · cases hframe
  · cases hframe
    rfl
  · cases hframe
    rfl
  · cases hframe
    rfl

/-- Behind the HEADERS frame nothing of the head changes but its body. -/
theorem finishMessage_head {got : ReceivedHead} (htotal : total ≠ 0)
    (hfinish : finishMessage inflate h expect data total = .ok (got, total)) :
    got.toHttpHead = h.toHttpHead := by
  simp only [finishMessage] at hfinish
  split_ifs at hfinish
  · obtain ⟨-, h₁, hdecode, rfl⟩ := finishParse_ok inflate hfinish
    have hhead := http3DecodeContentEncoding_head inflate hdecode
    exact hhead
  split at hfinish
  · cases hfinish
  · cases hfinish
    exact absurd rfl htotal
  rename_i h₁ hframe
  obtain ⟨-, h₂, hdecode, rfl⟩ := finishParse_ok inflate hfinish
  have hhead := http3DecodeContentEncoding_head inflate hdecode
  exact hhead.trans (parseDataFrame_head hframe)

/-- The conditions on the body behind the HEADERS frame. -/
def BodyStored (h : HttpHead) (expect : Option Nat) (data : Bytes) : Prop :=
  expect.getD data.length = data.length ∧
    (data ≠ [] → (h.headType = .response → h.code = 200) ∧
      ∀ isGzip ∈ contentCoding h, inflate isGzip data = .ok data)

/-- A head that has no body yet. -/
structure NoBody (h : ReceivedHead) : Prop where
  dataStart : h.dataStart = none
  dataLen : h.dataLen = 0

/-- The head behind a DATA frame that is stored. -/
def withBody (h : ReceivedHead) (data : Bytes) : ReceivedHead :=
  { h with
    buff := h.buff ++ data
    dataStart := some h.buff.length
    dataLen := data.length }

theorem withBody_data (h : ReceivedHead) (data : Bytes) : (withBody h data).data = data := by
  simp [ReceivedHead.data, withBody]

theorem storeDecompressed_withBody
    (data decompressed : Bytes) (hroom : h.buff.length + decompressed.length ≤ h.buffSize) :
    storeDecompressed (withBody h data) h.buff.length decompressed =
      .ok (withBody h decompressed) := by
  have hfits : ¬ (h.buffSize < h.buff.length ∨
      h.buffSize - h.buff.length < decompressed.length) := by
    omega
  have hlast : h.buff.length + data.length = (h.buff ++ data).length := by rw [length_append]
  simp only [storeDecompressed, withBody, if_neg hfits, if_pos hlast, take_left]

theorem storeDecompressed_data {decompressed : Bytes}
    (hstore : storeDecompressed (withBody h data) h.buff.length decompressed = .ok h') :
    h'.data = decompressed := by
  by_cases hroom : h.buff.length + decompressed.length ≤ h.buffSize
  · rw [storeDecompressed_withBody data decompressed hroom] at hstore
    cases hstore
    exact withBody_data h decompressed
  have hfits : (withBody h data).buffSize < h.buff.length ∨
      (withBody h data).buffSize - h.buff.length < decompressed.length := by
    change h.buffSize < h.buff.length ∨ h.buffSize - h.buff.length < decompressed.length
    omega
  rw [storeDecompressed, if_pos hfits] at hstore
  cases hstore

theorem finishParse_of_decoded
    {h₁ : ReceivedHead} (hexpect : expect.getD h.dataLen = h.dataLen)
    (hdecode : http3DecodeContentEncoding inflate h = .ok h₁) (htotal : total < h₁.buffSize) :
    finishParse inflate h total expect =
      .ok ({ h₁ with version := some (ofString "HTTP/3.0") }, total) := by
  simp only [finishParse, hexpect, Nat.lt_irrefl, if_false, hdecode, if_neg (Nat.not_le.mpr htotal)]

theorem decode_noBody (hstart : h.dataStart = none) :
    http3DecodeContentEncoding inflate h = .ok h := by
  simp only [http3DecodeContentEncoding, hstart]

theorem decode_withBody (hdata : data ≠ []) :
    http3DecodeContentEncoding inflate (withBody h data) = match contentCoding h.toHttpHead with
      | none => .ok (withBody h data)
      | some isGzip =>
        match inflate isGzip data with
        | .error e => .error e
        | .ok decompressed => storeDecompressed (withBody h data) h.buff.length decompressed := by
  have hlen : ¬ (withBody h data).dataLen = 0 := by simpa [withBody] using hdata
  have hhead : (withBody h data).toHttpHead = h.toHttpHead := rfl
  have hstart : (withBody h data).dataStart = some h.buff.length := rfl
  simp only [http3DecodeContentEncoding, hhead, hstart, withBody_data]
  cases contentCoding h.toHttpHead with
  | none => rfl
  | some isGzip => exact if_neg hlen

theorem parseDataFrame_withBody
    (hnone : NoBody h) (hdata : data ≠ []) (hstored : ¬ (h.code ≠ 200 ∧ h.headType = .response))
    (hroom : h.buff.length + data.length ≤ h.buffSize) :
    parseDataFrame h data = .ok (.inr (withBody h data)) := by
  simp only [parseDataFrame, if_neg hstored, if_neg hdata, httpHeadBufferAppend,
    if_neg (Nat.not_lt.mpr hroom), hnone.dataStart, hnone.dataLen, Option.getD_none,
    Nat.zero_add, withBody]

theorem finishMessage_iff (hnone : NoBody h) (hroom : h.buff.length + data.length ≤ h.buffSize)
    (htotal : total < h.buffSize) :
    (∃ got, finishMessage inflate h expect data total = .ok (got, total) ∧ got.data = data) ↔
      BodyStored inflate h.toHttpHead expect data := by
  rw [BodyStored]
  by_cases hdata : data = []
  · subst hdata
    simp only [finishMessage, if_true]
    constructor
    · rintro ⟨got, hfinish, -⟩
      obtain ⟨hexpect, -⟩ := finishParse_ok inflate hfinish
      rw [hnone.dataLen] at hexpect
      exact ⟨hexpect, fun h => absurd rfl h⟩
    rintro ⟨hexpect, -⟩
    refine ⟨_, finishParse_of_decoded inflate (by rw [hnone.dataLen]; exact hexpect)
      (decode_noBody inflate hnone.dataStart) htotal, ?_⟩
    simp only [ReceivedHead.data, hnone.dataStart]
  simp only [finishMessage, if_neg hdata]
  by_cases hrefused : h.code ≠ 200 ∧ h.headType = .response
  · -- the body of an error response becomes its message
    have hfits : ¬ h.buffSize - h.buff.length < data.length := by omega
    simp only [parseDataFrame, if_pos hrefused, if_neg hfits]
    constructor
    · rintro ⟨got, hfinish, hgot⟩
      obtain ⟨-, h₁, hdecode, rfl⟩ := finishParse_ok inflate hfinish
      rw [@decode_noBody { h with codeMsg := some data, buff := h.buff ++ data } inflate
        hnone.dataStart] at hdecode
      cases hdecode
      simp only [ReceivedHead.data, hnone.dataStart] at hgot
      exact absurd hgot.symm hdata
    · rintro ⟨-, hbody⟩
      exact absurd ((hbody hdata).1 hrefused.2) hrefused.1
  rw [parseDataFrame_withBody hnone hdata hrefused hroom]
  simp only
  have hcode : h.headType = .response → h.code = 200 := by
    intro htype
    by_contra hne
    exact hrefused ⟨hne, htype⟩
  constructor
  · rintro ⟨got, hfinish, hgot⟩
    obtain ⟨hexpect, h₁, hdecode, rfl⟩ := finishParse_ok inflate hfinish
    refine ⟨hexpect, fun _ => ⟨hcode, ?_⟩⟩
    intro isGzip hcoding
    rw [decode_withBody inflate hdata, hcoding] at hdecode
    cases hinflate : inflate isGzip data with
    | error e => simp [hinflate] at hdecode
    | ok decompressed =>
      simp only [hinflate] at hdecode
      have hsame := storeDecompressed_data hdecode
      have hdataEq : h₁.data = data := hgot
      rw [← hsame, hdataEq]
  · rintro ⟨hexpect, hbody⟩
    have hdecode : http3DecodeContentEncoding inflate (withBody h data) =
        .ok (withBody h data) := by
      rw [decode_withBody inflate hdata]
      cases hcoding : contentCoding h.toHttpHead with
      | none => rfl
      | some isGzip =>
        simp only [(hbody hdata).2 isGzip hcoding]
        exact storeDecompressed_withBody data data hroom
    exact ⟨_, finishParse_of_decoded inflate hexpect hdecode htotal, withBody_data h data⟩

end Inflate

end SmartDns.Http3
