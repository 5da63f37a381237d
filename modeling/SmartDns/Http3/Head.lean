import SmartDns.Http2.Recv
import SmartDns.Http3.Qpack

/-!
# HTTP/3 heads

`http_head_serialize_http3_0` and `http_head_parse_http3_0` of
`http_parse/http3_parse.c`, with what they use of `http_parse/http_parse.c`.

The parser copies names, values and body into the buffer of its head, one
behind the other.  Its failures are its negative return values.
-/

namespace SmartDns.Http3

open Http2 (strcaseeq isSpace isDigit digitsValue strtolAll)

inductive HttpMethod
  | invalid | get | head | post | put | delete | trace | connect
deriving DecidableEq, Repr

inductive HttpHeadType
  | invalid | request | response
deriving DecidableEq, Repr

/-- A field or a parameter: its name and its value. -/
abbrev Pair := CStr × CStr

/-- What callers put into a `struct http_head` and read out of it; the body
stands beside it. -/
structure HttpHead where
  headType : HttpHeadType := .invalid
  method : HttpMethod := .invalid
  url : Option CStr := none
  code : Nat := 0
  fields : List Pair := []
  params : List Pair := []
deriving DecidableEq

def httpMethodStr : HttpMethod → String
  | .get => "GET"
  | .post => "POST"
  | .put => "PUT"
  | .delete => "DELETE"
  | .trace => "TRACE"
  | .connect => "CONNECT"
  | _ => "INVALID"

def httpMethodParse (method : CStr) : HttpMethod :=
  if method.bytes = ascii "GET" then .get
  else if method.bytes = ascii "POST" then .post
  else if method.bytes = ascii "PUT" then .put
  else if method.bytes = ascii "DELETE" then .delete
  else if method.bytes = ascii "TRACE" then .trace
  else if method.bytes = ascii "CONNECT" then .connect
  else .invalid

/-- The text that `%d` gives a number. -/
def decimal (n : Nat) : Bytes :=
  if n = 0 then [48]
  else (Nat.digits 10 n).reverse.map fun d => UInt8.ofNat (48 + d)

/-! ## Writing -/

/--
`_qpack_build_header`.  The length of a name of 7 bytes or more is written as
one byte, that of a value as a QUIC integer.
-/
def qpackBuildHeader (name value : Bytes) (bufferSize : Nat) : Option Bytes :=
  let nameHead : Bytes :=
    if name.length < 7 then [UInt8.ofNat (0x20 ||| name.length)]
    else [0x27, UInt8.ofNat (name.length - 7)]
  let offset := nameHead.length + name.length
  if bufferSize < 2 ∨ bufferSize - nameHead.length < name.length ∨
      bufferSize - offset < 2 then
    none
  else
    match quicvarintEncode value.length (bufferSize - offset) with
    | none => none
    | some valueHead =>
      if bufferSize - (offset + valueHead.length) < value.length then none
      else some (nameHead ++ name ++ valueHead ++ value)

/-- Fields written one after another into a buffer of `bufferSize` bytes. -/
def buildHeaders : (bufferSize : Nat) → List (Bytes × Bytes) → Option Bytes
  | _, [] => some []
  | bufferSize, field :: fields =>
    match qpackBuildHeader field.1 field.2 bufferSize with
    | none => none
    | some header => (buildHeaders (bufferSize - header.length) fields).map (header ++ ·)

/-- The parameters behind the path, the first one after `mark`. -/
def paramsText (mark : UInt8) : List Pair → Bytes
  | [] => []
  | param :: params => mark :: param.1.bytes ++ (61 :: param.2.bytes) ++ paramsText 38 params

/--
`request_path`: the path and the parameters, in a buffer of 1024 bytes of which
two have to be left behind the parameters.  A path without parameters is cut
off instead.  A path that fills the buffer by itself lets the parameters be
written behind it; that is a failure here.
-/
def requestPath (url : CStr) (params : List Pair) : Option Bytes :=
  if params = [] then some (url.bytes.take 1023)
  else if 1024 < (url.bytes ++ paramsText 63 params).length + 2 then none
  else some (url.bytes ++ paramsText 63 params)

/-- The fields that stand in front of those of the head. -/
def pseudoFields (head : HttpHead) : Option (List (Bytes × Bytes)) :=
  match head.headType with
  | .request =>
    match head.url with
    | none => none
    | some url =>
      (requestPath url head.params).map fun path =>
        [(ascii ":method", ascii (httpMethodStr head.method)), (ascii ":path", path),
          (ascii ":scheme", ascii "https")]
  | .response => some [(ascii ":status", decimal head.code)]
  | .invalid => some []

/-- The field that tells the length of a body. -/
def lengthField (data : Bytes) : List (Bytes × Bytes) :=
  if data = [] then [] else [(ascii "content-length", decimal data.length)]

def http3BuildHeadersPayload (head : HttpHead) (data : Bytes) (bufferLen : Nat) : Option Bytes :=
  if bufferLen < 2 then none
  else
    match pseudoFields head with
    | none => none
    | some pseudo =>
      (buildHeaders (bufferLen - 2)
        (pseudo ++ head.fields.map (fun f => (f.1.bytes, f.2.bytes)) ++
          lengthField data)).map ([0, 0] ++ ·)

/-- A frame of `http_head_serialize_http3_0`: its type, its length and its
payload. -/
def writeFrame (frameType : Nat) (payload : Bytes) (bufferLen : Nat) : Option Bytes :=
  match quicvarintEncode frameType bufferLen with
  | none => none
  | some typeBytes =>
    match quicvarintEncode payload.length (bufferLen - typeBytes.length) with
    | none => none
    | some lenBytes =>
      if bufferLen - typeBytes.length - lenBytes.length < payload.length then none
      else some (typeBytes ++ lenBytes ++ payload)

def http3HeaderFrame : Nat := 1

def http3DataFrame : Nat := 0

/--
`http_head_serialize_http3_0`.  The header frame is built in a buffer of 1024
bytes; `_http3_build_headers_payload` never returns more than that, so that the
buffer is never made larger.
-/
def httpHeadSerializeHttp3 (head : HttpHead) (data : Bytes) (bufferLen : Nat) : Option Bytes :=
  match http3BuildHeadersPayload head data 1024 with
  | none => none
  | some payload =>
    match writeFrame http3HeaderFrame payload bufferLen with
    | none => none
    | some headers =>
      if data = [] then some headers
      else
        (writeFrame http3DataFrame data (bufferLen - headers.length)).map
          (headers ++ ·)

/-! ## Reading -/

/-- A `struct http_head` that is being filled from received frames. -/
structure ReceivedHead extends HttpHead where
  version : Option CStr := none
  codeMsg : Option Bytes := none
  buffSize : Nat
  buff : Bytes := []
  /-- Where the body starts in `buff`; `none` is NULL. -/
  dataStart : Option Nat := none
  dataLen : Nat := 0

def httpHeadInit (buffSize : Nat) : ReceivedHead :=
  { buffSize }

/-- The `data_len` bytes at `http_head_get_data`. -/
def ReceivedHead.data (h : ReceivedHead) : Bytes :=
  match h.dataStart with
  | none => []
  | some start => (h.buff.drop start).take h.dataLen

def httpHeadBufferLeftLen (h : ReceivedHead) : Int :=
  h.buffSize - h.buff.length

def httpHeadBufferAppend (h : ReceivedHead) (data : Bytes) : Option ReceivedHead :=
  if h.buffSize < h.buff.length + data.length then none
  else some { h with buff := h.buff ++ data }

def fieldNamed (name : String) (field : Pair) : Bool :=
  strcaseeq (field.1.bytes.take 128) (ascii name)

/--
`http_head_get_fields_value`.  The hash chain holds the newest field first;
names are compared up to 128 characters.
-/
def httpHeadGetFieldsValue (h : HttpHead) (name : String) : Option CStr :=
  (h.fields.reverse.find? (fieldNamed name)).map Prod.snd

/-- Another value for the first field that `p` accepts. -/
def replaceFirst (p : Pair → Bool) (value : CStr) : List Pair → List Pair
  | [] => []
  | field :: fields =>
    if p field then (field.1, value) :: fields
    else field :: replaceFirst p value fields

/-- A string read into the buffer of the head by `_quic_read_string`. -/
def readHeadString (h : ReceivedHead) (data : Bytes) (n : Nat) (huffman : Bool) :
    Except Int (ReceivedHead × CStr × Bytes) :=
  match quicReadString data (httpHeadBufferLeftLen h - 1) n huffman with
  | .error e => .error e
  | .ok (str, rest) =>
    match httpHeadBufferAppend h (str ++ [0]) with
    | none => .error (-3)
    | some h => .ok (h, CStr.ofBuffer str, rest)

/-- A bit of the byte that `data` starts with. -/
def firstByteHas (mask : Nat) (data : Bytes) : Bool :=
  (data.headD 0).toNat &&& mask != 0

/--
One turn of the loop of `_http3_parse_headers_payload`: the name and the value
of the field, NULL as `none`, and the rest of the payload.  A Huffman name
makes its value one, too.
-/
def parseHeader (h : ReceivedHead) (data : Bytes) :
    Except Int (ReceivedHead × CStr × Option CStr × Bytes) :=
  if firstByteHas 0x80 data then
    if firstByteHas 0x40 data then
      match quicReadVarint data 6 with
      | none => .error (-1)
      | some (index, rest) =>
        match qpackGetStaticHeaderField index with
        | none => .error (-2)
        | some (name, value) => .ok (h, name, value, rest)
    else .error (-2)
  else if firstByteHas 0x40 data then
    if firstByteHas 0x10 data then
      match quicReadVarint data 4 with
      | none => .error (-1)
      | some (index, rest) =>
        match qpackGetStaticHeaderField index with
        | none => .error (-2)
        | some (name, _) =>
          match readHeadString h rest 7 (firstByteHas 0x80 rest) with
          | .error e => .error e
          | .ok (h, value, rest) => .ok (h, name, some value, rest)
    else .error (-2)
  else if firstByteHas 0x20 data then
    let huffman := firstByteHas 0x8 data
    match readHeadString h data 3 huffman with
    | .error e => .error e
    | .ok (h, name, rest) =>
      match readHeadString h rest 7 (huffman || firstByteHas 0x80 rest) with
      | .error e => .error e
      | .ok (h, value, rest) => .ok (h, name, some value, rest)
  else .error (-2)

/--
The loop of `_http3_parse_headers_payload`.  Every turn consumes a byte, so
that `fuel` does not run out when it starts as the length of the payload.
-/
def parseHeadersLoop : (fuel : Nat) → ReceivedHead → Bytes → Except Int ReceivedHead
  | _, h, [] => .ok h
  | 0, _, _ :: _ => .error (-1)
  | fuel + 1, h, b :: data =>
    match parseHeader h (b :: data) with
    | .error e => .error e
    | .ok (h, name, some value, rest) =>
      parseHeadersLoop fuel { h with fields := h.fields ++ [(name, value)] } rest
    | .ok (h, _, none, _) => .ok h

def http3ParseHeadersPayload (h : ReceivedHead) (data : Bytes) : Except Int ReceivedHead :=
  match data with
  | insertCount :: deltaBase :: rest =>
    if insertCount ≠ 0 ∨ deltaBase ≠ 0 then .error (-2)
    else parseHeadersLoop rest.length h rest
  | _ => .error (-1)

/-- The loop of `_http_head_parse_params`: the name that is complete, the
characters since `field_start`, and what is left of the string. -/
def parseParamsLoop : Option Bytes → Bytes → Bytes → List (Bytes × Bytes)
  | none, _, [] => []
  | some field, start, [] => [(field, start)]
  | none, start, ch :: rest =>
    if ch = 61 then parseParamsLoop (some start) [] rest
    else parseParamsLoop none (start ++ [ch]) rest
  | some field, start, ch :: rest =>
    if ch = 38 then (field, start) :: parseParamsLoop none [] rest
    else parseParamsLoop (some field) (start ++ [ch]) rest

/-- `_http_head_parse_params`: the string in front of the first `?` and the
parameters behind it. -/
def httpHeadParseParams (url : CStr) : CStr × List Pair :=
  let path := url.bytes.takeWhile (· != 63)
  match url.bytes.dropWhile (· != 63) with
  | [] => (url, [])
  | _ :: text =>
    (CStr.ofBuffer path,
      (parseParamsLoop none [] text).map fun param =>
        (CStr.ofBuffer param.1, CStr.ofBuffer param.2))

/-- `strtol` with base 10, on as much of the text as is a number. -/
def strtol (text : Bytes) : Int :=
  let text := text.dropWhile isSpace
  let negative := text.head? == some 45
  let digits := (if negative || text.head? == some 43 then text.drop 1 else text).takeWhile isDigit
  if negative then max (-2 ^ 63) (-(digitsValue digits))
  else min (2 ^ 63 - 1) (digitsValue digits)

def atoi (text : Bytes) : Int :=
  (strtol text).bmod (2 ^ 32)

/--
`_http_head_setup_http3_0_httpcode`; `none` is -1.  The parameters are cut out
of the string that the `:path` field points to.
-/
def httpHeadSetupHttpcode (h : ReceivedHead) : Option ReceivedHead :=
  match httpHeadGetFieldsValue h.toHttpHead ":method" with
  | some method =>
    if httpMethodParse method = .invalid then none
    else
      match httpHeadGetFieldsValue h.toHttpHead ":path" with
      | none => none
      | some url =>
        some { h with
          method := httpMethodParse method
          url := some (httpHeadParseParams url).1
          headType := .request
          params := h.params ++ (httpHeadParseParams url).2
          fields := (replaceFirst (fieldNamed ":path") (httpHeadParseParams url).1
            h.fields.reverse).reverse }
  | none =>
    match httpHeadGetFieldsValue h.toHttpHead ":status" with
    | none => some h
    | some status =>
      if atoi status.bytes < 100 ∨ 999 < atoi status.bytes then none
      else some { h with headType := .response, code := (atoi status.bytes).toNat }

def intMax : Nat := 2 ^ 31 - 1

/-- `_http3_get_expected_data_len`: `none` is -1, `some none` that no length is
given. -/
def http3GetExpectedDataLen (h : HttpHead) : Option (Option Nat) :=
  match httpHeadGetFieldsValue h "content-length" with
  | none => some none
  | some contentLen =>
    if contentLen.bytes = [] then some none
    else
      match strtolAll contentLen.bytes with
      | none => none
      | some expectLen =>
        if expectLen < 0 ∨ intMax < expectLen then none
        else some (some expectLen.toNat)

/-- A HEADERS frame, and the length of the body that it announces. -/
def parseHeadersFrame (h : ReceivedHead) (payload : Bytes) :
    Except Int (ReceivedHead × Option Nat) :=
  match http3ParseHeadersPayload h payload with
  | .error e => .error e
  | .ok h =>
    match httpHeadSetupHttpcode h with
    | none => .error (-1)
    | some h =>
      match http3GetExpectedDataLen h.toHttpHead with
      | none => .error (-2)
      | some expectDataLen => .ok (h, expectDataLen)

/-- A DATA frame; on the left the head with which the parser returns 0. -/
def parseDataFrame (h : ReceivedHead) (payload : Bytes) :
    Except Int (ReceivedHead ⊕ ReceivedHead) :=
  if h.code ≠ 200 ∧ h.headType = .response then
    if h.buffSize - h.buff.length < payload.length then
      .ok (.inl { h with codeMsg := some (ascii "Unknow Error") })
    else .ok (.inr { h with codeMsg := some payload, buff := h.buff ++ payload })
  else if payload = [] then .ok (.inr h)
  else
    match httpHeadBufferAppend h payload with
    | none => .error (-3)
    | some h' =>
      .ok (.inr { h' with
        dataStart := some (h.dataStart.getD h.buff.length)
        dataLen := h.dataLen + payload.length })

/-- One frame of any type; unknown ones are skipped. -/
def parseFrame (h : ReceivedHead) (expectDataLen : Option Nat) (frameType : Nat)
    (payload : Bytes) : Except Int (ReceivedHead ⊕ ReceivedHead × Option Nat) :=
  if frameType = http3HeaderFrame then (parseHeadersFrame h payload).map .inr
  else if frameType = http3DataFrame then
    (parseDataFrame h payload).map (Sum.map id fun h => (h, expectDataLen))
  else .ok (.inr (h, expectDataLen))

/-- How the loop over the frames ends: with `return 0`, or at the end of the
message. -/
inductive FramesEnd
  | stopped (h : ReceivedHead)
  | finished (h : ReceivedHead) (offset : Nat) (expectDataLen : Option Nat)

/--
The loop of `http_head_parse_http3_0`.  Every turn consumes two bytes, so that
`fuel` does not run out when it starts as the length of the message.
-/
def parseFrames :
    (fuel : Nat) → ReceivedHead → (offset : Nat) → Option Nat → Bytes →
      Except Int FramesEnd
  | _, h, offset, expect, [] => .ok (.finished h offset expect)
  | 0, _, _, _, _ :: _ => .error (-1)
  | fuel + 1, h, offset, expect, b :: data =>
    match quicvarintDecode (b :: data) with
    | none => .error (-1)
    | some (frameType, afterType) =>
      match quicvarintDecode afterType with
      | none => .error (-1)
      | some (frameLen, rest) =>
        let offset := offset + ((b :: data).length - rest.length)
        if h.buffSize ≤ offset then .error (-3)
        else if rest.length < frameLen then .error (-1)
        else
          match parseFrame h expect frameType (rest.take frameLen) with
          | .error e => .error e
          | .ok (.inl h) => .ok (.stopped h)
          | .ok (.inr (h, expect)) =>
            parseFrames fuel h (offset + frameLen) expect (rest.drop frameLen)

section Inflate

-- `_http3_decompress_data`: the window of gzip or of zlib, and the compressed
-- bytes.
variable (inflate : Bool → Bytes → Except Int Bytes)

/-- The decompressed body takes the place of the one received, or stands behind
the buffer's contents when something else follows that. -/
def storeDecompressed (h : ReceivedHead) (start : Nat) (decompressed : Bytes) :
    Except Int ReceivedHead :=
  if h.buffSize < start ∨ h.buffSize - start < decompressed.length then .error (-3)
  else if start + h.dataLen = h.buff.length then
    .ok { h with
      buff := h.buff.take start ++ decompressed
      dataStart := some start
      dataLen := decompressed.length }
  else if httpHeadBufferLeftLen h < decompressed.length then .error (-3)
  else
    .ok { h with
      buff := h.buff ++ decompressed
      dataStart := some h.buff.length
      dataLen := decompressed.length }

/-- The coding that the head names, gzip as `true` and deflate as `false`. -/
def contentCoding (h : HttpHead) : Option Bool :=
  match httpHeadGetFieldsValue h "content-encoding" with
  | none => none
  | some encoding =>
    if strcaseeq encoding.bytes (ascii "gzip") then some true
    else if strcaseeq encoding.bytes (ascii "deflate") then some false
    else none

def http3DecodeContentEncoding (h : ReceivedHead) : Except Int ReceivedHead :=
  match h.dataStart, contentCoding h.toHttpHead with
  | some start, some isGzip =>
    if h.dataLen = 0 then .ok h
    else
      match inflate isGzip h.data with
      | .error e => .error e
      | .ok decompressed => storeDecompressed h start decompressed
  | _, _ => .ok h

/-- `http_head_parse_http3_0` behind its loop: the length of the body and its
coding. -/
def finishParse (h : ReceivedHead) (offset : Nat) (expectDataLen : Option Nat) :
    Except Int (ReceivedHead × Nat) :=
  if h.dataLen < expectDataLen.getD h.dataLen then .error (-1)
  else if expectDataLen.getD h.dataLen < h.dataLen then .error (-2)
  else
    match http3DecodeContentEncoding inflate h with
    | .error e => .error e
    | .ok h =>
      if h.buffSize ≤ offset then .error (-3)
      else .ok ({ h with version := some (CStr.ofString "HTTP/3.0") }, offset)

/-- `http_head_parse_http3_0`: the head and the return value. -/
def httpHeadParseHttp3 (h : ReceivedHead) (data : Bytes) : Except Int (ReceivedHead × Nat) :=
  match parseFrames data.length { h with dataLen := 0 } 0 none data with
  | .error e => .error e
  | .ok (.stopped h) => .ok (h, 0)
  | .ok (.finished h offset expect) => finishParse inflate h offset expect

end Inflate

end SmartDns.Http3
