import SmartDns.Lib.Bytes

/-!
# QPACK strings and the static table

The tables and the Huffman decoder of `http_parse/qpack.c`, and the integer and
string codecs of `http_parse/http3_parse.c`.

Two integer formats meet here.  `_quicvarint_encode` writes a length whose two
top bits say how many bytes it takes; `_quic_read_varint` reads an integer that
fills the low bits of a byte and goes on in base 128 when these are all ones.
A reader returns what it read and the rest of the buffer.
-/

namespace SmartDns.Http3

/-- `_qpack_huffman_bit`: one bit a node, set when the node has children. -/
def qpackHuffmanBit : List Nat :=
  [
    249, 50, 115, 39, 38, 79, 147, 39, 38, 100, 249, 50, 114, 100, 242, 100,
    228, 228, 206, 77, 52, 228, 204, 203, 202, 114, 102, 79, 147, 39, 76, 156,
    153, 62, 76, 156, 156, 153, 62, 76, 156, 153, 60, 154, 100, 242, 102, 79,
    147, 39, 38, 83, 228, 201, 201, 147, 211, 39, 38, 79, 38, 78, 76, 178]

/-- `_qpack_huffman_val`: the distance to the second child, or the symbol. -/
def qpackHuffmanVal : List Nat :=
  [
    44, 16, 8, 4, 2, 48, 49, 2, 50, 97, 4, 2, 99, 101, 2, 105, 111, 12, 4, 2,
    115, 116, 4, 2, 32, 37, 2, 45, 46, 8, 4, 2, 47, 51, 2, 52, 53, 4, 2, 54, 55,
    2, 56, 57, 36, 16, 8, 4, 2, 61, 65, 2, 95, 98, 4, 2, 100, 102, 2, 103, 104,
    8, 4, 2, 108, 109, 2, 110, 112, 4, 2, 114, 117, 4, 2, 58, 66, 2, 67, 68, 32,
    16, 8, 4, 2, 69, 70, 2, 71, 72, 4, 2, 73, 74, 2, 75, 76, 8, 4, 2, 77, 78, 2,
    79, 80, 4, 2, 81, 82, 2, 83, 84, 16, 8, 4, 2, 85, 86, 2, 87, 89, 4, 2, 106,
    107, 2, 113, 118, 8, 4, 2, 119, 120, 2, 121, 122, 8, 4, 2, 38, 42, 2, 44,
    59, 4, 2, 88, 90, 8, 4, 2, 33, 34, 2, 40, 41, 6, 2, 63, 2, 39, 43, 6, 2,
    124, 2, 35, 62, 8, 4, 2, 0, 36, 2, 64, 91, 4, 2, 93, 126, 4, 2, 94, 125, 4,
    2, 60, 96, 2, 123, 30, 10, 4, 2, 92, 195, 2, 208, 2, 128, 130, 8, 4, 2, 131,
    162, 2, 184, 194, 4, 2, 224, 226, 4, 2, 153, 161, 2, 167, 172, 46, 16, 8, 4,
    2, 176, 177, 2, 179, 209, 4, 2, 216, 217, 2, 227, 229, 14, 6, 2, 230, 2,
    129, 132, 4, 2, 133, 134, 2, 136, 146, 8, 4, 2, 154, 156, 2, 160, 163, 4, 2,
    164, 169, 2, 170, 173, 40, 16, 8, 4, 2, 178, 181, 2, 185, 186, 4, 2, 187,
    189, 2, 190, 196, 8, 4, 2, 198, 228, 2, 232, 233, 8, 4, 2, 1, 135, 2, 137,
    138, 4, 2, 139, 140, 2, 141, 143, 32, 16, 8, 4, 2, 147, 149, 2, 150, 151, 4,
    2, 152, 155, 2, 157, 158, 8, 4, 2, 165, 166, 2, 168, 174, 4, 2, 175, 180, 2,
    182, 183, 22, 8, 4, 2, 188, 191, 2, 197, 231, 6, 2, 239, 2, 9, 142, 4, 2,
    144, 145, 2, 148, 159, 20, 8, 4, 2, 171, 206, 2, 215, 225, 4, 2, 236, 237,
    4, 2, 199, 207, 2, 234, 235, 34, 16, 8, 4, 2, 192, 193, 2, 200, 201, 4, 2,
    202, 205, 2, 210, 213, 8, 4, 2, 218, 219, 2, 238, 240, 4, 2, 242, 243, 2,
    255, 2, 203, 204, 32, 16, 8, 4, 2, 211, 212, 2, 214, 221, 4, 2, 222, 223, 2,
    241, 244, 8, 4, 2, 245, 246, 2, 247, 248, 4, 2, 250, 251, 2, 252, 253, 30,
    14, 6, 2, 254, 2, 2, 3, 4, 2, 4, 5, 2, 6, 7, 8, 4, 2, 8, 11, 2, 12, 14, 4,
    2, 15, 16, 2, 17, 18, 16, 8, 4, 2, 19, 20, 2, 21, 23, 4, 2, 24, 25, 2, 26,
    27, 8, 4, 2, 28, 29, 2, 30, 31, 4, 2, 127, 220, 2, 249, 4, 2, 10, 13, 2, 22]

/-- The node has children. -/
def huffmanInner (index : Nat) : Bool :=
  (qpackHuffmanBit.getD (index >>> 3) 0 >>> (7 - (index &&& 7))) &&& 1 == 1

/-- The place of `qpack_huffman_decode` in the tree, and its output. -/
structure HuffmanWalk where
  index : Nat := 0
  wasAllOnes : Bool := true
  decoded : Bytes := []

/-- The symbol of a leaf is put out and the walk goes back to the root. -/
def HuffmanWalk.emit (w : HuffmanWalk) (maxDecoded : Nat) : Option HuffmanWalk :=
  if huffmanInner w.index then some w
  else if w.decoded.length < maxDecoded then
    some { decoded := w.decoded ++ [UInt8.ofNat (qpackHuffmanVal.getD w.index 0)] }
  else none

def HuffmanWalk.finish (w : HuffmanWalk) : Option Bytes :=
  if w.wasAllOnes then some w.decoded else none

/-- The loop of `qpack_huffman_decode` over the bits that are left. -/
def qpackHuffmanLoop (maxDecoded : Nat) :
    List Bool → HuffmanWalk → Option Bytes
  | [], w => (w.emit maxDecoded).bind HuffmanWalk.finish
  | bit :: bits, w => do
      let w ← w.emit maxDecoded
      let next : HuffmanWalk :=
        if bit then { w with index := w.index + qpackHuffmanVal.getD w.index 0 }
        else { w with index := w.index + 1, wasAllOnes := false }
      if 512 ≤ next.index then
        next.finish
      else qpackHuffmanLoop maxDecoded bits next

/-- The bits of a byte, the most significant first. -/
def bitsOf (b : UInt8) : List Bool :=
  (List.range 8).map fun i => b.toNat.testBit (7 - i)

def qpackHuffmanDecode (bytes : Bytes) (maxDecoded : Nat) : Option Bytes :=
  qpackHuffmanLoop maxDecoded (bytes.flatMap bitsOf) {}

/-- `_http3_static_header_table`; the value of `authorization` is NULL. -/
def http3StaticHeaderTable : List (String × Option String) :=
  [
    (":authority", some ""), (":path", some "/"), ("age", some "0"),
    ("content-disposition", some ""), ("content-length", some "0"), ("cookie", some ""),
    ("date", some ""), ("etag", some ""), ("if-modified-since", some ""),
    ("if-none-match", some ""), ("last-modified", some ""), ("link", some ""),
    ("location", some ""), ("referer", some ""), ("set-cookie", some ""),
    (":method", some "CONNECT"), (":method", some "DELETE"), (":method", some "GET"),
    (":method", some "HEAD"), (":method", some "OPTIONS"), (":method", some "POST"),
    (":method", some "PUT"), (":scheme", some "http"), (":scheme", some "https"),
    (":status", some "103"), (":status", some "200"), (":status", some "304"),
    (":status", some "404"), (":status", some "503"), ("accept", some "*/*"),
    ("accept", some "application/dns-message"),
    ("accept-encoding", some "gzip, .value = deflate, .value = br"),
    ("accept-ranges", some "bytes"), ("access-control-allow-headers", some "cache-control"),
    ("access-control-allow-headers", some "content-type"),
    ("access-control-allow-origin", some "*"), ("cache-control", some "max-age=0"),
    ("cache-control", some "max-age=2592000"), ("cache-control", some "max-age=604800"),
    ("cache-control", some "no-cache"), ("cache-control", some "no-store"),
    ("cache-control", some "public, .value = max-age=31536000"), ("content-encoding", some "br"),
    ("content-encoding", some "gzip"), ("content-type", some "application/dns-message"),
    ("content-type", some "application/javascript"), ("content-type", some "application/json"),
    ("content-type", some "application/x-www-form-urlencoded"), ("content-type", some "image/gif"),
    ("content-type", some "image/jpeg"), ("content-type", some "image/png"),
    ("content-type", some "text/css"), ("content-type", some "text/html; charset=utf-8"),
    ("content-type", some "text/plain"), ("content-type", some "text/plain;charset=utf-8"),
    ("range", some "bytes=0-"), ("strict-transport-security", some "max-age=31536000"),
    ("strict-transport-security", some "max-age=31536000; includesubdomains"),
    ("strict-transport-security", some "max-age=31536000; includesubdomains; preload"),
    ("vary", some "accept-encoding"), ("vary", some "origin"),
    ("x-content-type-options", some "nosniff"), ("x-xss-protection", some "1; mode=block"),
    (":status", some "100"), (":status", some "204"), (":status", some "206"),
    (":status", some "302"), (":status", some "400"), (":status", some "403"),
    (":status", some "421"), (":status", some "425"), (":status", some "500"),
    ("accept-language", some ""), ("access-control-allow-credentials", some "FALSE"),
    ("access-control-allow-credentials", some "TRUE"), ("access-control-allow-headers", some "*"),
    ("access-control-allow-methods", some "get"),
    ("access-control-allow-methods", some "get, .value = post, .value = options"),
    ("access-control-allow-methods", some "options"),
    ("access-control-expose-headers", some "content-length"),
    ("access-control-request-headers", some "content-type"),
    ("access-control-request-method", some "get"), ("access-control-request-method", some "post"),
    ("alt-svc", some "clear"), ("authorization", none),
    ("content-security-policy", some "script-src 'none'; object-src 'none'; base-uri 'none'"),
    ("early-data", some "1"), ("expect-ct", some ""), ("forwarded", some ""), ("if-range", some ""),
    ("origin", some ""), ("purpose", some "prefetch"), ("server", some ""),
    ("timing-allow-origin", some "*"), ("upgrade-insecure-requests", some "1"),
    ("user-agent", some ""), ("x-forwarded-for", some ""), ("x-frame-options", some "deny"),
    ("x-frame-options", some "sameorigin")]

/--
`qpack_get_static_header_field`.  Its parameter is an `int`: the upper half of
a 64-bit index is lost.
-/
def qpackGetStaticHeaderField (index : Nat) : Option (CStr × Option CStr) :=
  (http3StaticHeaderTable[index % 2 ^ 32]?).map fun entry =>
    (CStr.ofString entry.1, entry.2.map CStr.ofString)

/-- The big-endian bytes of a number below `256 ^ width`. -/
def bigEndian : (width value : Nat) → Bytes
  | 0, _ => []
  | width + 1, value => bigEndian width (value / 256) ++ [UInt8.ofNat value]

/-- The number written by big-endian bytes. -/
def bigEndianValue (bytes : Bytes) : Nat :=
  bytes.foldl (fun n b => 256 * n + b.toNat) 0

/-- One case of `_quicvarint_encode`: `width` bytes, the tag in the top two bits. -/
def quicvarintCase (width tag value bufferSize : Nat) : Option Bytes :=
  if bufferSize < width then none
  else some (bigEndian width (value ||| tag <<< (8 * width - 2)))

def quicvarintEncode (value bufferSize : Nat) : Option Bytes :=
  if value ≤ 63 then quicvarintCase 1 0 value bufferSize
  else if value ≤ 16383 then quicvarintCase 2 1 value bufferSize
  else if value ≤ 1073741823 then quicvarintCase 4 2 value bufferSize
  else quicvarintCase 8 3 value bufferSize

/--
`_quicvarint_decode`.  In front of an empty buffer the first byte is read from
behind it, and refused in every case.
-/
def quicvarintDecode (buffer : Bytes) : Option (Nat × Bytes) :=
  match buffer with
  | [] => none
  | first :: _ =>
    let width := 2 ^ (first.toNat >>> 6)
    if buffer.length < width then none
    else some (bigEndianValue (buffer.take width) % 2 ^ (8 * width - 2), buffer.drop width)

/-- The continuation bytes of `_quic_read_varint`. -/
def quicReadVarintLoop : Bytes → (m i : Nat) → Option (Nat × Bytes)
  | [], _, _ => none
  | b :: rest, m, i =>
    let i := i + (b.toNat &&& 127) <<< m
    if b.toNat &&& 128 = 0 then some (i, rest)
    else if 63 ≤ m + 7 then none
    else quicReadVarintLoop rest (m + 7) i

/-- `_quic_read_varint` for a prefix of `n < 8` bits. -/
def quicReadVarint (buffer : Bytes) (n : Nat) : Option (Nat × Bytes) :=
  match buffer with
  | [] => none
  | first :: rest =>
    let i := first.toNat &&& (1 <<< n - 1)
    if i < 1 <<< n - 1 then some (i, rest)
    else quicReadVarintLoop rest 0 i

/-- `_quic_read_string`: the string and the rest of the buffer. -/
def quicReadString (buffer : Bytes) (maxStrLen : Int) (n : Nat) (huffman : Bool) :
    Except Int (Bytes × Bytes) :=
  if maxStrLen < 0 then .error (-3)
  else
    match quicReadVarint buffer n with
    | none => .error (-1)
    | some (len, rest) =>
      if rest.length < len then .error (-1)
      else if maxStrLen < len then .error (-3)
      else if huffman then
        match qpackHuffmanDecode (rest.take len) maxStrLen.toNat with
        | none => .error (-1)
        | some str => .ok (str, rest.drop len)
      else .ok (rest.take len, rest.drop len)

end SmartDns.Http3
