import OxiGate.ByteReader
import OxiGate.Net

/-! PROXY protocol v1 and v2 with a buffered peek. The header is read in short
reads; what was read too far is handed back in front of the stream. -/
namespace OxiGate
namespace ProxyProtocol

open ByteReader Net RustText

def v2Sig : List UInt8 :=
  [0x0D,0x0A,0x0D,0x0A,0x00,0x0D,0x0A,0x51,0x55,0x49,0x54,0x0A]

/-- The bytes of `PROXY` and the space after it. -/
def v1Sig : List UInt8 := [0x50,0x52,0x4F,0x58,0x59,0x20]

structure ProxyHeader where
  src : SocketAddr
  dst : SocketAddr
  deriving DecidableEq

inductive ProxyError
  | io (e : IoError)
  | invalidUtf8
  | v1TooLong
  | v1Eof
  | malformedV1 (line : Text)
  | addrParse
  | parseInt (e : ParseIntError)
  | v2Eof
  | unsupportedFamily (family : UInt8)
  deriving DecidableEq

def ProxyError.message : ProxyError → String
  | .io e => e.message
  | .invalidUtf8 => "invalid utf8 in PROXY v1"
  | .v1TooLong => "PROXY v1 header too long"
  | .v1Eof => "EOF in PROXY v1 header"
  | .malformedV1 line => "malformed PROXY v1: "++String.ofList line
  | .addrParse => "invalid IP address syntax"
  | .parseInt e => e.message
  | .v2Eof => "EOF in PROXY v2 header"
  | .unsupportedFamily family =>
    "unsupported PROXY v2 family 0x"++String.ofList (Nat.toDigits 16 family.toNat)

/-- An error together with the reader as it was dropped. -/
structure Failure (S : Type) where
  error : ProxyError
  stream : S

/-- Stream wrapper that delivers leftover bytes before the stream itself. -/
structure PrefixedStream (S : Type) where
  inner : S
  prefixBytes : List UInt8
  prefixPos : ℕ

variable {S : Type}

def PrefixedStream.new (inner : S) (prefixBytes : List UInt8) : PrefixedStream S :=
  ⟨inner,prefixBytes,0⟩

def PrefixedStream.pollRead [AsyncRead UInt8 S] (self : PrefixedStream S) (remaining : ℕ) :
    Except IoError (List UInt8) × PrefixedStream S :=
  if self.prefixPos < self.prefixBytes.length then
    let rest := self.prefixBytes.drop self.prefixPos
    let n := min rest.length remaining
    (.ok (rest.take n),{ self with prefixPos := self.prefixPos+n })
  else
    let r := AsyncRead.read self.inner remaining
    (r.1,{ self with inner := r.2 })

instance [AsyncRead UInt8 S] : AsyncRead UInt8 (PrefixedStream S) where
  read := PrefixedStream.pollRead

inductive Fill
  | full (first : List UInt8)
  | eof (first : List UInt8)

/-- A `while filled < target` loop over a buffer of `capacity` bytes, `first`
being the part already filled. -/
def fill [AsyncRead UInt8 S] (capacity target : ℕ) (first : List UInt8) (stream : S) :
    Except (Failure S) (Fill × S) :=
  if first.length < target then
    match AsyncRead.read stream (capacity-first.length) with
    | (.error e,stream) => .error ⟨.io e,stream⟩
    | (.ok [],stream) => .ok (.eof first,stream)
    | (.ok (b::bs),stream) => fill capacity target (first++b::bs) stream
  else .ok (.full first,stream)
termination_by target-first.length
decreasing_by simp; omega

def unexpectedEof : IoError := ⟨"early eof"⟩

/-- `AsyncReadExt::read_exact` into a buffer of `len` bytes. -/
def readExact [AsyncRead UInt8 S] (len : ℕ) (stream : S) :
    Except (Failure S) (List UInt8 × S) := do
  match ← fill len len [] stream with
  | (.full rest,stream) => .ok (rest,stream)
  | (.eof _,stream) => .error ⟨.io unexpectedEof,stream⟩

/-- `buf.windows(2).position(|w| w == b"\r\n")`. -/
def crlfPosition : List UInt8 → Option ℕ
  | a::b::bs => if a = 0x0D ∧ b = 0x0A then some 0 else (crlfPosition (b::bs)).map (·+1)
  | _ => none

def parseAddr (text : Text) : Except ProxyError IpAddr :=
  match parseIpAddr text with
  | some ip => .ok ip
  | none => .error .addrParse

def parsePort (text : Text) : Except ProxyError UInt16 :=
  match parseUint 65535 text with
  | .ok n => .ok (UInt16.ofNat n)
  | .error e => .error (.parseInt e)

def parseSocket (ip port : Text) : Except ProxyError SocketAddr := do
  let ip ← parseAddr ip
  let port ← parsePort port
  pure ⟨ip,port⟩

def parseV1Line (line : Text) : Except ProxyError ProxyHeader :=
  match splitWhitespace line with
  | proxy::proto::parts =>
    if proxy ≠ "PROXY".toList then .error (.malformedV1 line)
    else if proto = "UNKNOWN".toList then .ok ⟨.unspecified,.unspecified⟩
    else
      match parts with
      | src::dst::sport::dport::_ => do
        let src ← parseSocket src sport
        let dst ← parseSocket dst dport
        pure ⟨src,dst⟩
      | _ => .error (.malformedV1 line)
  | _ => .error (.malformedV1 line)

def decodeV1 (bytes : List UInt8) : Except ProxyError ProxyHeader :=
  match fromUtf8 bytes with
  | none => .error .invalidUtf8
  | some line => parseV1Line line

def parseV1 [AsyncRead UInt8 S] (buf : List UInt8) (stream : S) :
    Except (Failure S) ((ProxyHeader × List UInt8) × S) :=
  match crlfPosition buf with
  | some pos =>
    match decodeV1 (buf.take pos) with
    | .ok header => .ok ((header,buf.drop (pos+2)),stream)
    | .error e => .error ⟨e,stream⟩
  | none =>
    if 108 < buf.length then .error ⟨.v1TooLong,stream⟩
    else
      match AsyncRead.read stream 1 with
      | (.error e,stream) => .error ⟨.io e,stream⟩
      | (.ok [],stream) => .error ⟨.v1Eof,stream⟩
      | (.ok (b::_),stream) => parseV1 (buf++[b]) stream
termination_by 109-buf.length
decreasing_by simp; omega

def octetsAt (len : ℕ) (rest : List UInt8) (offset : ℕ) : Octets len :=
  List.Vector.ofFn fun i => rest.getD (offset+i.val) 0

def portAt (rest : List UInt8) (offset : ℕ) : UInt16 :=
  fromBeBytes (rest.getD offset 0) (rest.getD (offset+1) 0)

def v2Len (hdr : List UInt8) : ℕ := (portAt hdr 14).toNat

/-- The part of `parse_v2` after its reads. -/
def decodeV2 (hdr rest : List UInt8) : Except ProxyError ProxyHeader :=
  let verCmd := hdr.getD 12 0
  let family := hdr.getD 13 0
  if verCmd &&& 0x0F = 0x00 then .ok ⟨.unspecified,.unspecified⟩
  else if family = 0x11 ∧ 12 ≤ rest.length then
    .ok ⟨⟨.v4 (octetsAt 4 rest 0),portAt rest 8⟩,⟨.v4 (octetsAt 4 rest 4),portAt rest 10⟩⟩
  else if family = 0x21 ∧ 36 ≤ rest.length then
    .ok ⟨⟨.v6 (octetsAt 16 rest 0),portAt rest 32⟩,⟨.v6 (octetsAt 16 rest 16),portAt rest 34⟩⟩
  else .error (.unsupportedFamily family)

def readV2Rest [AsyncRead UInt8 S] (len : ℕ) (stream : S) :
    Except (Failure S) (List UInt8 × S) :=
  if 0 < len then readExact len stream else .ok ([],stream)

def parseV2 [AsyncRead UInt8 S] (stream : S) (hdr : List UInt8) :
    Except (Failure S) (ProxyHeader × S) := do
  let (rest,stream) ← readV2Rest (v2Len hdr) stream
  match decodeV2 hdr rest with
  | .ok header => .ok (header,stream)
  | .error e => .error ⟨e,stream⟩

/-- Read a PROXY header if there is one. On other traffic the bytes read so far
come back as the prefix of the returned stream. -/
def maybeReadProxyHeader [AsyncRead UInt8 S] (stream : S) :
    Except (Failure S) (Option ProxyHeader × PrefixedStream S) := do
  match ← fill 16 6 [] stream with
  | (.eof first,stream) => .ok (none,.new stream first)
  | (.full first,stream) =>
    if first.take 6 = v1Sig then
      let ((header,leftover),stream) ← parseV1 first stream
      .ok (some header,.new stream leftover)
    else
      match ← fill 16 12 first stream with
      | (.eof first,stream) => .ok (none,.new stream first)
      | (.full first,stream) =>
        if first.take 12 = v2Sig then
          match ← fill 16 16 first stream with
          | (.eof _,stream) => .error ⟨.v2Eof,stream⟩
          | (.full first,stream) =>
            let (header,stream) ← parseV2 stream (first.take 16)
            .ok (some header,.new stream [])
        else .ok (none,.new stream first)

end ProxyProtocol
end OxiGate
