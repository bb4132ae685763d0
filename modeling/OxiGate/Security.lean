import OxiGate.Http
import OxiGate.Net

/-! Access lists of address blocks, and the baseline response headers. -/
namespace OxiGate
namespace Security

open RustText Net Http

/-- A block of addresses: those that agree with `addr` in the leading bits. -/
structure IpNet where
  addr : IpAddr
  prefixLen : ℕ
  deriving DecidableEq

structure Acl where
  allow : List IpNet
  deny : List IpNet
  deriving DecidableEq

/-- An address as an unsigned integer, the first octet highest. -/
def toBits (w : ℕ) {n : ℕ} (octets : Octets n) : BitVec w :=
  BitVec.ofNat w (octets.toList.foldl (fun acc b => acc*256+b.toNat) 0)

def netMask (w prefixLen : ℕ) : BitVec w :=
  if w ≤ prefixLen then BitVec.allOnes w
  else if prefixLen = 0 then 0
  else ~~~((1#w <<< (w-prefixLen))-1#w)

def IpNet.contains (net : IpNet) (ip : IpAddr) : Bool :=
  match net.addr,ip with
  | .v4 a, .v4 b =>
    let mask := netMask 32 net.prefixLen
    toBits 32 a &&& mask == toBits 32 b &&& mask
  | .v6 a, .v6 b =>
    let mask := netMask 128 net.prefixLen
    toBits 128 a &&& mask == toBits 128 b &&& mask
  | _, _ => false

inductive CidrError
  | addrParse
  | parseInt (e : ParseIntError)
  deriving DecidableEq

def CidrError.message : CidrError → String
  | .addrParse => "invalid IP address syntax"
  | .parseInt e => e.message

def parseCidrAddr (text : Text) : Except CidrError IpAddr :=
  match parseIpAddr text with
  | some addr => .ok addr
  | none => .error .addrParse

def parseCidr (s : String) : Except CidrError IpNet :=
  match splitOnce '/' s.toList with
  | some (ip,pfx) => do
    let addr ← parseCidrAddr ip
    let prefixLen ← (parseUint 255 pfx).mapError .parseInt
    pure ⟨addr,prefixLen⟩
  | none => do
    let addr ← parseCidrAddr s.toList
    pure ⟨addr,match addr with | .v4 _ => 32 | .v6 _ => 128⟩

namespace Acl

def fromConfig (allow deny : List String) : Except CidrError Acl := do
  let allow ← allow.mapM parseCidr
  let deny ← deny.mapM parseCidr
  pure ⟨allow,deny⟩

def isAllowed (acl : Acl) (ip : IpAddr) : Bool :=
  if acl.deny.any (·.contains ip) then false
  else if acl.allow.isEmpty then true
  else acl.allow.any (·.contains ip)

end Acl

/-- Baseline security headers. -/
def securityHeaders : List (String × String) :=
  [("X-Content-Type-Options","nosniff"),
    ("X-Frame-Options","SAMEORIGIN"),
    ("Referrer-Policy","strict-origin-when-cross-origin"),
    ("X-XSS-Protection","0"),
    ("Permissions-Policy","geolocation=(), microphone=(), camera=()")]

variable [HttpCrate]

/-- Set a header unless the name or the value is invalid. -/
def setHeader (headers : HeaderMap) (name value : String) : HeaderMap :=
  match HttpCrate.headerName name,HttpCrate.headerValue value.toList with
  | .ok n, .ok v => HttpCrate.insert headers n v
  | _, _ => headers

def containsName (headers : HeaderMap) (name : String) : Bool :=
  match HttpCrate.headerName name with
  | .ok n => headers.containsKey n
  | .error _ => false

def applySecurityHeaders (headers : HeaderMap) : HeaderMap :=
  securityHeaders.foldl (fun hs kv => if containsName hs kv.1 then hs else setHeader hs kv.1 kv.2)
    headers

theorem values_setHeader (hs : HeaderMap) {name : String} (value : String) {k : HeaderName}
    (h : HttpCrate.headerName name ≠ .ok k) : (setHeader hs name value).values k = hs.values k := by
  unfold setHeader
  split
  · rename_i n v hname _
    rw [HttpCrate.values_insert,if_neg fun heq => h (hname.trans (congrArg _ heq))]
  · rfl

theorem values_setHeader_self (hs : HeaderMap) {name value : String} {n : HeaderName} {v : HeaderValue}
    (hname : HttpCrate.headerName name = .ok n) (hvalue : HttpCrate.headerValue value.toList = .ok v) :
    (setHeader hs name value).values n = [v] := by
  unfold setHeader
  rw [hname,hvalue]
  exact (HttpCrate.values_insert hs n v n).trans (if_pos rfl)

end Security
end OxiGate
