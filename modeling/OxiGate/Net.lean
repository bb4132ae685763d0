import OxiGate.RustText
import Mathlib.Data.Vector.Basic

/-! Socket addresses, with the textual forms `std::net` reads and prints. -/
namespace OxiGate
namespace Net

open RustText

abbrev Octets (n : ℕ) := List.Vector UInt8 n

inductive IpAddr
  | v4 (octets : Octets 4)
  | v6 (octets : Octets 16)
  deriving DecidableEq

structure SocketAddr where
  ip : IpAddr
  port : UInt16
  deriving DecidableEq

def ipv4 (a b c d : UInt8) : Octets 4 := ⟨[a,b,c,d],rfl⟩

def SocketAddr.unspecified : SocketAddr := ⟨.v4 (ipv4 0 0 0 0),0⟩

/-- `u16::from_be_bytes`. -/
def fromBeBytes (hi lo : UInt8) : UInt16 := UInt16.ofNat (hi.toNat*256+lo.toNat)

/-- The octets of eight 16-bit groups; missing groups are zero. -/
def ipv6OfSegments (segments : List UInt16) : Octets 16 :=
  List.Vector.ofFn fun i =>
    let segment := (segments.getD (i.val/2) 0).toNat
    UInt8.ofNat (if i.val % 2 = 0 then segment/256 else segment)

def ipv6Segments (octets : Octets 16) : List UInt16 :=
  (List.finRange 8).map fun i =>
    fromBeBytes (octets.get ⟨2*i.val,by omega⟩) (octets.get ⟨2*i.val+1,by omega⟩)

/-! The recursive-descent reader of `core::net::parser`. A reader that fails
leaves the input where it was, so a result carries the unread text. -/

def readGivenChar (c : Char) : Text → Option Text
  | d::cs => if d = c then some cs else none
  | [] => none

/-- Read a number below `bound`: at most `maxDigits` digits, and no leading zero
unless it is allowed. -/
def readNumber (radix maxDigits : ℕ) (allowZeroPrefix : Bool) (bound : ℕ) (cs : Text) :
    Option (ℕ × Text) :=
  let digits := cs.takeWhile fun c => (toDigit radix c).isSome
  let value := digits.foldl (fun acc c => acc*radix+(toDigit radix c).getD 0) 0
  if digits.length = 0 ∨ maxDigits < digits.length then none
  else if !allowZeroPrefix && cs.head? = some '0' && decide (1 < digits.length) then none
  else if value < bound then some (value,cs.drop digits.length) else none

/-- A separator precedes every item but the first. -/
def readSeparator {α : Type} (sep : Char) (index : ℕ) (inner : Text → Option (α × Text))
    (cs : Text) : Option (α × Text) :=
  if 0 < index then (readGivenChar sep cs).bind inner else inner cs

def readOctet (index : ℕ) (cs : Text) : Option (UInt8 × Text) :=
  (readSeparator '.' index (readNumber 10 3 false 256) cs).map fun r => (UInt8.ofNat r.1,r.2)

def readIpv4Addr (cs : Text) : Option (Octets 4 × Text) := do
  let (a,cs) ← readOctet 0 cs
  let (b,cs) ← readOctet 1 cs
  let (c,cs) ← readOctet 2 cs
  let (d,cs) ← readOctet 3 cs
  pure (ipv4 a b c d,cs)

/-- Read up to `left` groups, the next one having the given index. The flag tells
whether the last two groups came from an embedded IPv4 address. -/
def readGroups : ℕ → ℕ → Text → List UInt16 × Bool × Text
  | 0, _, cs => ([],false,cs)
  | left+1, index, cs =>
    match (if 0 < left then readSeparator ':' index readIpv4Addr cs else none) with
    | some (v4,cs') =>
      ([fromBeBytes (v4.get 0) (v4.get 1),fromBeBytes (v4.get 2) (v4.get 3)],true,cs')
    | none =>
      match readSeparator ':' index (readNumber 16 4 true 65536) cs with
      | some (group,cs') =>
        let r := readGroups left (index+1) cs'
        (UInt16.ofNat group::r.1,r.2)
      | none => ([],false,cs)

def readIpv6Addr (cs : Text) : Option (Octets 16 × Text) :=
  match readGroups 8 0 cs with
  | (head,headIpv4,cs) =>
    if head.length = 8 then some (ipv6OfSegments head,cs)
    else if headIpv4 then none
    else do
      let cs ← readGivenChar ':' cs
      let cs ← readGivenChar ':' cs
      let (tail,_,cs) := readGroups (8-(head.length+1)) 0 cs
      pure (ipv6OfSegments (head++List.replicate (8-head.length-tail.length) 0++tail),cs)

def readIpAddr (cs : Text) : Option (IpAddr × Text) :=
  match readIpv4Addr cs with
  | some (a,rest) => some (.v4 a,rest)
  | none => (readIpv6Addr cs).map fun r => (.v6 r.1,r.2)

/-- `str::parse::<IpAddr>`: an address and nothing after it. -/
def parseIpAddr (cs : Text) : Option IpAddr :=
  match readIpAddr cs with
  | some (a,[]) => some a
  | _ => none

def decimal (n : ℕ) : Text := Nat.toDigits 10 n

def displayIpv4 (octets : Octets 4) : Text :=
  List.intercalate ['.'] (octets.toList.map fun b => decimal b.toNat)

def displaySegments (segments : List UInt16) : Text :=
  List.intercalate [':'] (segments.map fun s => Nat.toDigits 16 s.toNat)

structure Span where
  start : ℕ
  len : ℕ

/-- The first of the longest runs of zero groups, scanned from group `i` on. -/
def longestZeroes : List UInt16 → (i : ℕ) → (current longest : Span) → Span
  | [], _, _, longest => longest
  | segment::segments, i, current, longest =>
    if segment = 0 then
      let current : Span := ⟨if current.len = 0 then i else current.start,current.len+1⟩
      longestZeroes segments (i+1) current (if longest.len < current.len then current else longest)
    else longestZeroes segments (i+1) ⟨0,0⟩ longest

def displayIpv6 (octets : Octets 16) : Text :=
  let segments := ipv6Segments octets
  if segments.take 6 = [0,0,0,0,0,0xffff] then
    "::ffff:".toList++
      displayIpv4 (ipv4 (octets.get 12) (octets.get 13) (octets.get 14) (octets.get 15))
  else
    let zeroes := longestZeroes segments 0 ⟨0,0⟩ ⟨0,0⟩
    if 1 < zeroes.len then
      displaySegments (segments.take zeroes.start)++"::".toList++
        displaySegments (segments.drop (zeroes.start+zeroes.len))
    else displaySegments segments

def IpAddr.display : IpAddr → Text
  | .v4 octets => displayIpv4 octets
  | .v6 octets => displayIpv6 octets

end Net
end OxiGate
