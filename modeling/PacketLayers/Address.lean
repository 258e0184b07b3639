import PacketLayers.Octets

/-! # Link and network addresses

MAC, IPv4 and IPv6 addresses are blocks of six, four and sixteen octets.  Each has one text form:
hexadecimal octets joined by colons, a dotted quad, and hexadecimal groups in which the longest run
of zero groups is shortened.
-/

namespace PacketLayers

/-- A link address of six octets. -/
structure MacAddress where
  octets : Vector UInt8 6
  deriving DecidableEq, Repr, Inhabited

/-- A network address of four octets. -/
structure Ipv4Address where
  octets : Vector UInt8 4
  deriving DecidableEq, Repr, Inhabited

/-- A network address of sixteen octets. -/
structure Ipv6Address where
  octets : Vector UInt8 16
  deriving DecidableEq, Repr, Inhabited

/-- Octets as two-digit hexadecimal numbers joined by colons. -/
def colonHexText (data : Octets) : String := ":".intercalate (data.map hexOctet)

/-- Octets as decimal numbers joined by dots. -/
def dottedText (data : Octets) : String :=
  ".".intercalate (data.map fun b => toString b.toNat)

/-- A 16-bit number in hexadecimal digits without leading zeros. -/
def hexWord (w : UInt16) : String := String.ofList (Nat.toDigits 16 w.toNat)

namespace MacAddress

def zero : MacAddress := ⟨Vector.replicate 6 0⟩

def readAt (data : Octets) (i : Nat) : MacAddress := ⟨blockAt 6 data i⟩

def toOctets (a : MacAddress) : Octets := a.octets.toList

def text (a : MacAddress) : String := colonHexText a.toOctets

end MacAddress

namespace Ipv4Address

def zero : Ipv4Address := ⟨Vector.replicate 4 0⟩

def readAt (data : Octets) (i : Nat) : Ipv4Address := ⟨blockAt 4 data i⟩

def toOctets (a : Ipv4Address) : Octets := a.octets.toList

def text (a : Ipv4Address) : String := dottedText a.toOctets

end Ipv4Address

namespace Ipv6Address

def zero : Ipv6Address := ⟨Vector.replicate 16 0⟩

def readAt (data : Octets) (i : Nat) : Ipv6Address := ⟨blockAt 16 data i⟩

def toOctets (a : Ipv6Address) : Octets := a.octets.toList

def groups (a : Ipv6Address) : List UInt16 :=
  (List.range 8).map fun k => be16At a.toOctets (2 * k)

/-- The start and length of the longest run of zero groups, the first one on a tie. -/
def longestZeroRun (groups : List UInt16) : Nat × Nat :=
  (List.range groups.length).foldl
    (fun best start =>
      let length := ((groups.drop start).takeWhile (· == 0)).length
      if best.2 < length then (start, length) else best)
    (0, 0)

def groupsText (groups : List UInt16) : String := ":".intercalate (groups.map hexWord)

/-- The shortened text: the longest run of at least two zero groups becomes a double colon, and an
IPv4-mapped address ends in a dotted quad. -/
def text (a : Ipv6Address) : String :=
  if a.groups.take 6 = [0, 0, 0, 0, 0, 0xffff] then
    "::ffff:" ++ dottedText (a.toOctets.drop 12)
  else
    let run := longestZeroRun a.groups
    if run.2 < 2 then
      groupsText a.groups
    else
      groupsText (a.groups.take run.1) ++ "::" ++ groupsText (a.groups.drop (run.1 + run.2))

end Ipv6Address

end PacketLayers
