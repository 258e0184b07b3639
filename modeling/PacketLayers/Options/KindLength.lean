import PacketLayers.Options.Walk

/-! # Writing kind-length options

The option lists of IPv4 and TCP headers are written option by option and then padded with
end-of-list octets to a multiple of four octets, the unit in which the header length counts.
-/

namespace PacketLayers.KindLength

/-- One option; the kinds zero and one are lone octets, any other carries its length. -/
def encodeOption (kind : UInt8) (data : Octets) : Option Octets :=
  if kind ≤ 1 then
    some [kind]
  else if data.length + 2 ≤ 255 then
    some (kind :: UInt8.ofNat (data.length + 2) :: data)
  else
    none

/-- The octets that bring a length to a multiple of four. -/
def padding (length : Nat) : Octets := List.replicate ((4 - length % 4) % 4) 0

/-- The padded list of the given options, unless the data of one is too long. -/
def encode (options : List (UInt8 × Octets)) : Option Octets :=
  (options.mapM fun option => encodeOption option.1 option.2).map fun parts =>
    parts.flatten ++ padding parts.flatten.length

end PacketLayers.KindLength
