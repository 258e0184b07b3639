import PacketLayers.Layer

/-! # Tag-length-value option lists

Option lists differ only in the layout of an option's header and in the unit of its length, which an
`OptionFormat` describes.  One walk serves them all:

* the header must be present, otherwise the option is truncated;
* the declared length is converted to octets first and only then compared with what is left;
* a length shorter than the header is malformed, as the walk could not advance;
* a length beyond the octets left is truncated.

After an error, and after an end-of-list octet, the walk yields nothing more.  Every option that it
yields takes at least one octet (`OptionWalk.next_shortens`), so the walk ends.
-/

namespace PacketLayers

/-- The layout of the options in a list. -/
inductive OptionFormat where
  /--
  One kind octet and one octet counting the whole option, as in IPv4 and TCP.  The kinds zero (end of
  list) and one (no operation) are lone octets.
  -/
  | kindLength
  /-- One type octet and one octet counting units of eight octets, as in neighbor discovery. -/
  | neighborDiscovery
  /-- A little-endian 16-bit type and 16-bit data length, as in the items of EtherNet/IP. -/
  | commonPacketFormat
  deriving DecidableEq, Repr, Inhabited

namespace OptionFormat

/-- The octets of tag and length in front of the data. -/
def headerLength : OptionFormat → Nat
  | .kindLength | .neighborDiscovery => 2
  | .commonPacketFormat => 4

/-- The tag in a header. -/
def tag (format : OptionFormat) (header : Octets) : UInt16 :=
  match format with
  | .kindLength | .neighborDiscovery => (octetAt header 0).toUInt16
  | .commonPacketFormat => le16At header 0

/-- The octets of the whole option, as its header declares them. -/
def totalLength (format : OptionFormat) (header : Octets) : Nat :=
  match format with
  | .kindLength => (octetAt header 1).toNat
  | .neighborDiscovery => (octetAt header 1).toNat * 8
  | .commonPacketFormat => (le16At header 2).toNat + 4

/-- Whether an option that starts with this octet is a lone octet. -/
def isSingle (format : OptionFormat) (first : UInt8) : Bool :=
  match format with
  | .kindLength => first ≤ 1
  | .neighborDiscovery | .commonPacketFormat => false

def isEnd (format : OptionFormat) (first : UInt8) : Bool :=
  match format with
  | .kindLength => first == 0
  | .neighborDiscovery | .commonPacketFormat => false

end OptionFormat

/-- An option as it stands in a list. -/
structure RawOption where
  tag : UInt16
  /-- The octets that the option takes, header included. -/
  length : Nat
  /-- The octets behind the header. -/
  data : Octets
  deriving DecidableEq, Repr, Inhabited

/-- The position of a walk over an option list. -/
structure OptionWalk where
  format : OptionFormat
  /-- The layer that errors are reported against. -/
  layer : LayerType
  /-- The octets not walked yet; behind an end-of-list octet these are padding. -/
  rest : Octets
  /-- The position of `rest` in the list. -/
  offset : Nat
  /-- Whether the walk has met an error or an end-of-list octet. -/
  done : Bool
  deriving DecidableEq, Repr

namespace OptionWalk

/-- The walk at the start of a list. -/
def start (format : OptionFormat) (layer : LayerType) (data : Octets) : OptionWalk :=
  ⟨format, layer, data, 0, false⟩

/-- The walk behind an option of the given length. -/
def advance (w : OptionWalk) (length : Nat) : OptionWalk :=
  { w with rest := w.rest.drop length, offset := w.offset + length }

/-- The option at the start of the octets left, which does not start with a lone octet. -/
def readOption (w : OptionWalk) : Except DecodeError RawOption :=
  let header := w.rest.take w.format.headerLength
  let length := w.format.totalLength header
  if header.length < w.format.headerLength then
    .error (.truncated w.layer w.format.headerLength w.rest.length)
  else if length < w.format.headerLength then
    .error (.malformed w.layer "option length shorter than its header")
  else
    let data := slice w.rest w.format.headerLength length
    if data.length < length - w.format.headerLength then
      .error (.truncated w.layer length w.rest.length)
    else
      .ok ⟨w.format.tag header, length, data⟩

/-- The next option or the error that ends the walk, and the walk behind it. -/
def next (w : OptionWalk) : Option (Except DecodeError RawOption × OptionWalk) :=
  match w.rest with
  | [] => none
  | first :: _ =>
    if w.done then
      none
    else if w.format.isSingle first then
      some (.ok ⟨first.toUInt16, 1, []⟩, { w.advance 1 with done := w.format.isEnd first })
    else
      match w.readOption with
      | .error error => some (.error error, { w with done := true })
      | .ok option => some (.ok option, w.advance option.length)

theorem length_pos_of_readOption {w : OptionWalk} {option : RawOption}
    (h : w.readOption = .ok option) : 0 < option.length := by
  have hpos : 0 < w.format.headerLength := by
    cases w.format <;> decide
  simp only [readOption] at h
  split at h
  · simp at h
  · split at h
    · simp at h
    · split at h
      · simp at h
      · simp only [Except.ok.injEq] at h
        subst h
        simp only
        omega

/-- An option takes at least one of the octets left. -/
theorem next_shortens {w w' : OptionWalk} {option : RawOption}
    (h : w.next = some (.ok option, w')) : w'.rest.length < w.rest.length := by
  unfold next at h
  split at h
  · simp at h
  · next first tail hrest =>
    split at h
    · simp at h
    · split at h
      · simp only [Option.some.injEq, Prod.mk.injEq] at h
        rw [← h.2]
        simp [advance, hrest]
      · split at h
        · simp at h
        · next read hread =>
          simp only [Option.some.injEq, Prod.mk.injEq, Except.ok.injEq] at h
          have hpos := length_pos_of_readOption hread
          rw [← h.2]
          simp only [advance, List.length_drop, hrest, List.length_cons]
          omega

variable {S : Type}

/-- Hand every option in turn to `visit`, which updates a state and may end the walk with an error
of its own.  Only errors of the walk itself signal truncation. -/
def visitAll (visit : S → RawOption → S × Option DecodeError) (state : S) (w : OptionWalk) :
    Decoding S :=
  match _found : w.next with
  | none => .accept state
  | some (.error error, _) => .reject state error
  | some (.ok option, w') =>
    match visit state option with
    | (state', some error) => ⟨state', some error, false⟩
    | (state', none) => visitAll visit state' w'
  termination_by w.rest.length
  decreasing_by exact next_shortens _found

/-- The options of a list up to the first error, in order. -/
def collect (format : OptionFormat) (layer : LayerType) (data : Octets) :
    Decoding (List RawOption) :=
  (visitAll (fun found option => (option :: found, none)) [] (start format layer data)).map
    List.reverse

end OptionWalk

end PacketLayers
