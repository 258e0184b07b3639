import PacketLayers.Builtin
import PacketLayers.Proofs.Bounds.OptionList

/-!
# Layers that are decoded again

A decoder writes into a layer that may hold anything: what earlier inputs left there, read
to their end or not, and what was assigned since.  This module shows that none of it is
seen again.  Two layers that were made in the same way answer an input alike, and hold the
same once it is read; where it cannot be read, header and payload stay where the last
input that could be read had them.

`BuiltinLayer.alike_decode` compares two layers on one input, `Reused.same` says what a
history keeps.  The main statement is `BuiltinLayer.decode_reused`.
-/

namespace PacketLayers

namespace Decoding

variable {L M : Type}

/-- How two layers take one input, seen through the fields that matter: the calls answer
alike, and leave the same fields of an input that was read.  Of an input that was not, the
first keeps the extent. -/
structure Alike (visible : L → L) (extentOf : L → Extent) (kept : Extent)
    (d d' : Decoding L) : Prop where
  error_eq : d.error = d'.error
  truncated_eq : d.truncated = d'.truncated
  visible_eq : d.error = none → visible d.layer = visible d'.layer
  extent_eq : d.error ≠ none → extentOf d.layer = kept

variable {visible : L → L} {extentOf : L → Extent} {kept : Extent} {layer layer' : L}

theorem Alike.reject {error : DecodeError} (h : extentOf layer = kept) :
    Alike visible extentOf kept (.reject layer error) (.reject layer' error) :=
  ⟨rfl, rfl, fun hnone => (Option.some_ne_none _ hnone).elim, fun _ => h⟩

theorem Alike.accept (h : visible layer = visible layer') :
    Alike visible extentOf kept (.accept layer) (.accept layer') :=
  ⟨rfl, rfl, fun _ => h, fun hsome => (hsome rfl).elim⟩

/-- A call that succeeds, whatever it signals. -/
theorem Alike.read {truncated : Bool} (h : visible layer = visible layer') :
    Alike visible extentOf kept ⟨layer, none, truncated⟩ ⟨layer', none, truncated⟩ :=
  ⟨rfl, rfl, fun _ => h, fun hsome => (hsome rfl).elim⟩

/-- A call that ends with a walk, and finds all there is before it. -/
theorem Alike.walk {error : Option DecodeError} {truncated : Bool} {found found' : L}
    (hfound : extentOf found = kept) (h : visible layer = visible layer') :
    Alike visible extentOf kept
      ⟨match error with
        | some _ => found
        | none => layer, error, truncated⟩
      ⟨match error with
        | some _ => found'
        | none => layer', error, truncated⟩ := by
  cases error with
  | none => exact .read h
  | some error =>
      exact ⟨rfl, rfl, fun hnone => (Option.some_ne_none _ hnone).elim, fun _ => hfound⟩

theorem Alike.map {d d' : Decoding L} (h : Alike visible extentOf kept d d') (f : L → M)
    {visible' : M → M} {extentOf' : M → Extent} (hvisible : ∀ l, visible' (f l) = f (visible l))
    (hextent : ∀ l, extentOf' (f l) = extentOf l) :
    Alike visible' extentOf' kept (d.map f) (d'.map f) where
  error_eq := h.error_eq
  truncated_eq := h.truncated_eq
  visible_eq := by
    intro hnone
    rw [Decoding.map, Decoding.map, hvisible, hvisible, h.visible_eq hnone]
  extent_eq := by
    intro hsome
    rw [Decoding.map, hextent, h.extent_eq hsome]

end Decoding

open Decoding (Alike)

variable {data : Octets}

/-! ## Headers -/

namespace Payload

theorem alike_decode (old made : Payload) (data : Octets) :
    Alike (fun l => l) extent old.extent (old.decode data) (made.decode data) :=
  .accept rfl

end Payload

namespace Ethernet

theorem alike_decode (old made : Ethernet) (data : Octets) :
    Alike (fun l => l) extent old.extent (old.decode data) (made.decode data) := by
  unfold decode
  split
  · exact .reject rfl
  · exact .read rfl

end Ethernet

namespace Loopback

theorem alike_decode (old made : Loopback) (data : Octets) :
    Alike (fun l => l) extent old.extent (old.decode data) (made.decode data) := by
  unfold decode
  split
  · exact .reject rfl
  · exact .accept rfl

end Loopback

namespace Ipv4

theorem alike_decode (old made : Ipv4) (data : Octets) :
    Alike (fun l => l) extent old.extent (old.decode data) (made.decode data) := by
  have hchecks : (readFixed old data).headerError data.length =
      (readFixed made data).headerError data.length := rfl
  unfold decode
  split
  · exact .reject rfl
  · simp only [hchecks]
    split
    · exact .reject rfl
    · exact .walk rfl rfl

end Ipv4

namespace Ipv6

theorem alike_decode (old made : Ipv6) (data : Octets) :
    Alike (fun l => l) extent old.extent (old.decode data) (made.decode data) := by
  have hread : readFixed old data = { readFixed made data with extent := old.extent } := rfl
  unfold decode
  rw [hread]
  split
  · exact .reject rfl
  · simp only
    split
    · exact .reject rfl
    · exact .read rfl

end Ipv6

namespace Icmpv6

/-- A header without the addresses that its checksum is computed for. -/
def withoutNetwork (m : Icmpv6) : Icmpv6 := { m with network := none }

theorem alike_decode (old made : Icmpv6) (data : Octets) :
    Alike withoutNetwork extent old.extent (old.decode data) (made.decode data) := by
  unfold decode
  split
  · exact .reject rfl
  · exact .accept rfl

end Icmpv6

namespace NeighborMessage

variable {B : Type} [NeighborBody B]

theorem alike_decode (old made : NeighborMessage B) (data : Octets) :
    Alike (fun l => l) extent old.extent (old.decode data) (made.decode data) := by
  unfold decode
  simp only
  split
  · exact .reject rfl
  · refine ⟨rfl, rfl, ?_, ?_⟩
    · intro hnone
      simp only at hnone
      simp only [hnone]
    · intro hsome
      obtain ⟨error, herror⟩ := Option.ne_none_iff_exists'.mp hsome
      simp only at herror
      simp only [herror]

end NeighborMessage

namespace Tcp

/-- A header without the addresses that its checksum is computed for. -/
def withoutNetwork (t : Tcp) : Tcp := { t with network := none }

theorem streamPayloads_decode (old : Tcp) (data : Octets) :
    (old.decode data).layer.streamPayloads = old.streamPayloads := by
  unfold decode
  split
  · rfl
  · simp only
    split
    · rfl
    · split
      · rfl
      · simp only
        split <;> rfl

/-- Segments are read alike where their payloads are handed on alike. -/
theorem alike_decode {old made : Tcp} (h : old.streamPayloads = made.streamPayloads)
    (data : Octets) :
    Alike withoutNetwork extent old.extent (old.decode data) (made.decode data) := by
  have hoffset : (readFixed old data).dataOffset = (readFixed made data).dataOffset := rfl
  have hheader : (readFixed old data).headerLength = (readFixed made data).headerLength := rfl
  have hstream : (readFixed old data).streamPayloads = (readFixed made data).streamPayloads := h
  unfold decode
  split
  · exact .reject rfl
  · simp only [hoffset, hheader]
    split
    · exact .reject rfl
    · split
      · exact .reject rfl
      · refine .walk rfl ?_
        simp only [withoutNetwork, hstream]
        rfl

end Tcp

namespace Udp

/-- A header without the addresses that its checksum is computed for. -/
def withoutNetwork (u : Udp) : Udp := { u with network := none }

theorem alike_decode (old made : Udp) (data : Octets) :
    Alike withoutNetwork extent old.extent (old.decode data) (made.decode data) := by
  have hlength : (readFixed old data).length = (readFixed made data).length := rfl
  unfold decode
  split
  · exact .reject rfl
  · simp only [hlength]
    split
    · exact .reject rfl
    · exact .read rfl

end Udp

/-! ## Messages -/

namespace DnsMessage

theorem alike_decode (old made : DnsMessage) (data : Octets) :
    Alike (fun l => l) extent old.extent (old.decode data) (made.decode data) := by
  have hquestions : (readHeader old data).questionCount = (readHeader made data).questionCount :=
    rfl
  have hanswers : (readHeader old data).answerCount = (readHeader made data).answerCount := rfl
  have hauthorities : (readHeader old data).authorityCount =
      (readHeader made data).authorityCount := rfl
  have hadditionals : (readHeader old data).additionalCount =
      (readHeader made data).additionalCount := rfl
  unfold decode
  split
  · exact .reject rfl
  · simp only [hquestions, hanswers, hauthorities, hadditionals]
    split
    · exact .reject rfl
    · split
      · exact .reject rfl
      · split
        · exact .reject rfl
        · split
          · exact .reject rfl
          · exact .accept rfl

end DnsMessage

namespace Enip

/-- A message with the extent and the stored data of another. -/
def keeping (e old : Enip) : Enip :=
  { e with
    extent := old.extent
    specificCommand := old.specificCommand
    specificData := old.specificData }

@[simp] theorem length_keeping (e old : Enip) : (e.keeping old).length = e.length := rfl

@[simp] theorem command_keeping (e old : Enip) : (e.keeping old).command = e.command := rfl

theorem readFixed_keeping (old made : Enip) (data : Octets) :
    readFixed old data = (readFixed made data).keeping old := rfl

/-- An item list is read past what a layer keeps. -/
theorem readItems_keeping (e old : Enip) (specific : Octets) :
    (e.keeping old).readItems specific =
      ((e.readItems specific).1.keeping old, (e.readItems specific).2) := by
  unfold readItems
  split
  · rfl
  · simp only
    split <;> rfl

theorem alike_decode (old made : Enip) (data : Octets) :
    Alike (fun l => l) extent old.extent (old.decode data) (made.decode data) := by
  unfold decode
  split
  · exact .reject rfl
  · simp only [readFixed_keeping old made, length_keeping, command_keeping, readItems_keeping]
    split
    · exact .reject rfl
    · split
      · cases hitems : (readFixed made data).readItems
            (slice data headerLength (headerLength + (readFixed made data).length.toNat)) with
        | mk scanned outcome =>
            cases outcome with
            | error error => exact .reject rfl
            | ok payload => exact .accept rfl
      · exact .accept rfl

end Enip

namespace Cip

/-- A message with the extent and the data of another. -/
def keeping (c old : Cip) : Cip := { c with extent := old.extent, data := old.data }

@[simp] theorem response_keeping (c old : Cip) : (c.keeping old).response = c.response := rfl

theorem readFirst_keeping (old made : Cip) (first : UInt8) :
    readFirst old first = (readFirst made first).keeping old := rfl

theorem setSegment_keeping (c old : Cip) (segment : UInt8) (value : UInt16) :
    (c.keeping old).setSegment segment value =
      (c.setSegment segment value).map fun longer => longer.keeping old := by
  unfold setSegment
  split <;> rfl

/-- A path is read past what a layer keeps. -/
theorem readPath_keeping (c old : Cip) (path : Octets) :
    (c.keeping old).readPath path = ((c.readPath path).1.keeping old, (c.readPath path).2) := by
  induction c, path using readPath.induct with
  | case1 c => simp only [readPath]
  | case2 c segment tail length hshort =>
      rw [readPath, readPath]
      simp only [hshort, if_true, length]
  | case3 c segment tail length hlong hset =>
      rw [readPath, readPath]
      simp only [hlong, if_false, setSegment_keeping, hset, Option.map_none, length]
  | case4 c segment tail length next hlong hset ih =>
      rw [readPath, readPath]
      simp only [hlong, if_false, setSegment_keeping, hset, Option.map_some, ih, length]

/-- What reading leaves in a layer that kept the extent and the data of another: both are kept
where it fails, and only the extent where it does not. -/
def leave (old : Cip) : Cip × Option DecodeError → Cip × Option DecodeError
  | (read, none) => ({ read with extent := old.extent }, none)
  | (read, some error) => (read.keeping old, some error)

theorem readResponse_keeping (c old : Cip) (data : Octets) :
    (c.keeping old).readResponse data = leave old (c.readResponse data) := by
  unfold readResponse
  split
  · rfl
  · simp only
    split <;> rfl

theorem readRequest_keeping (c old : Cip) (data : Octets) :
    (c.keeping old).readRequest data = leave old (c.readRequest data) := by
  unfold readRequest
  split
  · rfl
  · simp only
    split
    · rfl
    · have hpath := readPath_keeping { c with pathSize := octetAt data 1 } old
        (slice data 2 (2 + (octetAt data 1).toNat * 2))
      simp only [keeping] at hpath ⊢
      rw [hpath]
      generalize readPath _ _ = walked
      obtain ⟨walked, _ | error⟩ := walked
      · rfl
      · rfl

theorem alike_decode (old made : Cip) (data : Octets) :
    Alike (fun l => l) extent old.extent (old.decode data) (made.decode data) := by
  cases data with
  | nil => exact .reject rfl
  | cons first tail =>
      unfold decode
      simp only [readFirst_keeping old made, response_keeping, readResponse_keeping,
        readRequest_keeping, ← apply_ite (leave old)]
      generalize (if (readFirst made first).response then _ else _) = read
      obtain ⟨read, _ | error⟩ := read
      · exact .accept rfl
      · exact .reject rfl

end Cip

/-! ## Every built-in layer -/

namespace BuiltinLayer

/-- Two layer objects that were made in the same way, as far as decoders look at it: for the
same protocol and, of TCP, with payloads handed on in both or in neither. -/
inductive SameConstruction : BuiltinLayer → BuiltinLayer → Prop where
  | payload (l l' : Payload) : SameConstruction (.payload l) (.payload l')
  | ethernet (l l' : Ethernet) : SameConstruction (.ethernet l) (.ethernet l')
  | loopback (l l' : Loopback) : SameConstruction (.loopback l) (.loopback l')
  | ipv4 (l l' : Ipv4) : SameConstruction (.ipv4 l) (.ipv4 l')
  | ipv6 (l l' : Ipv6) : SameConstruction (.ipv6 l) (.ipv6 l')
  | icmpv6 (l l' : Icmpv6) : SameConstruction (.icmpv6 l) (.icmpv6 l')
  | routerSolicitation (l l' : NeighborMessage RouterSolicitation) :
    SameConstruction (.routerSolicitation l) (.routerSolicitation l')
  | routerAdvertisement (l l' : NeighborMessage RouterAdvertisement) :
    SameConstruction (.routerAdvertisement l) (.routerAdvertisement l')
  | neighborSolicitation (l l' : NeighborMessage NeighborSolicitation) :
    SameConstruction (.neighborSolicitation l) (.neighborSolicitation l')
  | neighborAdvertisement (l l' : NeighborMessage NeighborAdvertisement) :
    SameConstruction (.neighborAdvertisement l) (.neighborAdvertisement l')
  | redirect (l l' : NeighborMessage Redirect) : SameConstruction (.redirect l) (.redirect l')
  | tcp {l l' : Tcp} (h : l.streamPayloads = l'.streamPayloads) :
    SameConstruction (.tcp l) (.tcp l')
  | udp (l l' : Udp) : SameConstruction (.udp l) (.udp l')
  | dns (l l' : DnsMessage) : SameConstruction (.dns l) (.dns l')
  | enip (l l' : Enip) : SameConstruction (.enip l) (.enip l')
  | cip (l l' : Cip) : SameConstruction (.cip l) (.cip l')

variable {l l' made : BuiltinLayer} {base : Extent}

namespace SameConstruction

theorem refl (l : BuiltinLayer) : SameConstruction l l := by
  cases l with
  | tcp l => exact .tcp rfl
  | _ => constructor

theorem trans (h : SameConstruction l l') (h' : SameConstruction l' made) :
    SameConstruction l made := by
  cases h with
  | tcp h =>
      cases h' with
      | tcp h' => exact .tcp (h.trans h')
  | _ =>
      cases h'
      constructor

end SameConstruction

/-- Decoding does not change how a layer was made. -/
theorem sameConstruction_decode (l : BuiltinLayer) (data : Octets) :
    SameConstruction (l.decode data).layer l := by
  cases l with
  | tcp l => exact .tcp (Tcp.streamPayloads_decode l data)
  | _ => constructor

/-- The layer without the addresses that its checksum is computed for; they come from the
enclosing header, and are neither shown nor decoded. -/
def withoutNetwork : BuiltinLayer → BuiltinLayer
  | .icmpv6 l => .icmpv6 l.withoutNetwork
  | .tcp l => .tcp l.withoutNetwork
  | .udp l => .udp l.withoutNetwork
  | other => other

theorem extent_withoutNetwork (l : BuiltinLayer) : l.withoutNetwork.extent = l.extent := by
  cases l <;> rfl

theorem next_withoutNetwork (l : BuiltinLayer) : l.withoutNetwork.next = l.next := by
  cases l <;> rfl

/-- What a layer held before is not seen in how it takes an input. -/
theorem alike_decode (h : SameConstruction l made) (data : Octets) :
    Alike withoutNetwork extent l.extent (l.decode data) (made.decode data) := by
  cases h with
  | payload l l' => exact (Payload.alike_decode l l' data).map payload (fun _ => rfl) fun _ => rfl
  | ethernet l l' =>
      exact (Ethernet.alike_decode l l' data).map ethernet (fun _ => rfl) fun _ => rfl
  | loopback l l' =>
      exact (Loopback.alike_decode l l' data).map loopback (fun _ => rfl) fun _ => rfl
  | ipv4 l l' => exact (Ipv4.alike_decode l l' data).map ipv4 (fun _ => rfl) fun _ => rfl
  | ipv6 l l' => exact (Ipv6.alike_decode l l' data).map ipv6 (fun _ => rfl) fun _ => rfl
  | icmpv6 l l' => exact (Icmpv6.alike_decode l l' data).map icmpv6 (fun _ => rfl) fun _ => rfl
  | routerSolicitation l l' =>
      exact (NeighborMessage.alike_decode l l' data).map routerSolicitation (fun _ => rfl)
        fun _ => rfl
  | routerAdvertisement l l' =>
      exact (NeighborMessage.alike_decode l l' data).map routerAdvertisement (fun _ => rfl)
        fun _ => rfl
  | neighborSolicitation l l' =>
      exact (NeighborMessage.alike_decode l l' data).map neighborSolicitation (fun _ => rfl)
        fun _ => rfl
  | neighborAdvertisement l l' =>
      exact (NeighborMessage.alike_decode l l' data).map neighborAdvertisement (fun _ => rfl)
        fun _ => rfl
  | redirect l l' =>
      exact (NeighborMessage.alike_decode l l' data).map redirect (fun _ => rfl) fun _ => rfl
  | tcp h => exact (Tcp.alike_decode h data).map tcp (fun _ => rfl) fun _ => rfl
  | udp l l' => exact (Udp.alike_decode l l' data).map udp (fun _ => rfl) fun _ => rfl
  | dns l l' => exact (DnsMessage.alike_decode l l' data).map dns (fun _ => rfl) fun _ => rfl
  | enip l l' => exact (Enip.alike_decode l l' data).map enip (fun _ => rfl) fun _ => rfl
  | cip l l' => exact (Cip.alike_decode l l' data).map cip (fun _ => rfl) fun _ => rfl

/-! ## Histories -/

/-- What becomes of a layer object that is used: it is decoded, with or without success, and
its fields are assigned.  The extent is the one of the last decoding that succeeded, and at
first the one that the object was made with. -/
inductive Reused (made : BuiltinLayer) : BuiltinLayer → Extent → Prop where
  | unused : Reused made made made.extent
  | decoded {l : BuiltinLayer} {base : Extent} (h : Reused made l base) (data : Octets)
      (hok : (l.decode data).error = none) :
    Reused made (l.decode data).layer (l.decode data).layer.extent
  | failed {l : BuiltinLayer} {base : Extent} (h : Reused made l base) (data : Octets)
      (herror : (l.decode data).error ≠ none) : Reused made (l.decode data).layer base
  | assigned {l l' : BuiltinLayer} {base : Extent} (h : Reused made l base)
      (hmade : SameConstruction l' l) (hextent : l'.extent = l.extent) : Reused made l' base

/-- A used object is still of the same construction, and holds the extent of the last decoding
that succeeded. -/
theorem Reused.spec (h : Reused made l base) : SameConstruction l made ∧ l.extent = base := by
  induction h with
  | unused => exact ⟨.refl made, rfl⟩
  | decoded h data hok ih => exact ⟨(sameConstruction_decode _ data).trans ih.1, rfl⟩
  | @failed l base h data herror ih =>
      have halike := alike_decode (SameConstruction.refl l) data
      exact ⟨(sameConstruction_decode l data).trans ih.1, (halike.extent_eq herror).trans ih.2⟩
  | assigned h hmade hextent ih => exact ⟨hmade.trans ih.1, hextent.trans ih.2⟩

/-- A layer object can be used again.  Whatever was decoded into it or assigned to it since it was
made, it takes an input as it would have when it was made: with the same error or none, and the same
signal of truncation.  If it is read, fields, extent and next layer are the same too; if not, the
extent is still that of the last input that was. -/
theorem decode_reused (h : Reused made l base) (data : Octets) :
    (l.decode data).error = (made.decode data).error ∧
    (l.decode data).truncated = (made.decode data).truncated ∧
    ((l.decode data).error = none →
      (l.decode data).layer.withoutNetwork = (made.decode data).layer.withoutNetwork ∧
      (l.decode data).layer.extent = (made.decode data).layer.extent ∧
      (l.decode data).layer.next = (made.decode data).layer.next) ∧
    ((l.decode data).error ≠ none → (l.decode data).layer.extent = base) := by
  obtain ⟨hmade, hbase⟩ := h.spec
  have halike := alike_decode hmade data
  refine ⟨halike.error_eq, halike.truncated_eq, ?_, ?_⟩
  · intro hok
    have hfields := halike.visible_eq hok
    have hextent := congrArg extent hfields
    have hnext := congrArg next hfields
    rw [extent_withoutNetwork, extent_withoutNetwork] at hextent
    rw [next_withoutNetwork, next_withoutNetwork] at hnext
    exact ⟨hfields, hextent, hnext⟩
  · intro herror
    exact (halike.extent_eq herror).trans hbase

/-- A message with one unconnected data item. -/
def itemMessage : Octets :=
  [0x6f, 0, 14, 0] ++ List.replicate 20 0 ++ [0, 0, 0, 0, 0, 0, 1, 0, 0xb2, 0, 2, 0, 1, 2]

/-- A message without command data. -/
def quietMessage : Octets := List.replicate 24 0

theorem decode_reused_quietMessage :
    let held := ((enip .fresh).decode itemMessage).layer
    let used := (held.decode (itemMessage.take 30)).layer
    Reused (enip .fresh) used held.extent ∧
      (used.decode quietMessage).layer.withoutNetwork =
        ((enip .fresh).decode quietMessage).layer.withoutNetwork ∧
      (used.decode []).layer.extent = held.extent := by
  intro held used
  have hused : Reused (enip .fresh) used held.extent :=
    .failed (.decoded .unused itemMessage (by decide +kernel)) (itemMessage.take 30)
      (by decide +kernel)
  exact ⟨hused, ((decode_reused hused quietMessage).2.2.1 (by decide +kernel)).1,
    (decode_reused hused []).2.2.2 (by decide +kernel)⟩

end BuiltinLayer

end PacketLayers
