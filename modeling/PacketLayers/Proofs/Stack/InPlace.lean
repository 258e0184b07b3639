import PacketLayers.Proofs.Dns.EncodedLength
import PacketLayers.Proofs.Octets.Writes
import PacketLayers.Proofs.Stack.Settling

/-!
# Layers written in place

An encoder works on the buffer that holds its payload.  It makes room for its header in
front, copies the options to their position and writes the other fields over zero octets.
The checksum comes last: it is computed over the octets that are in the buffer by then,
those of the payload included where it covers them, and is set through a view of the whole
buffer.  A link lengthens a short frame at the other end.

`BuiltinLayer.writeInto` and `writeStack` do all of this on a buffer, step by step.  Each
layer leaves behind the octets that `Layer.serialize` puts around the payload, the same
layer and the same error (`BuiltinLayer.writeInto_agrees`), and so does each stack
(`writeStack_agrees`).
-/

namespace PacketLayers

/-! ## Views of a buffer -/

namespace Buffer

variable {b : Buffer} {header edited body bs : Octets} {f : Octets → Octets} {i n : Nat}

/-- Let `f` rewrite the first `n` octets. -/
def editFront (b : Buffer) (n : Nat) (f : Octets → Octets) : Buffer :=
  b.write 0 (f (b.octets.take n))

/-- Make room for a header of `n` octets in front and let `f` write its fields over zero
octets. -/
def prependHeader (b : Buffer) (n : Nat) (f : Octets → Octets) : Buffer :=
  (b.prependZeros n).editFront n f

/-- Only the octets that are rewritten change. -/
theorem octets_editFront (h : b.octets = header ++ body) (hf : f header = edited)
    (hheader : header.length = n) (hedited : edited.length = n) :
    (b.editFront n f).octets = edited ++ body := by
  have hinside : 0 + edited.length ≤ b.octets.length := by
    rw [h, List.length_append, hedited, hheader]
    omega
  rw [editFront, h, List.take_left' hheader, hf, octets_write hinside, h, List.take_zero,
    List.nil_append, Nat.zero_add, hedited, List.drop_left' hheader]

/-- A header is put in front of what is in the buffer. -/
theorem octets_prependHeader (hf : f (List.replicate n 0) = header) (hheader : header.length = n) :
    (b.prependHeader n f).octets = header ++ b.octets :=
  octets_editFront (octets_prependZeros b n) hf List.length_replicate hheader

/-- A field of the header in front is set in a view of the whole buffer. -/
theorem octets_editFront_length (h : b.octets = header ++ body)
    (hinside : i + bs.length ≤ header.length) (hset : putAt header i bs = edited) :
    (b.editFront b.length (putAt · i bs)).octets = edited ++ body := by
  have hall : b.octets = (header ++ body) ++ [] := by rw [h, List.append_nil]
  have hlength : (header ++ body).length = b.length := by rw [← h, length_octets]
  have hedited : putAt (header ++ body) i bs = edited ++ body := by
    rw [putAt_append hinside, hset]
  rw [octets_editFront hall hedited hlength, List.append_nil]
  rw [← hedited, length_putAt, hlength]

/-- The octets of what is wrapped around a buffer. -/
theorem map_octets_wrap (b : Buffer) (outcome : Except SerializeFailure Wrapping) :
    (outcome.map b.wrap).map octets =
      outcome.map fun w => w.header ++ (b.octets ++ w.trailer) := by
  cases outcome with
  | error failure => rfl
  | ok w => exact congrArg Except.ok (b.octets_wrap w)

end Buffer

/-! ## What an encoder leaves behind -/

/-- What one call of an encoder that writes into a buffer leaves behind. -/
structure LayerWriting (L : Type) where
  layer : L
  outcome : Except SerializeFailure Buffer

namespace LayerWriting

variable {L M : Type}

/-- The outcome as a string of octets. -/
def octets (written : LayerWriting L) : Except SerializeFailure Octets :=
  written.outcome.map Buffer.octets

/-- The same call seen through a function on layers. -/
def map (f : L → M) (written : LayerWriting L) : LayerWriting M :=
  ⟨f written.layer, written.outcome⟩

/-- The layer, the octets and the error are those of a header and a trailer around the octets
of the buffer. -/
structure Agrees (written : LayerWriting L) (b : Buffer) (s : Serialization L) : Prop where
  layer : written.layer = s.layer
  octets : written.octets = s.outcome.map fun w => w.header ++ (b.octets ++ w.trailer)

theorem Agrees.map {written : LayerWriting L} {b : Buffer} {s : Serialization L} (f : L → M)
    (h : written.Agrees b s) : (written.map f).Agrees b (s.map f) :=
  ⟨congrArg f h.layer, h.octets⟩

/-- A call that put a header in front. -/
theorem agrees_write {b b' : Buffer} {layer : L} {header : Octets}
    (h : b'.octets = header ++ b.octets) : Agrees ⟨layer, .ok b'⟩ b (.write layer header) := by
  refine ⟨rfl, ?_⟩
  rw [LayerWriting.octets, Except.map, h, Serialization.write, Except.map, List.append_nil]

/-- A call that failed. -/
theorem agrees_fail {b : Buffer} {layer : L} {failure : SerializeFailure} :
    Agrees ⟨layer, .error failure⟩ b (.fail layer failure) :=
  ⟨rfl, rfl⟩

/-- A call that laid out a header with zero in its checksum field and then set the checksum, if
there is one. -/
theorem agrees_checksum {b laid : Buffer} {layer : L} {summed : UInt16 → L} {blank : Octets}
    {header : UInt16 → Octets} {i : Nat} (hlaid : laid.octets = blank ++ b.octets)
    (hinside : i + 2 ≤ blank.length) (hset : ∀ sum, putBe16 blank i sum = header sum)
    (checksum : Except SerializeFailure UInt16) :
    Agrees
      (match checksum with
      | .error failure => ⟨layer, .error failure⟩
      | .ok sum => ⟨summed sum, .ok (laid.editFront laid.length (putBe16 · i sum))⟩)
      b
      (match checksum with
      | .error failure => .fail layer failure
      | .ok sum => .write (summed sum) (header sum)) := by
  cases checksum with
  | error failure => exact agrees_fail
  | ok sum => exact agrees_write (Buffer.octets_editFront_length hlaid hinside (hset sum))

end LayerWriting

open LayerWriting

/-! ## Link layers and payloads -/

namespace Ethernet

def fillHeader (e : Ethernet) (header : Octets) : Octets :=
  let header := Header.setDestination header e.destination
  let header := Header.setSource header e.source
  Header.setEtherType header e.etherType

def writeFrame (e : Ethernet) (b : Buffer) : Buffer := b.prependHeader headerLength e.fillHeader

/-- Write the header, and zero octets behind a short frame. -/
def writeInto (e : Ethernet) (options : SerializeOptions) (b : Buffer) : LayerWriting Ethernet :=
  if options.fixLengths then
    match e.withLength b.length with
    | .error error => ⟨e, .error (.refused error)⟩
    | .ok fixed =>
      let frame := fixed.writeFrame b
      ⟨fixed, .ok (frame.appendZeros (minFrameLength - frame.length))⟩
  else
    ⟨e, .ok (e.writeFrame b)⟩

/-- The fields with their positions. -/
def fieldWrites (e : Ethernet) : List Write :=
  [⟨0, e.destination.toOctets⟩, ⟨6, e.source.toOctets⟩, ⟨12, be16 e.etherType.number⟩]

theorem fillHeader_eq_putAll (e : Ethernet) (header : Octets) :
    e.fillHeader header = putAll header e.fieldWrites := by
  simp only [fillHeader, putAll, fieldWrites, List.foldl_cons, List.foldl_nil]
  rfl

theorem fillHeader_zeros (e : Ethernet) :
    e.fillHeader (List.replicate headerLength 0) = e.toOctets := by
  rw [fillHeader_eq_putAll]
  refine putAll_eq_of_stands ?_ ?_ (by simp) ?_
  · simp [fieldWrites, Write.Apart, Write.stop]
  · simp [fieldWrites, Write.stop, headerLength]
  · intro data h
    simpa [fieldWrites, stands_toOctets_iff] using h

theorem octets_writeFrame (e : Ethernet) (b : Buffer) :
    (e.writeFrame b).octets = e.toOctets ++ b.octets :=
  Buffer.octets_prependHeader e.fillHeader_zeros e.length_toOctets

theorem writeInto_agrees (e : Ethernet) (options : SerializeOptions) (b : Buffer) :
    (e.writeInto options b).Agrees b (e.serialize options b.octets) := by
  unfold writeInto serialize
  rw [Buffer.length_octets]
  cases options.fixLengths with
  | false => exact agrees_write (octets_writeFrame e b)
  | true =>
      cases e.withLength b.length with
      | error error => exact agrees_fail
      | ok fixed =>
          have hlength : (fixed.writeFrame b).length = headerLength + b.length := by
            rw [← Buffer.length_octets, octets_writeFrame, List.length_append, length_toOctets,
              Buffer.length_octets]
          refine ⟨rfl, ?_⟩
          simp only [if_true, LayerWriting.octets, Except.map, Buffer.octets_appendZeros,
            octets_writeFrame, hlength, List.append_assoc]

end Ethernet

namespace Loopback

/-- Write the family, low octet first. -/
def writeInto (l : Loopback) (_ : SerializeOptions) (b : Buffer) : LayerWriting Loopback :=
  ⟨l, .ok (b.prepend (le32 l.family.number))⟩

theorem writeInto_agrees (l : Loopback) (options : SerializeOptions) (b : Buffer) :
    (l.writeInto options b).Agrees b (l.serialize options b.octets) :=
  agrees_write (b.octets_prepend _)

end Loopback

namespace Payload

/-- Copy the octets in front of the buffer. -/
def writeInto (p : Payload) (_ : SerializeOptions) (b : Buffer) : LayerWriting Payload :=
  ⟨p, .ok (b.prepend p.data)⟩

theorem writeInto_agrees (p : Payload) (options : SerializeOptions) (b : Buffer) :
    (p.writeInto options b).Agrees b (p.serialize options b.octets) :=
  agrees_write (b.octets_prepend _)

end Payload

namespace DnsMessage

/-- The message is built apart from the buffer, and copied in front of it as a whole. -/
def writeInto (d : DnsMessage) (options : SerializeOptions) (b : Buffer) :
    LayerWriting DnsMessage :=
  let message := d.serialize options b.octets
  ⟨message.layer, message.outcome.map fun w => b.prepend w.header⟩

theorem writeInto_agrees (d : DnsMessage) (options : SerializeOptions) (b : Buffer) :
    (d.writeInto options b).Agrees b (d.serialize options b.octets) := by
  refine ⟨rfl, ?_⟩
  rw [writeInto, LayerWriting.octets]
  cases hmessage : (d.serialize options b.octets).outcome with
  | error error => rfl
  | ok w =>
      obtain ⟨-, htrailer⟩ := of_serialize hmessage
      simp only [Except.map, Buffer.octets_prepend, htrailer, List.append_nil]

end DnsMessage

/-! ## Network layers -/

namespace Ipv4

/-- The options, and the fields except for the checksum. -/
def fillHeader (p : Ipv4) (encoded header : Octets) : Octets :=
  let header := putAt header minHeaderLength encoded
  let header := Header.setVersionIhl header p.version p.ihl
  let header := Header.setTos header p.tos
  let header := Header.setTotalLength header p.length
  let header := Header.setId header p.id
  let header := Header.setFlagsFragmentOffset header p.flags p.fragmentOffset
  let header := Header.setTtl header p.ttl
  let header := Header.setProtocol header p.protocol
  let header := Header.setSource header p.source
  Header.setDestination header p.destination

/-- Write a header whose lengths are settled, its checksum last. -/
def writeHeader (p : Ipv4) (options : SerializeOptions) (encoded : Octets) (b : Buffer) :
    LayerWriting Ipv4 :=
  let headerLength := minHeaderLength + encoded.length
  let laid := b.prependHeader headerLength (p.fillHeader encoded)
  let summed :=
    if options.computeChecksums then
      (Header.computeChecksum (laid.octets.take headerLength) headerLength).map
        fun sum => { p with checksum := sum }
    else
      some p
  match summed with
  | none => ⟨p, .error .overflow⟩
  | some summed =>
    ⟨summed, .ok (laid.editFront headerLength (Header.setChecksum · summed.checksum))⟩

/-- Write the header; a header length that was fixed stays if the total length does not fit. -/
def writeInto (p : Ipv4) (options : SerializeOptions) (b : Buffer) : LayerWriting Ipv4 :=
  match p.encodedOptions with
  | .error error => ⟨p, .error (.refused error)⟩
  | .ok encoded =>
    let headerLength := minHeaderLength + encoded.length
    if options.fixLengths then
      let sized := { p with ihl := UInt8.ofNat (headerLength / 4) }
      if 65535 < headerLength + b.length then
        ⟨sized, .error (.refused (.lengthFixupFailed .ipv4 "payload exceeds 65535 octets"))⟩
      else
        { sized with length := UInt16.ofNat (headerLength + b.length) }.writeHeader options
          encoded b
    else
      p.writeHeader options encoded b

/-- The options and the other fields with their positions. -/
def fieldWrites (p : Ipv4) (encoded : Octets) : List Write :=
  [⟨minHeaderLength, encoded⟩, ⟨0, [versionOctet p.version p.ihl]⟩, ⟨1, [p.tos]⟩,
    ⟨2, be16 p.length⟩, ⟨4, be16 p.id⟩, ⟨6, be16 (fragmentWord p.flags p.fragmentOffset)⟩,
    ⟨8, [p.ttl]⟩, ⟨9, [p.protocol.number]⟩, ⟨12, p.source.toOctets⟩,
    ⟨16, p.destination.toOctets⟩]

theorem fillHeader_eq_putAll (p : Ipv4) (encoded header : Octets) :
    p.fillHeader encoded header = putAll header (p.fieldWrites encoded) := by
  simp only [fillHeader, putAll, fieldWrites, List.foldl_cons, List.foldl_nil]
  rfl

theorem fillHeader_zeros (p : Ipv4) (encoded : Octets) :
    p.fillHeader encoded (List.replicate (minHeaderLength + encoded.length) 0) =
      { p with checksum := 0 }.toOctets encoded := by
  rw [fillHeader_eq_putAll, ← length_toOctets { p with checksum := 0 }]
  refine putAll_zeros_eq_of_stands 10 ?_ ?_ ?_
  · simp [fieldWrites, Write.Apart, Write.stop, minHeaderLength]
  · simp [fieldWrites, Write.stop, minHeaderLength, length_toOctets]
    omega
  · intro data hchecksum h
    simp only [fieldWrites, List.forall_mem_cons] at h
    obtain ⟨hoptions, hversion, htos, hlength, hid, hfragment, httl, hprotocol, hsource,
      hdestination, -⟩ := h
    rw [stands_toOctets_iff]
    exact ⟨hversion, htos, hlength, hid, hfragment, httl, hprotocol, hchecksum, hsource,
      hdestination, hoptions⟩

theorem setChecksum_toOctets (p : Ipv4) (encoded : Octets) (old new : UInt16) :
    Header.setChecksum ({ p with checksum := old }.toOctets encoded) new =
      { p with checksum := new }.toOctets encoded := by
  obtain ⟨front, back, hfront, -, hparts⟩ := toOctets_around_checksum p encoded
  rw [hparts, hparts, Header.setChecksum, putBe16, ← hfront]
  exact putAt_between rfl

theorem writeHeader_agrees (p : Ipv4) (options : SerializeOptions) (encoded : Octets)
    (b : Buffer) :
    (p.writeHeader options encoded b).Agrees b (p.serializeHeader options encoded) := by
  let headerLength := minHeaderLength + encoded.length
  let laid := b.prependHeader headerLength (p.fillHeader encoded)
  have hblank := length_toOctets { p with checksum := 0 } encoded
  have hlaid := b.octets_prependHeader (p.fillHeader_zeros encoded) hblank
  have hset (sum : UInt16) :
      (laid.editFront headerLength (Header.setChecksum · sum)).octets =
        { p with checksum := sum }.toOctets encoded ++ b.octets :=
    Buffer.octets_editFront hlaid (p.setChecksum_toOctets encoded 0 sum) hblank
      (length_toOctets _ _)
  have hsum : Header.computeChecksum (laid.octets.take headerLength) headerLength =
      Header.computeChecksum (p.toOctets encoded) headerLength := by
    rw [hlaid, List.take_left' hblank, computeChecksum_toOctets]
  unfold writeHeader serializeHeader withChecksum
  cases options.computeChecksums with
  | false => exact agrees_write (hset p.checksum)
  | true =>
      simp only [if_true]
      rw [hsum]
      cases Header.computeChecksum (p.toOctets encoded) headerLength with
      | none => exact agrees_fail
      | some sum => exact agrees_write (hset sum)

theorem writeInto_agrees (p : Ipv4) (options : SerializeOptions) (b : Buffer) :
    (p.writeInto options b).Agrees b (p.serialize options b.octets) := by
  unfold writeInto serialize
  rw [Buffer.length_octets]
  cases p.encodedOptions with
  | error error => exact agrees_fail
  | ok encoded =>
      cases options.fixLengths with
      | false => exact p.writeHeader_agrees options encoded b
      | true =>
          by_cases hlong : 65535 < minHeaderLength + encoded.length + b.length
          · simp only [if_true, hlong]
            exact agrees_fail
          · simp only [if_true, hlong, if_false]
            exact writeHeader_agrees _ options encoded b

end Ipv4

namespace Ipv6

def fillHeader (p : Ipv6) (header : Octets) : Octets :=
  let header := Header.setVersionClassLabel header p.version p.trafficClass p.flowLabel
  let header := Header.setPayloadLength header p.length
  let header := Header.setNextHeader header p.nextHeader
  let header := Header.setHopLimit header p.hopLimit
  let header := Header.setSource header p.source
  Header.setDestination header p.destination

/-- Write the header. -/
def writeInto (p : Ipv6) (options : SerializeOptions) (b : Buffer) : LayerWriting Ipv6 :=
  if options.fixLengths then
    if 65535 < b.length then
      ⟨p, .error (.refused (.lengthFixupFailed .ipv6 "payload exceeds 65535 octets"))⟩
    else
      let fixed := { p with length := UInt16.ofNat b.length }
      ⟨fixed, .ok (b.prependHeader headerLength fixed.fillHeader)⟩
  else
    ⟨p, .ok (b.prependHeader headerLength p.fillHeader)⟩

/-- The fields with their positions. -/
def fieldWrites (p : Ipv6) : List Write :=
  [⟨0, be32 (flowWord p.version p.trafficClass p.flowLabel)⟩, ⟨4, be16 p.length⟩,
    ⟨6, [p.nextHeader.number]⟩, ⟨7, [p.hopLimit]⟩, ⟨8, p.source.toOctets⟩,
    ⟨24, p.destination.toOctets⟩]

theorem fillHeader_eq_putAll (p : Ipv6) (header : Octets) :
    p.fillHeader header = putAll header p.fieldWrites := by
  simp only [fillHeader, putAll, fieldWrites, List.foldl_cons, List.foldl_nil]
  rfl

theorem fillHeader_zeros (p : Ipv6) :
    p.fillHeader (List.replicate headerLength 0) = p.toOctets := by
  rw [fillHeader_eq_putAll]
  refine putAll_eq_of_stands ?_ ?_ (by simp [length_toOctets]) ?_
  · simp [fieldWrites, Write.Apart, Write.stop]
  · simp [fieldWrites, Write.stop, headerLength]
  · intro data h
    simpa [fieldWrites, stands_toOctets_iff] using h

theorem writeInto_agrees (p : Ipv6) (options : SerializeOptions) (b : Buffer) :
    (p.writeInto options b).Agrees b (p.serialize options b.octets) := by
  have hheader (q : Ipv6) :
      (b.prependHeader headerLength q.fillHeader).octets = q.toOctets ++ b.octets :=
    Buffer.octets_prependHeader q.fillHeader_zeros q.length_toOctets
  unfold writeInto serialize
  rw [Buffer.length_octets]
  cases options.fixLengths with
  | false => exact agrees_write (hheader p)
  | true =>
      by_cases hlong : 65535 < b.length
      · simp only [if_true, hlong]
        exact agrees_fail
      · simp only [if_true, hlong, if_false]
        exact agrees_write (hheader _)

end Ipv6

/-! ## Transport layers -/

namespace Tcp

/-- The options, and the fields except for the checksum. -/
def fillHeader (t : Tcp) (encoded header : Octets) : Octets :=
  let header := putAt header minHeaderLength encoded
  let header := Header.setSourcePort header t.sourcePort
  let header := Header.setDestinationPort header t.destinationPort
  let header := Header.setSeq header t.seq
  let header := Header.setAck header t.ack
  let header := Header.setOffsetFlags header t.dataOffset t.flags
  let header := Header.setWindow header t.window
  Header.setUrgent header t.urgent

/-- Write the header, with its checksum over the whole segment if one is to be computed. -/
def writeInto (t : Tcp) (options : SerializeOptions) (b : Buffer) : LayerWriting Tcp :=
  match t.encodedOptions with
  | .error error => ⟨t, .error (.refused error)⟩
  | .ok encoded =>
    let sized := t.withDataOffset options encoded
    let laid := b.prependHeader (minHeaderLength + encoded.length) (sized.fillHeader encoded)
    match Checksum.forHeader .tcp .tcp options sized.network sized.checksum laid.octets with
    | .error failure => ⟨sized, .error failure⟩
    | .ok sum =>
      ⟨{ sized with checksum := sum }, .ok (laid.editFront laid.length (Header.setChecksum · sum))⟩

/-- The options and the other fields with their positions. -/
def fieldWrites (t : Tcp) (encoded : Octets) : List Write :=
  [⟨minHeaderLength, encoded⟩, ⟨0, be16 t.sourcePort⟩, ⟨2, be16 t.destinationPort⟩,
    ⟨4, be32 t.seq⟩, ⟨8, be32 t.ack⟩, ⟨12, be16 (offsetWord t.dataOffset t.flags)⟩,
    ⟨14, be16 t.window⟩, ⟨18, be16 t.urgent⟩]

theorem fillHeader_eq_putAll (t : Tcp) (encoded header : Octets) :
    t.fillHeader encoded header = putAll header (t.fieldWrites encoded) := by
  simp only [fillHeader, putAll, fieldWrites, List.foldl_cons, List.foldl_nil]
  rfl

theorem fillHeader_zeros (t : Tcp) (encoded : Octets) :
    t.fillHeader encoded (List.replicate (minHeaderLength + encoded.length) 0) =
      { t with checksum := 0 }.toOctets encoded := by
  rw [fillHeader_eq_putAll, ← length_toOctets { t with checksum := 0 }]
  refine putAll_zeros_eq_of_stands 16 ?_ ?_ ?_
  · simp [fieldWrites, Write.Apart, Write.stop, minHeaderLength]
  · simp [fieldWrites, Write.stop, minHeaderLength, length_toOctets]
    omega
  · intro data hchecksum h
    simp only [fieldWrites, List.forall_mem_cons] at h
    obtain ⟨hoptions, hsource, hdestination, hseq, hack, hoffset, hwindow, hurgent,
      -⟩ := h
    rw [stands_toOctets_iff]
    exact ⟨hsource, hdestination, hseq, hack, hoffset, hwindow, hchecksum, hurgent, hoptions⟩

theorem setChecksum_toOctets (t : Tcp) (encoded : Octets) (old new : UInt16) :
    Header.setChecksum ({ t with checksum := old }.toOctets encoded) new =
      { t with checksum := new }.toOctets encoded := by
  obtain ⟨front, back, hfront, hparts⟩ := toOctets_around_checksum t encoded
  rw [hparts, hparts, Header.setChecksum, putBe16, ← hfront]
  exact putAt_between rfl

theorem writeInto_agrees (t : Tcp) (options : SerializeOptions) (b : Buffer) :
    (t.writeInto options b).Agrees b (t.serialize options b.octets) := by
  unfold writeInto serialize
  cases t.encodedOptions with
  | error error => exact agrees_fail
  | ok encoded =>
      let sized := t.withDataOffset options encoded
      have hblank := length_toOctets { sized with checksum := 0 } encoded
      have hlaid := b.octets_prependHeader (sized.fillHeader_zeros encoded) hblank
      have hinside : 16 + 2 ≤ ({ sized with checksum := 0 }.toOctets encoded).length := by
        rw [hblank, minHeaderLength]
        omega
      simp only
      rw [hlaid]
      exact agrees_checksum hlaid hinside (sized.setChecksum_toOctets encoded 0) _

end Tcp

namespace Udp

/-- The fields except for the checksum. -/
def fillHeader (u : Udp) (header : Octets) : Octets :=
  let header := Header.setSourcePort header u.sourcePort
  let header := Header.setDestinationPort header u.destinationPort
  Header.setLength header u.length

/-- Write the header, with its checksum over the whole datagram if one is to be computed. -/
def writeInto (u : Udp) (options : SerializeOptions) (b : Buffer) : LayerWriting Udp :=
  match u.withLength options b.length with
  | .error error => ⟨u, .error (.refused error)⟩
  | .ok sized =>
    let laid := b.prependHeader headerLength sized.fillHeader
    match Checksum.forHeader .udp .udp options sized.network sized.checksum laid.octets with
    | .error failure => ⟨sized, .error failure⟩
    | .ok sum =>
      ⟨{ sized with checksum := sum }, .ok (laid.editFront laid.length (Header.setChecksum · sum))⟩

/-- The fields with their positions. -/
def fieldWrites (u : Udp) : List Write :=
  [⟨0, be16 u.sourcePort⟩, ⟨2, be16 u.destinationPort⟩, ⟨4, be16 u.length⟩]

theorem fillHeader_eq_putAll (u : Udp) (header : Octets) :
    u.fillHeader header = putAll header u.fieldWrites := by
  simp only [fillHeader, putAll, fieldWrites, List.foldl_cons, List.foldl_nil]
  rfl

theorem fillHeader_zeros (u : Udp) :
    u.fillHeader (List.replicate headerLength 0) = { u with checksum := 0 }.toOctets := by
  rw [fillHeader_eq_putAll, ← length_toOctets { u with checksum := 0 }]
  refine putAll_zeros_eq_of_stands 6 ?_ ?_ ?_
  · simp [fieldWrites, Write.Apart, Write.stop]
  · simp [fieldWrites, Write.stop, length_toOctets, headerLength]
  · intro data hchecksum h
    simp only [fieldWrites, List.forall_mem_cons] at h
    obtain ⟨hsource, hdestination, hlength, -⟩ := h
    rw [stands_toOctets_iff]
    exact ⟨hsource, hdestination, hlength, hchecksum⟩

theorem setChecksum_toOctets (u : Udp) (old new : UInt16) :
    Header.setChecksum { u with checksum := old }.toOctets new =
      { u with checksum := new }.toOctets :=
  rfl

theorem writeInto_agrees (u : Udp) (options : SerializeOptions) (b : Buffer) :
    (u.writeInto options b).Agrees b (u.serialize options b.octets) := by
  unfold writeInto serialize
  rw [Buffer.length_octets]
  cases u.withLength options b.length with
  | error error => exact agrees_fail
  | ok sized =>
      have hblank := length_toOctets { sized with checksum := 0 }
      have hlaid := b.octets_prependHeader sized.fillHeader_zeros hblank
      have hinside : 6 + 2 ≤ { sized with checksum := 0 }.toOctets.length :=
        Nat.le_of_eq hblank.symm
      simp only
      rw [hlaid]
      exact agrees_checksum hlaid hinside (sized.setChecksum_toOctets 0) _

end Udp

namespace Icmpv6

/-- The fields except for the checksum. -/
def fillHeader (m : Icmpv6) (header : Octets) : Octets :=
  let header := Header.setMessageType header m.messageType
  Header.setCode header m.code

/-- Write the header, with its checksum over the whole message if one is to be computed. -/
def writeInto (m : Icmpv6) (options : SerializeOptions) (b : Buffer) : LayerWriting Icmpv6 :=
  let laid := b.prependHeader headerLength m.fillHeader
  match Checksum.forHeader .icmpv6 .icmpv6 options m.network m.checksum laid.octets with
  | .error failure => ⟨m, .error failure⟩
  | .ok sum =>
    ⟨{ m with checksum := sum }, .ok (laid.editFront laid.length (Header.setChecksum · sum))⟩

/-- The fields with their positions. -/
def fieldWrites (m : Icmpv6) : List Write := [⟨0, [m.messageType.number]⟩, ⟨1, [m.code]⟩]

theorem fillHeader_eq_putAll (m : Icmpv6) (header : Octets) :
    m.fillHeader header = putAll header m.fieldWrites := by
  simp only [fillHeader, putAll, fieldWrites, List.foldl_cons, List.foldl_nil]
  rfl

theorem fillHeader_zeros (m : Icmpv6) :
    m.fillHeader (List.replicate headerLength 0) = { m with checksum := 0 }.toOctets := by
  rw [fillHeader_eq_putAll, ← length_toOctets { m with checksum := 0 }]
  refine putAll_zeros_eq_of_stands 2 ?_ ?_ ?_
  · simp [fieldWrites, Write.Apart, Write.stop]
  · simp [fieldWrites, Write.stop, length_toOctets, headerLength]
  · intro data hchecksum h
    simp only [fieldWrites, List.forall_mem_cons] at h
    obtain ⟨htype, hcode, -⟩ := h
    rw [stands_toOctets_iff]
    exact ⟨htype, hcode, hchecksum⟩

theorem setChecksum_toOctets (m : Icmpv6) (old new : UInt16) :
    Header.setChecksum { m with checksum := old }.toOctets new =
      { m with checksum := new }.toOctets :=
  rfl

theorem writeInto_agrees (m : Icmpv6) (options : SerializeOptions) (b : Buffer) :
    (m.writeInto options b).Agrees b (m.serialize options b.octets) := by
  have hblank := length_toOctets { m with checksum := 0 }
  have hlaid := b.octets_prependHeader m.fillHeader_zeros hblank
  have hinside : 2 + 2 ≤ { m with checksum := 0 }.toOctets.length := Nat.le_of_eq hblank.symm
  unfold writeInto serialize
  simp only
  rw [hlaid]
  exact agrees_checksum hlaid hinside (m.setChecksum_toOctets 0) _

end Icmpv6

/-! ## Stacks -/

namespace BuiltinLayer

/-- Write a layer around what is in the buffer. -/
def writeInto (layer : BuiltinLayer) (options : SerializeOptions) (b : Buffer) :
    LayerWriting BuiltinLayer :=
  match layer with
  | .payload l => (l.writeInto options b).map .payload
  | .ethernet l => (l.writeInto options b).map .ethernet
  | .loopback l => (l.writeInto options b).map .loopback
  | .ipv4 l => (l.writeInto options b).map .ipv4
  | .ipv6 l => (l.writeInto options b).map .ipv6
  | .icmpv6 l => (l.writeInto options b).map .icmpv6
  | .tcp l => (l.writeInto options b).map .tcp
  | .udp l => (l.writeInto options b).map .udp
  | .dns l => (l.writeInto options b).map .dns
  | other => ⟨other, .error (.refused (.unsupportedLayer other.layerType))⟩

/-- In place, a layer leaves behind what `serialize` puts around the payload. -/
theorem writeInto_agrees (layer : BuiltinLayer) (options : SerializeOptions) (b : Buffer) :
    (layer.writeInto options b).Agrees b (layer.serialize options b.octets) := by
  cases layer with
  | payload l => exact (l.writeInto_agrees options b).map payload
  | ethernet l => exact (l.writeInto_agrees options b).map ethernet
  | loopback l => exact (l.writeInto_agrees options b).map loopback
  | ipv4 l => exact (l.writeInto_agrees options b).map ipv4
  | ipv6 l => exact (l.writeInto_agrees options b).map ipv6
  | icmpv6 l => exact (l.writeInto_agrees options b).map icmpv6
  | tcp l => exact (l.writeInto_agrees options b).map tcp
  | udp l => exact (l.writeInto_agrees options b).map udp
  | dns l => exact (l.writeInto_agrees options b).map dns
  | routerSolicitation l | routerAdvertisement l | neighborSolicitation l
  | neighborAdvertisement l | redirect l | enip l | cip l => exact agrees_fail

end BuiltinLayer

/-- Write a stack of layers in place, outermost first, into an empty buffer. -/
def writeStack (options : SerializeOptions) : List BuiltinLayer → StackWriting BuiltinLayer
  | [] => ⟨[], .ok .empty⟩
  | outer :: inner =>
    let below := writeStack options inner
    match below.outcome with
    | .error failure => ⟨outer :: below.layers, .error failure⟩
    | .ok buffer =>
      let written := outer.writeInto options buffer
      ⟨written.layer :: below.layers, written.outcome⟩

/-- In place, a stack leaves behind the same layers and the same octets or error. -/
theorem writeStack_agrees (options : SerializeOptions) (stack : List BuiltinLayer) :
    (writeStack options stack).layers = (serializeStack options stack).layers ∧
      (writeStack options stack).octets = (serializeStack options stack).octets := by
  induction stack with
  | nil => exact ⟨rfl, rfl⟩
  | cons outer inner ih =>
      obtain ⟨hlayers, hoctets⟩ := ih
      rw [StackWriting.octets, StackWriting.octets] at hoctets ⊢
      rw [writeStack, serializeStack]
      cases hbelow : (writeStack options inner).outcome with
      | error error =>
          cases hwrapped : (serializeStack options inner).outcome with
          | error error' =>
              rw [hbelow, hwrapped] at hoctets
              obtain rfl := Except.error.inj hoctets
              exact ⟨congrArg (outer :: ·) hlayers, rfl⟩
          | ok buffer =>
              rw [hbelow, hwrapped] at hoctets
              cases hoctets
      | ok buffer =>
          cases hwrapped : (serializeStack options inner).outcome with
          | error error =>
              rw [hbelow, hwrapped] at hoctets
              cases hoctets
          | ok buffer' =>
              rw [hbelow, hwrapped] at hoctets
              -- The two buffers may lie differently in their arrays; their octets are the same.
              have hsame : buffer.octets = buffer'.octets := Except.ok.inj hoctets
              obtain ⟨hlayer, houtcome⟩ := outer.writeInto_agrees options buffer
              rw [hsame] at hlayer houtcome
              exact ⟨congrArg₂ List.cons hlayer hlayers,
                houtcome.trans (buffer'.map_octets_wrap _).symm⟩

end PacketLayers
