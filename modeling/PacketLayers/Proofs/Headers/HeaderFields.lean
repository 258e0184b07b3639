import PacketLayers.Control.Icmpv6
import PacketLayers.Dns.Message
import PacketLayers.Proofs.Headers.FieldView
import PacketLayers.Proofs.Headers.Link
import PacketLayers.Proofs.Headers.Network
import PacketLayers.Transport.Tcp
import PacketLayers.Transport.Udp

/-!
# The fields of the headers

For each header this module lists the calls that set fields (`Setter`), the octets that a
call writes (`Setter.write`) and the fields with their bits (`fields`).  Fields that share
octets are set by one call, and each takes the low bits of the value that it is given: version
and header length, flags and fragment offset, data offset and control bits, and the first word
of IPv6.  The flags of a DNS message are set as two octets, of which each flag takes its own
bits.  A code is set and read by its number, so it may be read back under another name.

The main statement is `header_fields_lawful`: after any calls, with values of any size, each
field holds what the last call gave it, cut to its bits, and all else is as it was.
-/

namespace PacketLayers

open FieldValue (number ofNumber)

/-! ## Codes -/

namespace FieldValue

instance : FieldValue EtherType :=
  .ofWords EtherType.number EtherType.ofNumber EtherType.number_ofNumber

instance : FieldValue IpProtocol :=
  .ofOctets IpProtocol.number IpProtocol.ofNumber IpProtocol.number_ofNumber

instance : FieldValue ControlMessage :=
  .ofOctets ControlMessage.number ControlMessage.ofNumber ControlMessage.number_ofNumber

instance : FieldValue TcpFlags := .ofWords TcpFlags.bits TcpFlags.mk fun _ => rfl

instance : FieldValue Dns.OpCode :=
  .ofOctets Dns.OpCode.number Dns.OpCode.ofNumber Dns.OpCode.number_ofNumber

instance : FieldValue Dns.ResponseCode :=
  .ofOctets Dns.ResponseCode.number Dns.ResponseCode.ofNumber Dns.ResponseCode.number_ofNumber

@[simp] theorem number_etherType (t : EtherType) : number t = t.number.toNat := rfl

@[simp] theorem number_ipProtocol (p : IpProtocol) : number p = p.number.toNat := rfl

@[simp] theorem number_controlMessage (t : ControlMessage) : number t = t.number.toNat := rfl

@[simp] theorem number_tcpFlags (f : TcpFlags) : number f = f.bits.toNat := rfl

@[simp] theorem number_opCode (c : Dns.OpCode) : number c = c.number.toNat := rfl

@[simp] theorem number_responseCode (c : Dns.ResponseCode) : number c = c.number.toNat := rfl

end FieldValue

variable {data : Octets}

/-! ## Ethernet -/

namespace Ethernet.Header

/-- A call that sets fields. -/
inductive Setter where
  | destination (a : MacAddress)
  | source (a : MacAddress)
  | etherType (t : EtherType)

def set (data : Octets) : Setter → Octets
  | .destination a => setDestination data a
  | .source a => setSource data a
  | .etherType t => setEtherType data t

/-- What a call writes. -/
def Setter.write : Setter → Write
  | destination a => ⟨0, a.toOctets⟩
  | source a => ⟨6, a.toOctets⟩
  | etherType t => ⟨12, be16 t.number⟩

/-- The fields with what a call gives them, their first bits and their widths. -/
def fields : List (HeaderField Setter) :=
  [⟨destination, fun | .destination a => some a | _ => none, 0, 48⟩,
    ⟨source, fun | .source a => some a | _ => none, 48, 48⟩,
    ⟨etherType, fun | .etherType t => some t | _ => none, 96, 16⟩]

def view : HeaderView := ⟨headerLength, Setter, set, fields⟩

theorem follows (c : Setter) : ∀ f ∈ fields, f.Follows c.write (f.given? c) := by
  simp only [fields, List.forall_mem_cons, List.not_mem_nil, false_implies, implies_true,
    and_true]
  cases c <;> simp [HeaderField.Follows, Setter.write, Write.stop, bitsAt]

theorem covers (c : Setter) (j : Nat) (hstart : c.write.start ≤ j) (hstop : j < c.write.stop) :
    ∃ f ∈ fields, f.Holds j ∧ f.given? c ≠ none := by
  simp only [fields, List.exists_mem_cons_iff, HeaderField.Holds]
  cases c with
  | _ =>
      simp only [Setter.write, Write.stop, MacAddress.length_toOctets, length_be16, ne_eq,
        not_true_eq_false, and_false, reduceCtorEq, not_false_eq_true, and_true, false_or] at *
      omega

theorem get_eq (hdata : headerLength ≤ data.length) :
    ∀ f ∈ fields, f.get data = ofNumber (bitsAt data f.offset f.width) := by
  have hlength : 14 ≤ data.length := hdata
  simp only [fields, List.forall_mem_cons, List.not_mem_nil, false_implies, implies_true,
    and_true]
  exact ⟨congrArg MacAddress.mk (blockAt_eq (by omega)),
    congrArg MacAddress.mk (blockAt_eq (by omega)),
    congrArg EtherType.ofNumber (be16At_eq (by omega))⟩

theorem laysOut : view.LaysOut Setter.write where
  set_eq _ c := by cases c <;> rfl
  inside c := by cases c <;> simp [Setter.write, Write.stop, view, headerLength]
  bounds := by decide
  get_eq _ := get_eq
  follows := follows
  covers := covers

end Ethernet.Header

/-! ## IPv4 -/

namespace Ipv4.Header

/-- A call that sets fields. -/
inductive Setter where
  | versionIhl (version ihl : UInt8)
  | tos (v : UInt8)
  | totalLength (v : UInt16)
  | id (v : UInt16)
  | flagsFragmentOffset (flags : UInt8) (offset : UInt16)
  | ttl (v : UInt8)
  | protocol (p : IpProtocol)
  | checksum (v : UInt16)
  | source (a : Ipv4Address)
  | destination (a : Ipv4Address)

def set (data : Octets) : Setter → Octets
  | .versionIhl version ihl => setVersionIhl data version ihl
  | .tos v => setTos data v
  | .totalLength v => setTotalLength data v
  | .id v => setId data v
  | .flagsFragmentOffset flags offset => setFlagsFragmentOffset data flags offset
  | .ttl v => setTtl data v
  | .protocol p => setProtocol data p
  | .checksum v => setChecksum data v
  | .source a => setSource data a
  | .destination a => setDestination data a

/-- What a call writes. -/
def Setter.write : Setter → Write
  | versionIhl version ihl => ⟨0, [versionOctet version ihl]⟩
  | tos v => ⟨1, [v]⟩
  | totalLength v => ⟨2, be16 v⟩
  | id v => ⟨4, be16 v⟩
  | flagsFragmentOffset flags offset => ⟨6, be16 (fragmentWord flags offset)⟩
  | ttl v => ⟨8, [v]⟩
  | protocol p => ⟨9, [p.number]⟩
  | checksum v => ⟨10, be16 v⟩
  | source a => ⟨12, a.toOctets⟩
  | destination a => ⟨16, a.toOctets⟩

/-- The fields with what a call gives them, their first bits and their widths. -/
def fields : List (HeaderField Setter) :=
  [⟨version, fun | .versionIhl v _ => some v | _ => none, 0, 4⟩,
    ⟨ihl, fun | .versionIhl _ v => some v | _ => none, 4, 4⟩,
    ⟨tos, fun | .tos v => some v | _ => none, 8, 8⟩,
    ⟨totalLength, fun | .totalLength v => some v | _ => none, 16, 16⟩,
    ⟨id, fun | .id v => some v | _ => none, 32, 16⟩,
    ⟨flags, fun | .flagsFragmentOffset v _ => some v | _ => none, 48, 3⟩,
    ⟨fragmentOffset, fun | .flagsFragmentOffset _ v => some v | _ => none, 51, 13⟩,
    ⟨ttl, fun | .ttl v => some v | _ => none, 64, 8⟩,
    ⟨protocol, fun | .protocol p => some p | _ => none, 72, 8⟩,
    ⟨checksum, fun | .checksum v => some v | _ => none, 80, 16⟩,
    ⟨source, fun | .source a => some a | _ => none, 96, 32⟩,
    ⟨destination, fun | .destination a => some a | _ => none, 128, 32⟩]

def view : HeaderView := ⟨minHeaderLength, Setter, set, fields⟩

theorem toNat_versionOctet (version ihl : UInt8) :
    (versionOctet version ihl).toNat = version.toNat % 16 * 16 + ihl.toNat % 16 := by
  rw [versionOctet, UInt8.toNat_ofNat', Nat.mod_eq_of_lt (by omega)]

theorem toNat_fragmentWord (flags : UInt8) (offset : UInt16) :
    (fragmentWord flags offset).toNat = flags.toNat % 8 * 8192 + offset.toNat % 8192 := by
  rw [fragmentWord, UInt16.toNat_ofNat', Nat.mod_eq_of_lt (by omega)]

theorem follows (c : Setter) : ∀ f ∈ fields, f.Follows c.write (f.given? c) := by
  simp only [fields, List.forall_mem_cons, List.not_mem_nil, false_implies, implies_true,
    and_true]
  cases c with
  | versionIhl version ihl =>
      have hversion : (versionOctet version ihl).toNat / 16 % 16 = version.toNat % 16 := by
        rw [toNat_versionOctet]
        omega
      have hihl : (versionOctet version ihl).toNat % 16 = ihl.toNat % 16 := by
        rw [toNat_versionOctet]
        omega
      simp [HeaderField.Follows, Setter.write, Write.stop, bitsAt, hversion, hihl]
  | flagsFragmentOffset flags offset =>
      have hflags : (fragmentWord flags offset).toNat / 8192 % 8 = flags.toNat % 8 := by
        rw [toNat_fragmentWord]
        omega
      have hoffset : (fragmentWord flags offset).toNat % 8192 = offset.toNat % 8192 := by
        rw [toNat_fragmentWord]
        omega
      simp [HeaderField.Follows, Setter.write, Write.stop, bitsAt, hflags, hoffset]
  | _ => simp [HeaderField.Follows, Setter.write, Write.stop, bitsAt]

theorem covers (c : Setter) (j : Nat) (hstart : c.write.start ≤ j) (hstop : j < c.write.stop) :
    ∃ f ∈ fields, f.Holds j ∧ f.given? c ≠ none := by
  simp only [fields, List.exists_mem_cons_iff, HeaderField.Holds]
  cases c with
  | _ =>
      simp only [Setter.write, Write.stop, List.length_singleton, length_be16,
        Ipv4Address.length_toOctets, ne_eq, not_true_eq_false, and_false, reduceCtorEq,
        not_false_eq_true, and_true, false_or] at *
      omega

theorem get_eq (hdata : minHeaderLength ≤ data.length) :
    ∀ f ∈ fields, f.get data = ofNumber (bitsAt data f.offset f.width) := by
  have hlength : 20 ≤ data.length := hdata
  have hversion : (octetAt data 0).toNat / 16 = bitsAt data 0 4 := by
    have hlt := (octetAt data 0).toNat_lt
    rw [bitsAt_octet (i := 0) (by omega) (by omega) (by omega)]
    omega
  have hihl : (octetAt data 0).toNat % 16 = bitsAt data 4 4 := by
    rw [bitsAt_octet (i := 0) (by omega) (by omega) (by omega)]
    omega
  have hflags : (octetAt data 6).toNat / 32 = bitsAt data 48 3 := by
    have hlt := (octetAt data 6).toNat_lt
    rw [bitsAt_octet (i := 6) (by omega) (by omega) (by omega)]
    omega
  have hoffset : (be16At data 6).toNat % 8192 = bitsAt data 51 13 := by
    rw [bitsAt_word (i := 6) (by omega) (by omega) (by omega)]
    omega
  simp only [fields, List.forall_mem_cons, List.not_mem_nil, false_implies, implies_true,
    and_true]
  exact ⟨congrArg UInt8.ofNat hversion, congrArg UInt8.ofNat hihl, octetAt_eq (by omega),
    be16At_eq (by omega), be16At_eq (by omega), congrArg UInt8.ofNat hflags,
    congrArg UInt16.ofNat hoffset, octetAt_eq (by omega),
    congrArg IpProtocol.ofNumber (octetAt_eq (by omega)), be16At_eq (by omega),
    congrArg Ipv4Address.mk (blockAt_eq (by omega)),
    congrArg Ipv4Address.mk (blockAt_eq (by omega))⟩

theorem laysOut : view.LaysOut Setter.write where
  set_eq _ c := by cases c <;> rfl
  inside c := by cases c <;> simp [Setter.write, Write.stop, view, minHeaderLength]
  bounds := by decide
  get_eq _ := get_eq
  follows := follows
  covers := covers

end Ipv4.Header

/-! ## IPv6 -/

namespace Ipv6.Header

/-- A call that sets fields. -/
inductive Setter where
  | versionClassLabel (version trafficClass : UInt8) (flowLabel : UInt32)
  | payloadLength (v : UInt16)
  | nextHeader (p : IpProtocol)
  | hopLimit (v : UInt8)
  | source (a : Ipv6Address)
  | destination (a : Ipv6Address)

def set (data : Octets) : Setter → Octets
  | .versionClassLabel version trafficClass flowLabel =>
      setVersionClassLabel data version trafficClass flowLabel
  | .payloadLength v => setPayloadLength data v
  | .nextHeader p => setNextHeader data p
  | .hopLimit v => setHopLimit data v
  | .source a => setSource data a
  | .destination a => setDestination data a

/-- What a call writes. -/
def Setter.write : Setter → Write
  | versionClassLabel version trafficClass flowLabel =>
      ⟨0, be32 (flowWord version trafficClass flowLabel)⟩
  | payloadLength v => ⟨4, be16 v⟩
  | nextHeader p => ⟨6, [p.number]⟩
  | hopLimit v => ⟨7, [v]⟩
  | source a => ⟨8, a.toOctets⟩
  | destination a => ⟨24, a.toOctets⟩

/-- The fields with what a call gives them, their first bits and their widths. -/
def fields : List (HeaderField Setter) :=
  [⟨version, fun | .versionClassLabel v _ _ => some v | _ => none, 0, 4⟩,
    ⟨trafficClass, fun | .versionClassLabel _ v _ => some v | _ => none, 4, 8⟩,
    ⟨flowLabel, fun | .versionClassLabel _ _ v => some v | _ => none, 12, 20⟩,
    ⟨payloadLength, fun | .payloadLength v => some v | _ => none, 32, 16⟩,
    ⟨nextHeader, fun | .nextHeader p => some p | _ => none, 48, 8⟩,
    ⟨hopLimit, fun | .hopLimit v => some v | _ => none, 56, 8⟩,
    ⟨source, fun | .source a => some a | _ => none, 64, 128⟩,
    ⟨destination, fun | .destination a => some a | _ => none, 192, 128⟩]

def view : HeaderView := ⟨headerLength, Setter, set, fields⟩

theorem toNat_flowWord_mod (version trafficClass : UInt8) (flowLabel : UInt32) :
    (flowWord version trafficClass flowLabel).toNat =
      version.toNat % 16 * 268435456 + trafficClass.toNat * 1048576 +
        flowLabel.toNat % 1048576 := by
  have hclass := trafficClass.toNat_lt
  rw [flowWord, UInt32.toNat_ofNat', Nat.mod_eq_of_lt (by omega)]

theorem follows (c : Setter) : ∀ f ∈ fields, f.Follows c.write (f.given? c) := by
  simp only [fields, List.forall_mem_cons, List.not_mem_nil, false_implies, implies_true,
    and_true]
  cases c with
  | versionClassLabel version trafficClass flowLabel =>
      have hclasslt := trafficClass.toNat_lt
      have hversion : (flowWord version trafficClass flowLabel).toNat / 268435456 % 16 =
          version.toNat % 16 := by
        rw [toNat_flowWord_mod]
        omega
      have hclass : (flowWord version trafficClass flowLabel).toNat / 1048576 % 256 =
          trafficClass.toNat := by
        rw [toNat_flowWord_mod]
        omega
      have hlabel : (flowWord version trafficClass flowLabel).toNat % 1048576 =
          flowLabel.toNat % 1048576 := by
        rw [toNat_flowWord_mod]
        omega
      simp [HeaderField.Follows, Setter.write, Write.stop, bitsAt, hversion, hclass, hlabel]
  | _ => simp [HeaderField.Follows, Setter.write, Write.stop, bitsAt]

theorem covers (c : Setter) (j : Nat) (hstart : c.write.start ≤ j) (hstop : j < c.write.stop) :
    ∃ f ∈ fields, f.Holds j ∧ f.given? c ≠ none := by
  simp only [fields, List.exists_mem_cons_iff, HeaderField.Holds]
  cases c with
  | _ =>
      simp only [Setter.write, Write.stop, List.length_singleton, length_be16, length_be32,
        Ipv6Address.length_toOctets, ne_eq, not_true_eq_false, and_false, reduceCtorEq,
        not_false_eq_true, and_true, false_or] at *
      omega

theorem get_eq (hdata : headerLength ≤ data.length) :
    ∀ f ∈ fields, f.get data = ofNumber (bitsAt data f.offset f.width) := by
  have hlength : 40 ≤ data.length := hdata
  have hversion : (be32At data 0).toNat / 268435456 = bitsAt data 0 4 := by
    have hlt := (be32At data 0).toNat_lt
    rw [bitsAt_doubleWord (i := 0) (by omega) (by omega) (by omega)]
    omega
  have hclass : (be32At data 0).toNat / 1048576 % 256 = bitsAt data 4 8 := by
    rw [bitsAt_doubleWord (i := 0) (by omega) (by omega) (by omega)]
    omega
  have hlabel : (be32At data 0).toNat % 1048576 = bitsAt data 12 20 := by
    rw [bitsAt_doubleWord (i := 0) (by omega) (by omega) (by omega)]
    omega
  simp only [fields, List.forall_mem_cons, List.not_mem_nil, false_implies, implies_true,
    and_true]
  exact ⟨congrArg UInt8.ofNat hversion, congrArg UInt8.ofNat hclass, congrArg UInt32.ofNat hlabel,
    be16At_eq (by omega), congrArg IpProtocol.ofNumber (octetAt_eq (by omega)),
    octetAt_eq (by omega), congrArg Ipv6Address.mk (blockAt_eq (by omega)),
    congrArg Ipv6Address.mk (blockAt_eq (by omega))⟩

theorem laysOut : view.LaysOut Setter.write where
  set_eq _ c := by cases c <;> rfl
  inside c := by cases c <;> simp [Setter.write, Write.stop, view, headerLength]
  bounds := by decide
  get_eq _ := get_eq
  follows := follows
  covers := covers

end Ipv6.Header

/-! ## ICMPv6 -/

namespace Icmpv6.Header

/-- A call that sets fields. -/
inductive Setter where
  | messageType (t : ControlMessage)
  | code (v : UInt8)
  | checksum (v : UInt16)

def set (data : Octets) : Setter → Octets
  | .messageType t => setMessageType data t
  | .code v => setCode data v
  | .checksum v => setChecksum data v

/-- What a call writes. -/
def Setter.write : Setter → Write
  | messageType t => ⟨0, [t.number]⟩
  | code v => ⟨1, [v]⟩
  | checksum v => ⟨2, be16 v⟩

/-- The fields with what a call gives them, their first bits and their widths. -/
def fields : List (HeaderField Setter) :=
  [⟨messageType, fun | .messageType t => some t | _ => none, 0, 8⟩,
    ⟨code, fun | .code v => some v | _ => none, 8, 8⟩,
    ⟨checksum, fun | .checksum v => some v | _ => none, 16, 16⟩]

def view : HeaderView := ⟨headerLength, Setter, set, fields⟩

theorem follows (c : Setter) : ∀ f ∈ fields, f.Follows c.write (f.given? c) := by
  simp only [fields, List.forall_mem_cons, List.not_mem_nil, false_implies, implies_true,
    and_true]
  cases c <;> simp [HeaderField.Follows, Setter.write, Write.stop, bitsAt]

theorem covers (c : Setter) (j : Nat) (hstart : c.write.start ≤ j) (hstop : j < c.write.stop) :
    ∃ f ∈ fields, f.Holds j ∧ f.given? c ≠ none := by
  simp only [fields, List.exists_mem_cons_iff, HeaderField.Holds]
  cases c with
  | _ =>
      simp only [Setter.write, Write.stop, List.length_singleton, length_be16, ne_eq,
        not_true_eq_false, and_false, reduceCtorEq, not_false_eq_true, and_true, false_or] at *
      omega

theorem get_eq (hdata : headerLength ≤ data.length) :
    ∀ f ∈ fields, f.get data = ofNumber (bitsAt data f.offset f.width) := by
  have hlength : 4 ≤ data.length := hdata
  simp only [fields, List.forall_mem_cons, List.not_mem_nil, false_implies, implies_true,
    and_true]
  exact ⟨congrArg ControlMessage.ofNumber (octetAt_eq (by omega)), octetAt_eq (by omega),
    be16At_eq (by omega)⟩

theorem laysOut : view.LaysOut Setter.write where
  set_eq _ c := by cases c <;> rfl
  inside c := by cases c <;> simp [Setter.write, Write.stop, view, headerLength]
  bounds := by decide
  get_eq _ := get_eq
  follows := follows
  covers := covers

end Icmpv6.Header

/-! ## TCP -/

namespace Tcp.Header

/-- A call that sets fields. -/
inductive Setter where
  | sourcePort (v : UInt16)
  | destinationPort (v : UInt16)
  | seq (v : UInt32)
  | ack (v : UInt32)
  | offsetFlags (dataOffset : UInt8) (flags : TcpFlags)
  | window (v : UInt16)
  | checksum (v : UInt16)
  | urgent (v : UInt16)

def set (data : Octets) : Setter → Octets
  | .sourcePort v => setSourcePort data v
  | .destinationPort v => setDestinationPort data v
  | .seq v => setSeq data v
  | .ack v => setAck data v
  | .offsetFlags dataOffset flags => setOffsetFlags data dataOffset flags
  | .window v => setWindow data v
  | .checksum v => setChecksum data v
  | .urgent v => setUrgent data v

/-- What a call writes. -/
def Setter.write : Setter → Write
  | sourcePort v => ⟨0, be16 v⟩
  | destinationPort v => ⟨2, be16 v⟩
  | seq v => ⟨4, be32 v⟩
  | ack v => ⟨8, be32 v⟩
  | offsetFlags dataOffset flags => ⟨12, be16 (offsetWord dataOffset flags)⟩
  | window v => ⟨14, be16 v⟩
  | checksum v => ⟨16, be16 v⟩
  | urgent v => ⟨18, be16 v⟩

/-- The fields with what a call gives them, their first bits and their widths.  The three bits
between data offset and control bits belong to no field. -/
def fields : List (HeaderField Setter) :=
  [⟨sourcePort, fun | .sourcePort v => some v | _ => none, 0, 16⟩,
    ⟨destinationPort, fun | .destinationPort v => some v | _ => none, 16, 16⟩,
    ⟨seq, fun | .seq v => some v | _ => none, 32, 32⟩,
    ⟨ack, fun | .ack v => some v | _ => none, 64, 32⟩,
    ⟨dataOffset, fun | .offsetFlags v _ => some v | _ => none, 96, 4⟩,
    ⟨flags, fun | .offsetFlags _ v => some v | _ => none, 103, 9⟩,
    ⟨window, fun | .window v => some v | _ => none, 112, 16⟩,
    ⟨checksum, fun | .checksum v => some v | _ => none, 128, 16⟩,
    ⟨urgent, fun | .urgent v => some v | _ => none, 144, 16⟩]

def view : HeaderView := ⟨minHeaderLength, Setter, set, fields⟩

theorem toNat_offsetWord (dataOffset : UInt8) (flags : TcpFlags) :
    (offsetWord dataOffset flags).toNat =
      dataOffset.toNat % 16 * 4096 + flags.bits.toNat % 512 := by
  rw [offsetWord, UInt16.toNat_ofNat', Nat.mod_eq_of_lt (by omega)]

theorem follows (c : Setter) : ∀ f ∈ fields, f.Follows c.write (f.given? c) := by
  simp only [fields, List.forall_mem_cons, List.not_mem_nil, false_implies, implies_true,
    and_true]
  cases c with
  | offsetFlags dataOffset flags =>
      have hoffset : (offsetWord dataOffset flags).toNat / 4096 % 16 = dataOffset.toNat % 16 := by
        rw [toNat_offsetWord]
        omega
      have hflags : (offsetWord dataOffset flags).toNat % 512 = flags.bits.toNat % 512 := by
        rw [toNat_offsetWord]
        omega
      simp [HeaderField.Follows, Setter.write, Write.stop, bitsAt, hoffset, hflags]
  | _ => simp [HeaderField.Follows, Setter.write, Write.stop, bitsAt]

theorem covers (c : Setter) (j : Nat) (hstart : c.write.start ≤ j) (hstop : j < c.write.stop) :
    ∃ f ∈ fields, f.Holds j ∧ f.given? c ≠ none := by
  simp only [fields, List.exists_mem_cons_iff, HeaderField.Holds]
  cases c with
  | _ =>
      simp only [Setter.write, Write.stop, length_be16, length_be32, ne_eq, not_true_eq_false,
        and_false, reduceCtorEq, not_false_eq_true, and_true, false_or] at *
      omega

theorem get_eq (hdata : minHeaderLength ≤ data.length) :
    ∀ f ∈ fields, f.get data = ofNumber (bitsAt data f.offset f.width) := by
  have hlength : 20 ≤ data.length := hdata
  have hoffset : (octetAt data 12).toNat / 16 = bitsAt data 96 4 := by
    have hlt := (octetAt data 12).toNat_lt
    rw [bitsAt_octet (i := 12) (by omega) (by omega) (by omega)]
    omega
  have hflags : (be16At data 12).toNat % 512 = bitsAt data 103 9 := by
    rw [bitsAt_word (i := 12) (by omega) (by omega) (by omega)]
    omega
  simp only [fields, List.forall_mem_cons, List.not_mem_nil, false_implies, implies_true,
    and_true]
  exact ⟨be16At_eq (by omega), be16At_eq (by omega), be32At_eq (by omega), be32At_eq (by omega),
    congrArg UInt8.ofNat hoffset, congrArg (fun n => TcpFlags.mk (.ofNat n)) hflags,
    be16At_eq (by omega), be16At_eq (by omega), be16At_eq (by omega)⟩

theorem laysOut : view.LaysOut Setter.write where
  set_eq _ c := by cases c <;> rfl
  inside c := by cases c <;> simp [Setter.write, Write.stop, view, minHeaderLength]
  bounds := by decide
  get_eq _ := get_eq
  follows := follows
  covers := covers

end Tcp.Header

/-! ## UDP -/

namespace Udp.Header

/-- A call that sets fields. -/
inductive Setter where
  | sourcePort (v : UInt16)
  | destinationPort (v : UInt16)
  | length (v : UInt16)
  | checksum (v : UInt16)

def set (data : Octets) : Setter → Octets
  | .sourcePort v => setSourcePort data v
  | .destinationPort v => setDestinationPort data v
  | .length v => setLength data v
  | .checksum v => setChecksum data v

/-- What a call writes. -/
def Setter.write : Setter → Write
  | sourcePort v => ⟨0, be16 v⟩
  | destinationPort v => ⟨2, be16 v⟩
  | length v => ⟨4, be16 v⟩
  | checksum v => ⟨6, be16 v⟩

/-- The fields with what a call gives them, their first bits and their widths. -/
def fields : List (HeaderField Setter) :=
  [⟨sourcePort, fun | .sourcePort v => some v | _ => none, 0, 16⟩,
    ⟨destinationPort, fun | .destinationPort v => some v | _ => none, 16, 16⟩,
    ⟨length, fun | .length v => some v | _ => none, 32, 16⟩,
    ⟨checksum, fun | .checksum v => some v | _ => none, 48, 16⟩]

def view : HeaderView := ⟨headerLength, Setter, set, fields⟩

theorem follows (c : Setter) : ∀ f ∈ fields, f.Follows c.write (f.given? c) := by
  simp only [fields, List.forall_mem_cons, List.not_mem_nil, false_implies, implies_true,
    and_true]
  cases c <;> simp [HeaderField.Follows, Setter.write, Write.stop, bitsAt]

theorem covers (c : Setter) (j : Nat) (hstart : c.write.start ≤ j) (hstop : j < c.write.stop) :
    ∃ f ∈ fields, f.Holds j ∧ f.given? c ≠ none := by
  simp only [fields, List.exists_mem_cons_iff, HeaderField.Holds]
  cases c with
  | _ =>
      simp only [Setter.write, Write.stop, length_be16, ne_eq, not_true_eq_false, and_false,
        reduceCtorEq, not_false_eq_true, and_true, false_or] at *
      omega

theorem get_eq (hdata : headerLength ≤ data.length) :
    ∀ f ∈ fields, f.get data = ofNumber (bitsAt data f.offset f.width) := by
  have hlength : 8 ≤ data.length := hdata
  simp only [fields, List.forall_mem_cons, List.not_mem_nil, false_implies, implies_true,
    and_true]
  exact ⟨be16At_eq (by omega), be16At_eq (by omega), be16At_eq (by omega), be16At_eq (by omega)⟩

theorem laysOut : view.LaysOut Setter.write where
  set_eq _ c := by cases c <;> rfl
  inside c := by cases c <;> simp [Setter.write, Write.stop, view, headerLength]
  bounds := by decide
  get_eq _ := get_eq
  follows := follows
  covers := covers

end Udp.Header

/-! ## DNS -/

namespace DnsMessage.Header

/-- A call that sets fields. -/
inductive Setter where
  | id (v : UInt16)
  | flags (first second : UInt8)
  | counts (questions answers authorities additionals : UInt16)

def set (data : Octets) : Setter → Octets
  | .id v => setId data v
  | .flags first second => setFlags data first second
  | .counts questions answers authorities additionals =>
      setCounts data questions answers authorities additionals

/-- What a call writes. -/
def Setter.write : Setter → Write
  | id v => ⟨0, be16 v⟩
  | flags first second => ⟨2, [first, second]⟩
  | counts questions answers authorities additionals =>
      ⟨4, be16 questions ++ be16 answers ++ be16 authorities ++ be16 additionals⟩

/-- The fields with what a call gives them, their first bits and their widths. -/
def fields : List (HeaderField Setter) :=
  [⟨id, fun | .id v => some v | _ => none, 0, 16⟩,
    ⟨qr, fun | .flags v _ => some (v.toNat.testBit 7) | _ => none, 16, 1⟩,
    ⟨opCode, fun | .flags v _ => some (.ofNumber (v / 8)) | _ => none, 17, 4⟩,
    ⟨aa, fun | .flags v _ => some (v.toNat.testBit 2) | _ => none, 21, 1⟩,
    ⟨tc, fun | .flags v _ => some (v.toNat.testBit 1) | _ => none, 22, 1⟩,
    ⟨rd, fun | .flags v _ => some (v.toNat.testBit 0) | _ => none, 23, 1⟩,
    ⟨ra, fun | .flags _ v => some (v.toNat.testBit 7) | _ => none, 24, 1⟩,
    ⟨z, fun | .flags _ v => some (v / 16) | _ => none, 25, 3⟩,
    ⟨responseCode, fun | .flags _ v => some (.ofNumber v) | _ => none, 28, 4⟩,
    ⟨questionCount, fun | .counts n _ _ _ => some n | _ => none, 32, 16⟩,
    ⟨answerCount, fun | .counts _ n _ _ => some n | _ => none, 48, 16⟩,
    ⟨authorityCount, fun | .counts _ _ n _ => some n | _ => none, 64, 16⟩,
    ⟨additionalCount, fun | .counts _ _ _ n => some n | _ => none, 80, 16⟩]

def view : HeaderView := ⟨headerLength, Setter, set, fields⟩

/-- A bit of an octet is a field of one bit. -/
theorem testBit_octetAt {i k : Nat} (h : i < data.length) (hk : k < 8) :
    (octetAt data i).toNat.testBit k = ofNumber (bitsAt data (8 * i + (7 - k)) 1) := by
  have hbelow : 8 * (i + 1) - (8 * i + (7 - k) + 1) = k := by omega
  rw [bitsAt_octet h (by omega) (by omega), hbelow, Nat.testBit_eq_decide_div_mod_eq]
  rfl

theorem follows (c : Setter) : ∀ f ∈ fields, f.Follows c.write (f.given? c) := by
  simp only [fields, List.forall_mem_cons, List.not_mem_nil, false_implies, implies_true,
    and_true]
  cases c with
  | flags first second =>
      have hfirst (offset width : Nat) (h : offset + width ≤ 8) :
          bitsAt [first, second] offset width =
            first.toNat / 2 ^ (8 - (offset + width)) % 2 ^ width :=
        bitsAt_octet (i := 0) (by simp) (by omega) h
      have hsecond (offset width : Nat) (hstart : 8 ≤ offset) (hstop : offset + width ≤ 16) :
          bitsAt [first, second] offset width =
            second.toNat / 2 ^ (16 - (offset + width)) % 2 ^ width :=
        bitsAt_octet (i := 1) (by simp) hstart hstop
      simp [HeaderField.Follows, Setter.write, Write.stop, hfirst, hsecond, Nat.toNat_testBit,
        Dns.OpCode.number_ofNumber, Dns.ResponseCode.number_ofNumber, -Nat.testBit_zero]
  | counts questions answers authorities additionals =>
      have hquestions := questions.toNat_lt
      have hanswers := answers.toNat_lt
      have hauthorities := authorities.toNat_lt
      have hadditionals := additionals.toNat_lt
      simp only [HeaderField.Follows, Setter.write, Write.stop, bitsAt, numberOf_append,
        numberOf_be16, List.length_append, length_be16, FieldValue.number_word]
      and_intros <;> omega
  | _ => simp [HeaderField.Follows, Setter.write, Write.stop, bitsAt]

theorem covers (c : Setter) (j : Nat) (hstart : c.write.start ≤ j) (hstop : j < c.write.stop) :
    ∃ f ∈ fields, f.Holds j ∧ f.given? c ≠ none := by
  simp only [fields, List.exists_mem_cons_iff, HeaderField.Holds]
  cases c with
  | _ =>
      simp only [Setter.write, Write.stop, List.length_cons, List.length_nil, List.length_append,
        length_be16, ne_eq, not_true_eq_false, and_false, reduceCtorEq, not_false_eq_true,
        and_true, false_or] at *
      omega

theorem get_eq (hdata : headerLength ≤ data.length) :
    ∀ f ∈ fields, f.get data = ofNumber (bitsAt data f.offset f.width) := by
  have hlength : 12 ≤ data.length := hdata
  have hopCode : (octetAt data 2).toNat / 8 % 16 = bitsAt data 17 4 := by
    rw [bitsAt_octet (i := 2) (by omega) (by omega) (by omega)]
    omega
  have hz : (octetAt data 3).toNat / 16 % 8 = bitsAt data 25 3 := by
    rw [bitsAt_octet (i := 3) (by omega) (by omega) (by omega)]
    omega
  have hresponse : (octetAt data 3).toNat % 16 = bitsAt data 28 4 := by
    rw [bitsAt_octet (i := 3) (by omega) (by omega) (by omega)]
    omega
  simp only [fields, List.forall_mem_cons, List.not_mem_nil, false_implies, implies_true,
    and_true]
  exact ⟨be16At_eq (by omega), testBit_octetAt (i := 2) (k := 7) (by omega) (by decide),
    congrArg (fun n => Dns.OpCode.ofNumber (.ofNat n)) hopCode,
    testBit_octetAt (i := 2) (k := 2) (by omega) (by decide),
    testBit_octetAt (i := 2) (k := 1) (by omega) (by decide),
    testBit_octetAt (i := 2) (k := 0) (by omega) (by decide),
    testBit_octetAt (i := 3) (k := 7) (by omega) (by decide), congrArg UInt8.ofNat hz,
    congrArg (fun n => Dns.ResponseCode.ofNumber (.ofNat n)) hresponse, be16At_eq (by omega),
    be16At_eq (by omega), be16At_eq (by omega), be16At_eq (by omega)⟩

theorem laysOut : view.LaysOut Setter.write where
  set_eq _ c := by cases c <;> rfl
  inside c := by cases c <;> simp [Setter.write, Write.stop, view, headerLength]
  bounds := by decide
  get_eq _ := get_eq
  follows := follows
  covers := covers

end DnsMessage.Header

/-! ## All headers -/

/-- A header with calls that set its fields. -/
inductive HeaderKind where
  | ethernet
  | ipv4
  | ipv6
  | icmpv6
  | tcp
  | udp
  | dns
  deriving DecidableEq, Repr

namespace HeaderKind

def view : HeaderKind → HeaderView
  | ethernet => Ethernet.Header.view
  | ipv4 => Ipv4.Header.view
  | ipv6 => Ipv6.Header.view
  | icmpv6 => Icmpv6.Header.view
  | tcp => Tcp.Header.view
  | udp => Udp.Header.view
  | dns => DnsMessage.Header.view

theorem exists_laysOut (k : HeaderKind) : ∃ write, k.view.LaysOut write := by
  cases k with
  | ethernet => exact ⟨_, Ethernet.Header.laysOut⟩
  | ipv4 => exact ⟨_, Ipv4.Header.laysOut⟩
  | ipv6 => exact ⟨_, Ipv6.Header.laysOut⟩
  | icmpv6 => exact ⟨_, Icmpv6.Header.laysOut⟩
  | tcp => exact ⟨_, Tcp.Header.laysOut⟩
  | udp => exact ⟨_, Udp.Header.laysOut⟩
  | dns => exact ⟨_, DnsMessage.Header.laysOut⟩

/-- The fields stand one behind the other. -/
theorem fields_apart (k : HeaderKind) :
    k.view.fields.Pairwise fun f g => f.offset + f.width ≤ g.offset := by
  cases k <;> decide

end HeaderKind

/-- Fields have bits of their own.  After any calls on a string that holds a header, each field
is read as the last call set it, cut to its bits, or else as it was, and so are the bits
themselves.  An octet in which no field was set is as it was. -/
theorem header_fields_lawful (k : HeaderKind) (data : Octets) (calls : List k.view.Call)
    (hdata : k.view.length ≤ data.length) :
    (k.view.run data calls).length = data.length ∧
      (k.view.fields.Pairwise fun f g => f.offset + f.width ≤ g.offset) ∧
      (∀ f ∈ k.view.fields,
        f.get (k.view.run data calls) = ((f.last? calls).map f.reduce).getD (f.get data) ∧
          (∀ v, number (f.reduce v) = number v % 2 ^ f.width) ∧
          bitsAt (k.view.run data calls) f.offset f.width =
            ((f.last? calls).map fun v => number v % 2 ^ f.width).getD
              (bitsAt data f.offset f.width)) ∧
      ∀ j, (∀ f ∈ k.view.fields, f.Holds j → f.last? calls = none) →
        (k.view.run data calls)[j]? = data[j]? := by
  obtain ⟨write, hlaid⟩ := k.exists_laysOut
  refine ⟨hlaid.length_run data calls, k.fields_apart, fun f hf => ⟨?_, ?_, ?_⟩,
    fun j hnone => ?_⟩
  · exact hlaid.get_run hf hdata calls
  · exact f.number_reduce (hlaid.bounds f hf).2
  · exact hlaid.bitsAt_run hf hdata calls
  · exact hlaid.getElem?_run calls hnone

/-- Values that are too large for their fields, a field that is set twice, and a number that is
read back under its name. -/
theorem header_fields_lawful_oversized :
    let data : Octets := List.replicate 20 0xa5
    let now := HeaderKind.ipv4.view.run data [.versionIhl 0x1f 0x25,
      .flagsFragmentOffset 0xff 0xe001, .ttl 7, .ttl 9, .protocol (.unknown 6)]
    HeaderKind.ipv4.view.length ≤ data.length ∧ Ipv4.Header.version now = 15 ∧
      Ipv4.Header.ihl now = 5 ∧ Ipv4.Header.tos now = 0xa5 ∧ Ipv4.Header.flags now = 7 ∧
      Ipv4.Header.fragmentOffset now = 1 ∧ Ipv4.Header.ttl now = 9 ∧
      Ipv4.Header.protocol now = .tcp ∧ now[4]? = some 0xa5 := by
  intro data now
  have hdata : HeaderKind.ipv4.view.length ≤ data.length := by decide
  obtain ⟨-, -, hfields, hoctets⟩ := header_fields_lawful .ipv4 data [.versionIhl 0x1f 0x25,
    .flagsFragmentOffset 0xff 0xe001, .ttl 7, .ttl 9, .protocol (.unknown 6)] hdata
  have hread (n : Nat) {f} (hf : HeaderKind.ipv4.view.fields[n]? = some f) :=
    (hfields f (List.mem_of_getElem? hf)).1
  exact ⟨hdata, (hread 0 rfl).trans rfl, (hread 1 rfl).trans rfl, (hread 2 rfl).trans rfl,
    (hread 5 rfl).trans rfl, (hread 6 rfl).trans rfl, (hread 7 rfl).trans rfl,
    (hread 8 rfl).trans rfl, (hoctets 4 (by decide)).trans rfl⟩

end PacketLayers
