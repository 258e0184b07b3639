import PacketLayers.Builtin
import PacketLayers.Proofs.Checksum.Verification
import PacketLayers.Proofs.Dns.Rewriting
import PacketLayers.Proofs.Stack.Wrapping

/-!
# What is stored is what was written

An encoder stores the lengths and checksums that it computes.  Behind a successful call
with all of them computed there is nothing left to compute: for the same payload the
layer is written as before and stays as it is, and that whichever of its lengths and
checksums are computed again (`serialize_settled`).  Only the padding of a frame is not
stored in a field, so that a frame has to be written with its lengths fixed again.

A checksum covers the fields that are stored beside it, but not the field that it is
stored in.  So each header is looked at with its lengths stored first, and the checksum
afterwards.

For a stack the layers are gone through from the innermost one: each wraps the same
octets as before.  The main statement is `BuiltinLayer.settled_stack_rewritten`.
-/

namespace PacketLayers

variable {options : SerializeOptions} {inner : Octets} {w : Wrapping}

theorem Serialization.eq_write {L : Type} {s : Serialization L} {layer : L} {header : Octets}
    (hlayer : s.layer = layer) (houtcome : s.outcome = .ok ⟨header, []⟩) :
    s = .write layer header := by
  rw [write, ← hlayer, ← houtcome]

/-- A checksum that was computed is kept, whether it is computed again or not. -/
theorem Checksum.forHeader_settled {layer : LayerType} {protocol : IpProtocol}
    {network : Option PseudoHeader} {stored sum : UInt16} {segment : Octets}
    (h : forHeader layer protocol .fixAll network stored segment = .ok sum) :
    forHeader layer protocol options network sum segment = .ok sum := by
  by_cases hneeded : options.computeChecksums = true ∧ network.isSome
  · obtain ⟨hcompute, hsome⟩ := hneeded
    obtain ⟨addresses, rfl⟩ := Option.isSome_iff_exists.mp hsome
    rw [forHeader_computed rfl] at h
    rw [forHeader_computed hcompute, h]
  · exact forHeader_stored hneeded layer protocol sum segment

/-! ## Link and network headers -/

/-- Padding is written where lengths are fixed, so that a frame is written again only there. -/
theorem Ethernet.serialize_settled {e : Ethernet} (h : (e.serialize .fixAll inner).outcome = .ok w)
    (hfix : options.fixLengths = true) :
    (e.serialize .fixAll inner).layer.serialize options inner = e.serialize .fixAll inner := by
  have hagain : ∀ {fixed : Ethernet}, e.withLength inner.length = .ok fixed →
      fixed.withLength inner.length = .ok fixed := by
    intro fixed hfixed
    unfold withLength at hfixed ⊢
    split at hfixed
    · next hlength =>
        split at hfixed
        · next hshort =>
            obtain rfl := Except.ok.inj hfixed
            have hstill : (EtherType.ofNumber (UInt16.ofNat inner.length)).isLength = true := by
              rw [EtherType.isLength, EtherType.number_ofNumber, decide_eq_true_eq,
                UInt16.lt_iff_toNat_lt, UInt16.toNat_ofNat', Nat.mod_eq_of_lt (by omega)]
              exact hshort
            simp only [hstill, hshort, if_true]
        · cases hfixed
    · next htype =>
        obtain rfl := Except.ok.inj hfixed
        rw [if_neg htype]
  unfold serialize at h ⊢
  simp only [SerializeOptions.fixAll, if_true, hfix] at h ⊢
  split at h
  · cases h
  · next fixed hfixed => simp only [hagain hfixed]

namespace Ipv4

/-- The checksum of a header does not cover its own field. -/
theorem computeChecksum_around {front back : Octets} (hfront : front.length = 10)
    (sum sum' : UInt16) (n : Nat) :
    Header.computeChecksum (front ++ (be16 sum ++ back)) n =
      Header.computeChecksum (front ++ (be16 sum' ++ back)) n := by
  have hbefore : ∀ sum : UInt16, (front ++ (be16 sum ++ back)).take 10 = front := by
    intro sum
    rw [← hfront, List.take_left]
  have hbehind : ∀ sum : UInt16, (front ++ (be16 sum ++ back)).drop 12 = back := by
    intro sum
    rw [← List.append_assoc]
    exact List.drop_left' (by simp [hfront])
  simp only [Header.computeChecksum, List.take_take, List.drop_take, Nat.min_comm 10 n, hbehind]
  rw [← List.take_take, ← List.take_take, hbefore, hbefore]

/-- It does not matter what was in the checksum field when the checksum was computed. -/
theorem computeChecksum_toOctets (p : Ipv4) (encoded : Octets) (sum : UInt16) (n : Nat) :
    Header.computeChecksum ({ p with checksum := sum }.toOctets encoded) n =
      Header.computeChecksum (p.toOctets encoded) n := by
  obtain ⟨front, back, hfront, -, hparts⟩ := toOctets_around_checksum p encoded
  have hown : p.toOctets encoded = front ++ (be16 p.checksum ++ back) := hparts p.checksum
  rw [hparts, hown]
  exact computeChecksum_around hfront sum p.checksum n

/-- With its lengths stored, a header keeps the checksum that was computed for it. -/
theorem withChecksum_settled {p summed : Ipv4} {encoded : Octets}
    (h : p.withChecksum .fixAll encoded = some summed) (options : SerializeOptions) :
    summed.withChecksum options encoded = some summed := by
  simp only [withChecksum, SerializeOptions.fixAll, if_true, Option.map_eq_some_iff] at h
  obtain ⟨sum, hsum, rfl⟩ := h
  cases hcompute : options.computeChecksums with
  | false => simp only [withChecksum, hcompute, Bool.false_eq_true, if_false]
  | true =>
      simp only [withChecksum, hcompute, if_true, computeChecksum_toOctets, hsum, Option.map_some]

theorem serialize_settled {p : Ipv4} (h : (p.serialize .fixAll inner).outcome = .ok w) :
    (p.serialize .fixAll inner).layer.serialize options inner = p.serialize .fixAll inner := by
  obtain ⟨sized, encoded, summed, hencoded, hfixed, hsummed, hlayer, hw⟩ := of_serialize h
  obtain ⟨htotal, hsized⟩ := hfixed rfl
  rw [hw] at h
  rw [Serialization.eq_write hlayer h]
  have hsettled := withChecksum_settled hsummed options
  obtain ⟨sum, hsum⟩ := of_withChecksum hsummed
  have hoptions : summed.encodedOptions = .ok encoded := by
    rw [hsum, hsized]
    exact hencoded
  have hlengths : { summed with
      ihl := UInt8.ofNat ((minHeaderLength + encoded.length) / 4)
      length := UInt16.ofNat (minHeaderLength + encoded.length + inner.length) } = summed := by
    rw [hsum, hsized]
  simp only [Serialization.write, serialize, serializeHeader, hoptions, hlengths, hsettled,
    Nat.not_lt.mpr htotal, if_false, ite_self]

end Ipv4

theorem Ipv6.serialize_settled {p : Ipv6} (h : (p.serialize .fixAll inner).outcome = .ok w) :
    (p.serialize .fixAll inner).layer.serialize options inner = p.serialize .fixAll inner := by
  obtain ⟨hlong, hlayer, hw⟩ := of_serialize_fixAll h
  rw [hw] at h
  rw [Serialization.eq_write rfl h, hlayer]
  simp only [Serialization.write, serialize, Nat.not_lt.mpr hlong, if_false, ite_self]

/-! ## Transport headers -/

theorem Tcp.serialize_settled {t : Tcp} (h : (t.serialize .fixAll inner).outcome = .ok w) :
    (t.serialize .fixAll inner).layer.serialize options inner = t.serialize .fixAll inner := by
  obtain ⟨encoded, sum, hencoded, hsum, hlayer, hw⟩ := of_serialize h
  rw [hw] at h
  rw [Serialization.eq_write hlayer h]
  generalize hsized : t.withDataOffset .fixAll encoded = sized at hsum
  have hoptions : { sized with checksum := sum }.encodedOptions = .ok encoded := by
    rw [← hsized]
    exact hencoded
  have hlengths : { sized with checksum := sum }.withDataOffset options encoded =
      { sized with checksum := sum } := by
    rw [withDataOffset, ← hsized]
    simp only [withDataOffset, SerializeOptions.fixAll, if_true, ite_self]
  simp only [Serialization.write, serialize, hoptions, hlengths,
    Checksum.forHeader_settled hsum]

theorem Udp.serialize_settled {u : Udp} (h : (u.serialize .fixAll inner).outcome = .ok w) :
    (u.serialize .fixAll inner).layer.serialize options inner = u.serialize .fixAll inner := by
  obtain ⟨sized, sum, hsized, hsum, hlayer, hw⟩ := of_serialize h
  rw [hw] at h
  rw [Serialization.eq_write hlayer h]
  have hlengths : { sized with checksum := sum }.withLength options inner.length =
      .ok { sized with checksum := sum } := by
    simp only [withLength, SerializeOptions.fixAll, if_true] at hsized ⊢
    split at hsized
    · cases hsized
    · next hfits =>
        obtain rfl := Except.ok.inj hsized
        simp only [hfits, if_false, ite_self]
  simp only [Serialization.write, serialize, hlengths, Checksum.forHeader_settled hsum]

theorem Icmpv6.serialize_settled {m : Icmpv6} (h : (m.serialize .fixAll inner).outcome = .ok w) :
    (m.serialize .fixAll inner).layer.serialize options inner = m.serialize .fixAll inner := by
  obtain ⟨sum, hsum, hlayer, hw⟩ := of_serialize h
  rw [hw] at h
  rw [Serialization.eq_write hlayer h]
  simp only [Serialization.write, serialize, Checksum.forHeader_settled hsum]

/-! ## Messages -/

namespace Dns.ResourceRecord

/-- A record that was written with its length stored is written the same again. -/
theorem write_sized {r : ResourceRecord} {octets : Octets} (fixLengths : Bool)
    (h : (r.write true).outcome = .ok octets) :
    r.sized.write fixLengths = ⟨r.sized, .ok octets⟩ := by
  obtain ⟨hrecord, hdata, hlength, -⟩ := write_eq_ok h
  have hsame : r.sized.dataToOctets = .ok r.encodedData := hdata
  have hencoded : r.sized.encodedData = r.encodedData := encodedData_of_dataToOctets hsame
  have hstored : r.sized.write false = r.sized.write true :=
    write_false_eq hsame (by rw [hencoded]; exact hlength)
  have hshort : ¬ 65535 < r.encodedData.length := by
    rw [← hlength]
    exact Nat.not_lt.mpr (Nat.le_of_lt_succ r.sized.dataLength.toNat_lt)
  have hagain : r.sized.write true = r.write true := by
    simp only [write, hsame, hdata, hshort, if_true, if_false]
    rfl
  have hwritten : r.write true = ⟨r.sized, .ok octets⟩ := by
    rw [← hrecord, ← h]
  cases fixLengths with
  | false => rw [hstored, hagain, hwritten]
  | true => rw [hagain, hwritten]

end Dns.ResourceRecord

namespace DnsMessage

open Dns (ResourceRecord)

theorem writeSection_settled {records : List ResourceRecord} {octets : Octets} (fixLengths : Bool)
    (h : (writeSection true records).outcome = .ok octets) :
    writeSection fixLengths (records.map (·.sized)) = ⟨records.map (·.sized), .ok octets⟩ := by
  induction records generalizing octets with
  | nil =>
      obtain rfl := Except.ok.inj h
      rfl
  | cons r records ih =>
      obtain ⟨first, behind, hfirst, hbehind, rfl⟩ := writeSection_cons_eq_ok_iff.mp h
      have hwrite := ResourceRecord.write_sized fixLengths hfirst
      rw [List.map_cons, writeSection_cons_of_ok (by rw [hwrite]), hwrite, ih hbehind]
      rfl

theorem CountsHold.settled {d : DnsMessage} (h : d.counted.CountsHold) : d.settled.CountsHold where
  questions := h.questions
  answers := (List.length_map _).trans h.answers
  authorities := (List.length_map _).trans h.authorities
  additionals := (List.length_map _).trans h.additionals

theorem serialize_settled {d : DnsMessage} (h : (d.serialize .fixAll inner).outcome = .ok w) :
    (d.serialize .fixAll inner).layer.serialize options inner = d.serialize .fixAll inner := by
  obtain ⟨hcounts, questions, answers, authorities, additionals, hquestions, hanswers,
    hauthorities, hadditionals, hwritten⟩ := serialize_eq_ok rfl h
  have hasked : d.settled.questions.mapM Dns.Question.toOctets = .ok questions := hquestions
  have hentries : ∀ fixLengths, d.settled.writeEntries fixLengths =
      .write d.settled
        (d.settled.headerToOctets ++ questions.flatten ++ answers ++ authorities ++
          additionals) := by
    intro fixLengths
    have hfirst := writeSection_settled fixLengths hanswers
    have hsecond := writeSection_settled fixLengths hauthorities
    have hthird := writeSection_settled fixLengths hadditionals
    simp only [writeEntries, hasked]
    simp only [settled, hfirst, hsecond, hthird]
  rw [hwritten]
  simp only [Serialization.write, serialize, fixCounts_of_countsHold hcounts.settled]
  cases options.fixLengths <;> exact hentries _

end DnsMessage

/-! ## Stacks -/

namespace BuiltinLayer

variable {l : BuiltinLayer} {stack : List BuiltinLayer} {octets : Octets}

/-- A layer that was written with all its lengths and checksums computed is written the same
again, whichever of them are computed then. -/
theorem serialize_settled (h : (l.serialize .fixAll inner).outcome = .ok w)
    (hpadding : options.fixLengths = true ∨ l.layerType ≠ .ethernet) :
    (l.serialize .fixAll inner).layer.serialize options inner = l.serialize .fixAll inner := by
  cases l with
  | payload l => rfl
  | loopback l => rfl
  | ethernet l =>
      have hfix := hpadding.resolve_right fun hlink => hlink rfl
      exact congrArg (Serialization.map ethernet) (Ethernet.serialize_settled h hfix)
  | ipv4 l => exact congrArg (Serialization.map ipv4) (Ipv4.serialize_settled h)
  | ipv6 l => exact congrArg (Serialization.map ipv6) (Ipv6.serialize_settled h)
  | icmpv6 l => exact congrArg (Serialization.map icmpv6) (Icmpv6.serialize_settled h)
  | tcp l => exact congrArg (Serialization.map tcp) (Tcp.serialize_settled h)
  | udp l => exact congrArg (Serialization.map udp) (Udp.serialize_settled h)
  | dns l => exact congrArg (Serialization.map dns) (DnsMessage.serialize_settled h)
  -- The other layers are not written at all.
  | _ => cases h

theorem serializeStack_settled (hpadding : options.fixLengths = true ∨
      ∀ l ∈ stack, l.layerType ≠ .ethernet)
    (h : (serializeStack .fixAll stack).octets = .ok octets) :
    (serializeStack options (serializeStack .fixAll stack).layers).octets = .ok octets ∧
      (serializeStack options (serializeStack .fixAll stack).layers).layers =
        (serializeStack .fixAll stack).layers := by
  induction stack generalizing octets with
  | nil => exact ⟨h, rfl⟩
  | cons outer stack ih =>
      obtain ⟨body, w, hbody, hw, rfl⟩ := serializeStack_cons_octets_iff.mp h
      have houter : options.fixLengths = true ∨ outer.layerType ≠ .ethernet :=
        hpadding.imp_right fun hnone => hnone outer List.mem_cons_self
      obtain ⟨hoctets, hlayers⟩ :=
        ih (hpadding.imp_right fun hnone l hl => hnone l (List.mem_cons_of_mem _ hl)) hbody
      -- The layers inside give the same octets, so that the outer one has the same payload.
      have hsettled : Layer.serialize (Layer.serialize outer .fixAll body).layer options body =
          Layer.serialize outer .fixAll body := serialize_settled hw houter
      rw [serializeStack_cons_layers hbody]
      constructor
      · rw [serializeStack_cons_octets_iff]
        exact ⟨body, w, hoctets, by rw [hsettled, hw], rfl⟩
      · rw [serializeStack_cons_layers hoctets, hsettled, hlayers]

/-- A stack that was written with its lengths fixed and its checksums computed holds exactly what
was written: with the same options it is written as the same octets and stays as it is, and unless
a frame with its padding is part of it, so it is with any options, and in particular if no length
is fixed and no checksum computed. -/
theorem settled_stack_rewritten (h : (serializeStack .fixAll stack).octets = .ok octets) :
    let settled := (serializeStack .fixAll stack).layers
    ((serializeStack .fixAll settled).octets = .ok octets ∧
      (serializeStack .fixAll settled).layers = settled) ∧
    ((∀ l ∈ stack, l.layerType ≠ .ethernet) → ∀ options,
      (serializeStack options settled).octets = .ok octets ∧
        (serializeStack options settled).layers = settled) :=
  ⟨serializeStack_settled (Or.inl rfl) h,
    fun hnone _ => serializeStack_settled (Or.inr hnone) h⟩

/-- A response in a datagram, in a packet with options, none of them with lengths or checksums. -/
def answerStack : List BuiltinLayer :=
  let header : Ipv4 :=
    { Ipv4.fresh with
      protocol := .udp
      source := ⟨#v[198, 51, 100, 1]⟩
      destination := ⟨#v[198, 51, 100, 2]⟩
      options := [⟨148, [0, 0]⟩, ⟨1, []⟩] }
  [loopback (.ofFamily .ipv4), ipv4 header,
    udp ((Udp.ofPorts 53 4000).withNetwork header.pseudoHeader), dns DnsMessage.mailResponse]

def answerOctets : Octets :=
  [2, 0, 0, 0] ++
    [71, 0, 0, 152, 0, 0, 0, 0, 64, 17, 142, 230, 198, 51, 100, 1, 198, 51, 100, 2] ++
    [148, 4, 0, 0, 1, 0, 0, 0] ++ [0, 53, 15, 160, 0, 124, 156, 160] ++ DnsMessage.mailOctets

/-- Once the lengths and checksums of the stack are stored, they need not be computed again. -/
theorem settled_stack_rewritten_answer :
    let settled := (serializeStack .fixAll answerStack).layers
    (serializeStack .fixAll answerStack).octets = .ok answerOctets ∧
      (∀ l ∈ answerStack, l.layerType ≠ .ethernet) ∧
      (serializeStack .fixAll settled).octets = .ok answerOctets ∧
      (serializeStack .fixAll settled).layers = settled ∧
      (serializeStack .asStored settled).octets = .ok answerOctets ∧
      (serializeStack .asStored settled).layers = settled := by
  have hwritten : (serializeStack .fixAll answerStack).octets = .ok answerOctets := by
    rw [serializeStack_octets_eq_ok_iff]
    decide +kernel
  have hnone : ∀ l ∈ answerStack, l.layerType ≠ .ethernet := by decide
  obtain ⟨⟨hoctets, hlayers⟩, hany⟩ := settled_stack_rewritten hwritten
  obtain ⟨hplain, hsame⟩ := hany hnone .asStored
  exact ⟨hwritten, hnone, hoctets, hlayers, hplain, hsame⟩

end BuiltinLayer

end PacketLayers
