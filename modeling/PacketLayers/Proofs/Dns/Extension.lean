import PacketLayers.Proofs.Dns.Cut

/-!
# Octets behind a message

The decoder compares positions and the targets of pointers with the length of the whole
message, and it reads names and numbers inside data from the whole message.  So what is
behind a message could matter to what is read in it.  It does not: whatever was read
successfully in a message is read in the same way in every longer one
(`Dns.ReadingsKept`), part by part, and a message that is accepted stays the same
message (`DnsMessage.decode_message_append`).

This is said of success only.  What fails for lack of octets may succeed with more of
them, and does for the message of `DnsMessage.decode_strayOctets`.
-/

namespace PacketLayers

open Dns

namespace Dns

variable {message : Octets} {start stop : Nat}

/-! ## What stands in a message stands in a longer one -/

theorem Name.chain_append {earlier : List Nat} {segments : List Name.Segment}
    (h : Name.Chain message earlier start segments) (behind : Octets) :
    Name.Chain (message ++ behind) earlier start segments := by
  rw [← @List.take_left _ message behind, Name.chain_take_iff] at h
  exact h.1

theorem Name.spells_append {name : Octets} (h : Name.Spells message start name stop)
    (behind : Octets) : Name.Spells (message ++ behind) start name stop := by
  rw [← @List.take_left _ message behind, Name.spells_take_iff] at h
  exact h.1

theorem Question.standsAt_append {q : Question} (h : q.StandsAt message start stop)
    (behind : Octets) : q.StandsAt (message ++ behind) start stop := by
  rw [← @List.take_left _ message behind, Question.standsAt_take_iff] at h
  exact h.1

theorem RecordData.standsAt_append {content : RecordData} {data : Octets}
    (h : content.StandsAt message start data) (behind : Octets) :
    content.StandsAt (message ++ behind) start data := by
  rw [← @List.take_left _ message behind, RecordData.standsAt_take_iff] at h
  exact h.1

theorem ResourceRecord.standsAt_append {r : ResourceRecord} (h : r.StandsAt message start stop)
    (behind : Octets) : r.StandsAt (message ++ behind) start stop := by
  rw [← @List.take_left _ message behind, ResourceRecord.standsAt_take_iff] at h
  exact h.1

/-! ## What is read in a message is read in a longer one -/

/-- Everything that is read in a message is read in a longer one as it was: the labels and
pointers of names, names, questions, the data of records of every type, and records. -/
structure ReadingsKept (message longer : Octets) : Prop where
  /-- The pointers from a position on are followed to the same targets. -/
  chain : ∀ {start segments}, Name.Chain message [] start segments →
    ∀ segments', Name.Chain longer [] start segments' ↔ segments' = segments
  name : ∀ {start found}, Name.decode message start = .ok found →
    Name.decode longer start = .ok found
  question : ∀ {start q stop},
    Question.read message (.ofPosition message start) = .ok (q, .ofPosition message stop) →
      Question.read longer (.ofPosition longer start) = .ok (q, .ofPosition longer stop)
  data : ∀ {type start data content},
    RecordData.read type message (.ofPosition message start) data = .ok content →
      RecordData.read type longer (.ofPosition longer start) data = .ok content
  record : ∀ {start r stop},
    ResourceRecord.read message (.ofPosition message start) =
        .ok (r, .ofPosition message stop) →
      ResourceRecord.read longer (.ofPosition longer start) = .ok (r, .ofPosition longer stop)

theorem readingsKept_append (message behind : Octets) :
    ReadingsKept message (message ++ behind) where
  chain := by
    intro start segments h segments'
    have hlonger := Name.chain_append h behind
    constructor
    · intro h'
      exact h'.unique hlonger
    · rintro rfl
      exact hlonger
  name := by
    rintro start ⟨name, stop⟩ h
    rw [Name.decode_eq_ok_iff_spells] at h ⊢
    exact Name.spells_append h behind
  question := by
    intro start q stop h
    rw [← DnsMessage.standsAt_iff_read Question.read_eq_ok_iff] at h ⊢
    exact Question.standsAt_append h behind
  data := by
    intro type start data content h
    rw [RecordData.read_eq_ok_iff] at h ⊢
    exact ⟨h.1, RecordData.standsAt_append h.2 behind⟩
  record := by
    intro start r stop h
    rw [← DnsMessage.standsAt_iff_read ResourceRecord.read_eq_ok_iff] at h ⊢
    exact ResourceRecord.standsAt_append h behind

end Dns

/-! ## Messages -/

namespace DnsMessage

variable {message : Octets}

theorem laysOut_append {d : DnsMessage} {stop : Nat} (h : d.LaysOut message stop)
    (behind : Octets) : d.LaysOut (message ++ behind) stop := by
  rw [← @List.take_left _ message behind, laysOut_take_iff] at h
  exact h.1

theorem LaysOut.announced {d : DnsMessage} {stop : Nat} (h : d.LaysOut message stop) :
    d.questions.length = (Header.questionCount message).toNat ∧
      d.answers.length = (Header.answerCount message).toNat ∧
      d.authorities.length = (Header.authorityCount message).toNat ∧
      d.additionals.length = (Header.additionalCount message).toNat := by
  obtain ⟨hquestions, hanswers, hauthorities, hadditionals⟩ := counts_of_stands h.header
  rw [hquestions, hanswers, hauthorities, hadditionals]
  exact ⟨h.counts.questions, h.counts.answers, h.counts.authorities, h.counts.additionals⟩

/-- A message that is accepted has as many entries in its sections as its header
announces.  With any octets behind it, and whatever the decoder held before, it is
accepted with the same fields and entries, and everything that could be read in it is
read as it was. -/
theorem decode_message_append {old : DnsMessage} (h : (decode old message).error = none) :
    ∃ d, decode old message = .accept d ∧
      (d.questions.length = (Header.questionCount message).toNat ∧
        d.answers.length = (Header.answerCount message).toNat ∧
        d.authorities.length = (Header.authorityCount message).toNat ∧
        d.additionals.length = (Header.additionalCount message).toNat) ∧
      ∀ (other : DnsMessage) (behind : Octets),
        decode other (message ++ behind) =
            .accept { d with extent := .whole (message ++ behind).length } ∧
          ReadingsKept message (message ++ behind) := by
  obtain ⟨d, haccept⟩ := error_eq_none_iff.mp h
  obtain ⟨-, stop, hlaid⟩ := decode_eq_accept_iff.mp haccept
  refine ⟨d, haccept, hlaid.announced, ?_⟩
  intro other behind
  have hlonger := (laysOut_append hlaid behind).withExtent (.whole (message ++ behind).length)
  exact ⟨decode_eq_accept_iff.mpr ⟨rfl, stop, hlonger⟩, readingsKept_append message behind⟩

/-- The name behind the record of a response is still its data with an octet behind it that
could go on as a label. -/
theorem decode_strayOctets_append :
    (decode fresh strayOctets).error = none ∧
      decode fresh (strayOctets ++ [63]) =
        .accept { strayResponse with extent := .whole 27 } := by
  have hnone : (decode fresh strayOctets).error = none :=
    congrArg Decoding.error decode_strayOctets_eq
  refine ⟨hnone, ?_⟩
  obtain ⟨d, haccept, -, happend⟩ := decode_message_append hnone
  obtain rfl : strayResponse = d :=
    congrArg Decoding.layer (decode_strayOctets_eq.symm.trans haccept)
  exact (happend fresh [63]).1

end DnsMessage

end PacketLayers
