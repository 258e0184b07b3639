import PacketLayers.Proofs.Bounds.Builtin
import PacketLayers.Proofs.Dns.MessageLayout
import PacketLayers.Proofs.Packet.Accessors

/-!
# When truncation is signalled

A decoder signals truncation where its input ended before its data did.  This module says
exactly when: with every error of missing input, which then asks for more than there is,
and where a header was read that declares more data than follow.  Among the built-in
layers only four do so, and only IPv4 may signal it and still fail, since its options are
read after its total length (`BuiltinLayer.ReachesBeyond`).

`Decoding.Signals` relates the signal of a call to its error.  The main statement is
`BuiltinLayer.truncation_signalled_iff`, which also says that a packet is truncated if one of its
decoders said so, the one included that failed.
-/

namespace PacketLayers

namespace DecodeError

variable {error : DecodeError} {layer : LayerType} {needed available : Nat}

/-- An error of missing input asks for more than there is. -/
def Fair (error : DecodeError) : Prop :=
  ∀ layer needed available, error = .truncated layer needed available → available < needed

theorem fair_truncated (h : available < needed) : (truncated layer needed available).Fair := by
  intro layer' needed' available' heq
  obtain ⟨-, rfl, rfl⟩ := DecodeError.truncated.inj heq
  exact h

@[simp] theorem fair_malformed (reason : String) : (malformed layer reason).Fair := nofun

theorem isTruncated_iff :
    error.isTruncated = true ↔
      ∃ layer needed available, error = .truncated layer needed available := by
  cases error <;> simp [isTruncated]

theorem fair_of_not_isTruncated (h : error.isTruncated = false) : error.Fair := by
  intro layer needed available heq
  rw [heq] at h
  cases h

end DecodeError

namespace Decoding

variable {L M : Type} {beyond : Prop} {layer : L}

/-- A call signals truncation for its errors of missing input, which are fair, and else just
where something holds of its input. -/
structure Signals (beyond : Prop) (d : Decoding L) : Prop where
  truncated_iff : d.truncated = true ↔
    (∃ layer needed available, d.error = some (.truncated layer needed available)) ∨ beyond
  available_lt : ∀ layer needed available,
    d.error = some (.truncated layer needed available) → available < needed

theorem Signals.reject {error : DecodeError} (hfair : error.Fair) (h : ¬ beyond) :
    Signals beyond (.reject layer error) where
  truncated_iff := by
    simp only [Decoding.reject, DecodeError.isTruncated_iff, Option.some.injEq, h, or_false]
  available_lt := fun layer needed available heq =>
    hfair layer needed available (Option.some.inj heq)

/-- A call that succeeds. -/
theorem Signals.read {truncated : Bool} (h : truncated = true ↔ beyond) :
    Signals beyond ⟨layer, none, truncated⟩ where
  truncated_iff := by simp [h]
  available_lt := nofun

theorem Signals.accept (h : ¬ beyond) : Signals beyond (.accept layer) :=
  .read (by simp [h])

theorem Signals.map {d : Decoding L} (h : Signals beyond d) (f : L → M) :
    Signals beyond (d.map f) := ⟨h.truncated_iff, h.available_lt⟩

/-- What is signalled besides for the error of a call. -/
theorem Signals.or {d : Decoding M} {signal : Bool} (h : Signals False d)
    (hsignal : signal = true ↔ beyond) :
    Signals beyond ⟨layer, d.error, signal || d.truncated⟩ where
  truncated_iff := by
    rw [Bool.or_eq_true, hsignal, h.truncated_iff, or_false, or_comm]
  available_lt := h.available_lt

end Decoding

open Decoding (Signals)

variable {data : Octets}

/-! ## Option lists -/

namespace OptionWalk

variable {w : OptionWalk} {error : DecodeError}

theorem fair_of_readOption (h : w.readOption = .error error) : error.Fair := by
  unfold readOption at h
  simp only at h
  split at h
  · next hheader =>
      obtain rfl := Except.error.inj h
      rw [List.length_take] at hheader
      exact DecodeError.fair_truncated (by omega)
  · split at h
    · obtain rfl := Except.error.inj h
      exact DecodeError.fair_malformed _
    · split at h
      · next hdata =>
          obtain rfl := Except.error.inj h
          rw [slice, List.length_take, List.length_drop] at hdata
          exact DecodeError.fair_truncated (by omega)
      · cases h

theorem fair_of_next {behind : OptionWalk} (h : w.next = some (.error error, behind)) :
    error.Fair := by
  unfold next at h
  split at h
  · cases h
  · split at h
    · cases h
    · split at h
      · cases h
      · split at h
        · next hread =>
            obtain ⟨herror, -⟩ := Prod.mk.inj (Option.some.inj h)
            obtain rfl := Except.error.inj herror
            exact fair_of_readOption hread
        · cases h

/-- A walk that only takes options signals nothing but its errors. -/
theorem signals_visitAll (found : List RawOption) (w : OptionWalk) :
    Signals False (visitAll push found w) := by
  induction found, w using visitAll.induct push with
  | case1 found w hend =>
      rw [visitAll_eq_match, hend]
      exact .accept not_false
  | case2 found w error behind hfound =>
      rw [visitAll_eq_match, hfound]
      exact .reject (fair_of_next hfound) not_false
  | case3 found w option behind hfound found' error hvisit => cases hvisit
  | case4 found w option behind hfound found' hvisit ih =>
      cases hvisit
      rw [visitAll_eq_match, hfound]
      exact ih

theorem signals_collect (format : OptionFormat) (layer : LayerType) (data : Octets) :
    Signals False (collect format layer data) :=
  (signals_visitAll [] (start format layer data)).map List.reverse

end OptionWalk

/-! ## Headers -/

namespace Ethernet

/-- Whether the 802.3 length of a frame reaches beyond its octets. -/
def DeclaresBeyond (data : Octets) : Prop :=
  (Header.etherType data).isLength = true ∧
    data.length < headerLength + (Header.etherType data).number.toNat

theorem lt_declaredEnd_iff {e : Ethernet} {available : Nat} :
    available < e.declaredEnd available ↔
      e.etherType.isLength = true ∧ available < headerLength + e.etherType.number.toNat := by
  unfold declaredEnd length?
  cases e.etherType.isLength <;> simp

theorem signals_decode (old : Ethernet) (data : Octets) :
    Signals ((old.decode data).error = none ∧ DeclaresBeyond data) (old.decode data) := by
  unfold decode
  split
  · next hshort => exact .reject (DecodeError.fair_truncated hshort) (fun h => nomatch h.1)
  · refine .read ?_
    simp only [decide_eq_true_eq, lt_declaredEnd_iff, true_and]
    rfl

end Ethernet

namespace Loopback

theorem signals_decode (old : Loopback) (data : Octets) : Signals False (old.decode data) := by
  unfold decode
  split
  · next hshort => exact .reject (DecodeError.fair_truncated hshort) not_false
  · exact .accept not_false

end Loopback

namespace Ipv4

/-- Fixed and optional header are present, and nothing in front of the options is invalid. -/
structure HeaderPresent (data : Octets) : Prop where
  fixed : minHeaderLength ≤ data.length
  version : Header.version data = 4
  ihl : 5 ≤ (Header.ihl data).toNat
  total : Header.totalLength data = 0 ∨
    (Header.ihl data).toNat * 4 ≤ (Header.totalLength data).toNat
  optional : (Header.ihl data).toNat * 4 ≤ data.length

/-- Whether the total length of a packet reaches beyond its octets. -/
def DeclaresBeyond (data : Octets) : Prop :=
  HeaderPresent data ∧ data.length < (Header.totalLength data).toNat

theorem lt_declaredEnd_iff {p : Ipv4} {available : Nat} :
    available < p.declaredEnd available ↔ available < p.length.toNat := by
  unfold declaredEnd
  split
  · next hzero => simp [hzero]
  · rfl

theorem headerPresent_iff (old : Ipv4) :
    HeaderPresent data ↔
      minHeaderLength ≤ data.length ∧ (readFixed old data).headerError data.length = none := by
  constructor
  · intro h
    have hwords : ¬ (readFixed old data).ihl < 5 :=
      UInt8.not_lt.mpr (UInt8.le_iff_toNat_le.mpr h.ihl)
    exact ⟨h.fixed, headerError_eq_none h.version hwords h.total.resolve_left h.optional⟩
  · rintro ⟨hfixed, hnone⟩
    rcases headerError_cases (readFixed old data) with
      ⟨reason, hwrong⟩ | ⟨⟨hversion, hwords, htotal⟩, hchecks⟩
    · rw [hwrong] at hnone
      cases hnone
    · rw [hchecks] at hnone
      split at hnone
      · cases hnone
      · next hinside => exact ⟨hfixed, hversion, hwords, htotal, Nat.le_of_not_lt hinside⟩

theorem fair_of_headerError {p : Ipv4} {available : Nat} {error : DecodeError}
    (h : p.headerError available = some error) : error.Fair := by
  rcases headerError_cases p with ⟨reason, hwrong⟩ | ⟨-, hchecks⟩
  · rw [hwrong] at h
    exact Option.some.inj h ▸ DecodeError.fair_malformed _
  · rw [hchecks] at h
    split at h
    · next hshort => exact Option.some.inj h ▸ DecodeError.fair_truncated hshort
    · cases h

/-- Besides for its errors, a total length beyond the input is signalled as soon as nothing but
the options are left to read. -/
theorem signals_decode (old : Ipv4) (data : Octets) :
    Signals (DeclaresBeyond data) (old.decode data) := by
  unfold decode
  split
  · next hshort =>
      exact .reject (DecodeError.fair_truncated hshort) fun h =>
        Nat.not_le.mpr hshort h.1.fixed
  · next hfixed =>
      simp only
      split
      · next error herror =>
          refine .reject (fair_of_headerError herror) ?_
          rintro ⟨hpresent, -⟩
          have hnone := ((headerPresent_iff old).mp hpresent).2
          rw [herror] at hnone
          cases hnone
      · next hnone =>
          have hpresent := (headerPresent_iff old).mpr ⟨Nat.le_of_not_lt hfixed, hnone⟩
          refine (OptionWalk.signals_collect _ _ _).or ?_
          rw [decide_eq_true_eq, lt_declaredEnd_iff]
          exact (and_iff_right hpresent).symm

end Ipv4

namespace Ipv6

/-- Whether the payload length of a packet reaches beyond its octets. -/
def DeclaresBeyond (data : Octets) : Prop :=
  Header.payloadLength data ≠ 0 ∧
    data.length < headerLength + (Header.payloadLength data).toNat

theorem lt_declaredEnd_iff {p : Ipv6} {available : Nat} :
    available < p.declaredEnd available ↔
      p.length ≠ 0 ∧ available < headerLength + p.length.toNat := by
  unfold declaredEnd
  split
  · next hzero => simp [hzero]
  · next hset => simp [hset]

theorem signals_decode (old : Ipv6) (data : Octets) :
    Signals ((old.decode data).error = none ∧ DeclaresBeyond data) (old.decode data) := by
  unfold decode
  split
  · next hshort => exact .reject (DecodeError.fair_truncated hshort) (fun h => nomatch h.1)
  · simp only
    split
    · exact .reject (DecodeError.fair_malformed _) (fun h => nomatch h.1)
    · refine .read ?_
      simp only [decide_eq_true_eq, lt_declaredEnd_iff, true_and]
      rfl

end Ipv6

namespace Icmpv6

theorem signals_decode (old : Icmpv6) (data : Octets) : Signals False (old.decode data) := by
  unfold decode
  split
  · next hshort => exact .reject (DecodeError.fair_truncated hshort) not_false
  · exact .accept not_false

end Icmpv6

namespace NeighborMessage

variable {B : Type} [NeighborBody B]

theorem signals_decode (old : NeighborMessage B) (data : Octets) :
    Signals False (old.decode data) := by
  unfold decode
  simp only
  split
  · next hshort => exact .reject (DecodeError.fair_truncated hshort) not_false
  · exact ⟨(OptionWalk.signals_collect _ _ _).truncated_iff,
      (OptionWalk.signals_collect _ _ _).available_lt⟩

end NeighborMessage

namespace Tcp

theorem signals_decode (old : Tcp) (data : Octets) : Signals False (old.decode data) := by
  unfold decode
  split
  · next hshort => exact .reject (DecodeError.fair_truncated hshort) not_false
  · simp only
    split
    · exact .reject (DecodeError.fair_malformed _) not_false
    · split
      · next hshort => exact .reject (DecodeError.fair_truncated hshort) not_false
      · exact ⟨(OptionWalk.signals_collect _ _ _).truncated_iff,
          (OptionWalk.signals_collect _ _ _).available_lt⟩

end Tcp

namespace Udp

/-- Whether the length of a datagram reaches beyond its octets. -/
def DeclaresBeyond (data : Octets) : Prop :=
  Header.length data ≠ 0 ∧ data.length < (Header.length data).toNat

theorem lt_declaredEnd_iff {u : Udp} {available : Nat} :
    available < u.declaredEnd available ↔ u.length ≠ 0 ∧ available < u.length.toNat := by
  unfold declaredEnd
  split
  · next hzero => simp [hzero]
  · next hset => simp [hset]

theorem signals_decode (old : Udp) (data : Octets) :
    Signals ((old.decode data).error = none ∧ DeclaresBeyond data) (old.decode data) := by
  unfold decode
  split
  · next hshort => exact .reject (DecodeError.fair_truncated hshort) (fun h => nomatch h.1)
  · simp only
    split
    · exact .reject (DecodeError.fair_malformed _) (fun h => nomatch h.1)
    · refine .read ?_
      simp only [decide_eq_true_eq, lt_declaredEnd_iff, true_and]
      rfl

end Udp

/-! ## Messages -/

namespace Dns

open Name (Cursor)

variable {A : Type} {message : Octets} {start : Nat} {error : DecodeError}

theorem except_bind_eq_error_iff {E B : Type} {x : Except E A} {f : A → Except E B} {e : E} :
    (x >>= f) = .error e ↔ x = .error e ∨ ∃ a, x = .ok a ∧ f a = .error e := by
  cases x <;> simp [bind, Except.bind]

theorem not_isTruncated_of_readName {c : Cursor} (h : readName message c = .error error) :
    error.isTruncated = false := by
  unfold readName at h
  split at h
  · exact Except.error.inj h ▸ rfl
  · cases h

/-- A name is wrong or incomplete, which is never told apart from each other. -/
theorem not_isTruncated_of_readEntryName {c : Cursor}
    (h : readEntryName message c = .error error) : error.isTruncated = false := by
  unfold readEntryName at h
  split at h
  · exact Except.error.inj h ▸ rfl
  · exact not_isTruncated_of_readName h

/-- At a position of the message, missing octets are counted from there. -/
theorem truncated_of_readFixed {length : Nat}
    (h : readFixed message length (.ofPosition message start) = .error error) :
    error = .truncated .dns (start + length) message.length ∧
      message.length < start + length := by
  unfold readFixed at h
  simp only at h
  split at h
  · next hshort =>
      obtain rfl := Except.error.inj h
      rw [Name.rest_ofPosition, List.length_take, List.length_drop] at hshort
      exact ⟨rfl, by omega⟩
  · cases h

theorem fair_of_readFixed {length : Nat}
    (h : readFixed message length (.ofPosition message start) = .error error) : error.Fair := by
  obtain ⟨rfl, hshort⟩ := truncated_of_readFixed h
  exact DecodeError.fair_truncated hshort

/-- A reader of entries whose errors are fair, and that goes on at a position of the message. -/
structure FairReader (message : Octets) (read : Cursor → Except DecodeError (A × Cursor)) :
    Prop where
  fair : ∀ start error, read (.ofPosition message start) = .error error → error.Fair
  goes_on : ∀ start entry c, read (.ofPosition message start) = .ok (entry, c) →
    ∃ stop, c = .ofPosition message stop

namespace Question

theorem fairReader_read (message : Octets) : FairReader message (read message) where
  fair := by
    intro start error h
    rw [read, except_bind_eq_error_iff] at h
    rcases h with hname | ⟨⟨name, c⟩, hname, h⟩
    · exact DecodeError.fair_of_not_isTruncated (not_isTruncated_of_readEntryName hname)
    · obtain ⟨middle, -, rfl⟩ := readEntryName_eq_ok_iff.mp hname
      rw [except_bind_eq_error_iff] at h
      rcases h with hfixed | ⟨⟨fixed, c⟩, -, h⟩
      · exact fair_of_readFixed hfixed
      · cases h
  goes_on := by
    intro start entry c h
    obtain ⟨stop, -, hc⟩ := read_eq_ok_iff.mp h
    exact ⟨stop, hc⟩

end Question

namespace RecordData

theorem not_isTruncated_of_malformed {reason : String}
    (h : malformed (A := A) reason = .error error) : error.isTruncated = false :=
  Except.error.inj h ▸ rfl

theorem not_isTruncated_of_map {B : Type} {x : Except DecodeError A} {f : A → B}
    (hx : ∀ error, x = .error error → error.isTruncated = false)
    (h : x.map f = .error error) : error.isTruncated = false := by
  cases x with
  | error e => exact Except.error.inj h ▸ hx e rfl
  | ok a => cases h

theorem not_isTruncated_of_readStringsOnto {found : List Octets} {data : Octets}
    (h : readStringsOnto found data = .error error) : error.isTruncated = false := by
  induction found, data using readStringsOnto.induct with
  | case1 found =>
      rw [readStringsOnto] at h
      cases h
  | case2 found length tail string hshort =>
      rw [readStringsOnto] at h
      simp only [string] at hshort
      simp only [hshort, if_true] at h
      exact not_isTruncated_of_malformed h
  | case3 found length tail string hlong ih =>
      rw [readStringsOnto] at h
      simp only [string] at hlong
      simp only [hlong, if_false] at h
      exact ih h

theorem not_isTruncated_of_readStartOfAuthority {c : Cursor}
    (h : readStartOfAuthority message c = .error error) : error.isTruncated = false := by
  rw [readStartOfAuthority, except_bind_eq_error_iff] at h
  rcases h with hmname | ⟨⟨mname, c'⟩, -, h⟩
  · exact not_isTruncated_of_readName hmname
  · rw [except_bind_eq_error_iff] at h
    rcases h with hrname | ⟨⟨rname, c''⟩, -, h⟩
    · exact not_isTruncated_of_readName hrname
    · simp only at h
      split at h
      · exact not_isTruncated_of_malformed h
      · cases h

/-- The data of a record is read from octets that are there: it has names and values that are
wrong, but none that are missing. -/
theorem not_isTruncated_of_read {type : RecordType} {c : Cursor} {data : Octets}
    (h : read type message c data = .error error) : error.isTruncated = false := by
  have hnamed : ∀ {B : Type} (c : Cursor) (f : Octets × Cursor → B),
      (readName message c).map f = .error error → error.isTruncated = false :=
    fun c f => not_isTruncated_of_map fun _ => not_isTruncated_of_readName
  cases type with
  | ns | cname | ptr => exact hnamed _ _ h
  | a | aaaa =>
      simp only [read] at h
      split at h
      · cases h
      · exact not_isTruncated_of_malformed h
  | mx | srv =>
      simp only [read] at h
      split at h
      · exact not_isTruncated_of_malformed h
      · exact hnamed _ _ h
  | txt => exact not_isTruncated_of_map (fun _ => not_isTruncated_of_readStringsOnto) h
  | soa => exact not_isTruncated_of_map (fun _ => not_isTruncated_of_readStartOfAuthority) h
  | _ => cases h

end RecordData

namespace ResourceRecord

theorem fairReader_read (message : Octets) : FairReader message (read message) where
  fair := by
    intro start error h
    rw [read, except_bind_eq_error_iff] at h
    rcases h with hname | ⟨⟨name, c⟩, hname, h⟩
    · exact DecodeError.fair_of_not_isTruncated (not_isTruncated_of_readEntryName hname)
    · obtain ⟨middle, -, rfl⟩ := readEntryName_eq_ok_iff.mp hname
      rw [except_bind_eq_error_iff] at h
      rcases h with hfixed | ⟨⟨fixed, c⟩, hfixed, h⟩
      · exact fair_of_readFixed hfixed
      · obtain ⟨-, -, rfl⟩ := readFixed_eq_ok_iff.mp hfixed
        simp only [except_bind_eq_error_iff] at h
        rcases h with hdata | ⟨⟨data, behind⟩, -, h⟩
        · exact fair_of_readFixed hdata
        · rcases h with hcontent | ⟨content, -, h⟩
          · exact DecodeError.fair_of_not_isTruncated
              (RecordData.not_isTruncated_of_read hcontent)
          · cases h
  goes_on := by
    intro start entry c h
    obtain ⟨stop, -, hc⟩ := read_eq_ok_iff.mp h
    exact ⟨stop, hc⟩

end ResourceRecord

end Dns

namespace DnsMessage

open Dns
open Dns.Name (Cursor)

variable {A : Type} {message : Octets} {read : Cursor → Except DecodeError (A × Cursor)}

/-- A section is read with the errors of its reader. -/
theorem outcome_readEntries (hread : FairReader message read) (found : List A) (n start : Nat) :
    (∀ error, (readEntries read found n (.ofPosition message start)).outcome = .error error →
      error.Fair) ∧
    ∀ c, (readEntries read found n (.ofPosition message start)).outcome = .ok c →
      ∃ stop, c = .ofPosition message stop := by
  induction n generalizing found start with
  | zero =>
      rw [readEntries]
      constructor
      · intro error h
        cases h
      · intro c h
        exact ⟨start, (Except.ok.inj h).symm⟩
  | succ n ih =>
      rw [readEntries]
      cases hentry : read (.ofPosition message start) with
      | error error =>
          constructor
          · intro error' h
            exact Except.error.inj h ▸ hread.fair start error hentry
          · intro c h
            cases h
      | ok found' =>
          obtain ⟨stop, hbehind⟩ := hread.goes_on start found'.1 found'.2 hentry
          simp only [hbehind]
          exact ih (found'.1 :: found) stop

theorem signals_decode (old : DnsMessage) (data : Octets) : Signals False (old.decode data) := by
  have hquestions := outcome_readEntries (Question.fairReader_read data)
  have hrecords := outcome_readEntries (ResourceRecord.fairReader_read data)
  unfold decode
  split
  · next hshort => exact .reject (DecodeError.fair_truncated hshort) not_false
  · simp only [readSection]
    split
    · next error herror => exact .reject ((hquestions _ _ _).1 error herror) not_false
    · next c hc =>
        obtain ⟨answersStart, rfl⟩ := (hquestions _ _ _).2 c hc
        split
        · next error herror => exact .reject ((hrecords _ _ _).1 error herror) not_false
        · next c hc =>
            obtain ⟨authoritiesStart, rfl⟩ := (hrecords _ _ _).2 c hc
            split
            · next error herror => exact .reject ((hrecords _ _ _).1 error herror) not_false
            · next c hc =>
                obtain ⟨additionalsStart, rfl⟩ := (hrecords _ _ _).2 c hc
                split
                · next error herror => exact .reject ((hrecords _ _ _).1 error herror) not_false
                · exact .accept not_false

end DnsMessage

namespace Enip

variable {error : DecodeError}

theorem fair_of_add {scan : ItemScan} {position : Nat} {item : RawOption}
    (h : scan.add position item = .error error) : error.Fair := by
  unfold ItemScan.add at h
  simp only at h
  split at h
  · split at h
    · exact Except.error.inj h ▸ DecodeError.fair_malformed _
    · cases h
  · cases h
  · cases h

theorem fair_of_scanItems {n : Nat} {walk : OptionWalk} {scan : ItemScan}
    (h : (scanItems n walk scan).2 = some error) : error.Fair := by
  induction n generalizing walk scan with
  | zero => cases h
  | succ n ih =>
      unfold scanItems at h
      split at h
      · exact Option.some.inj h ▸ DecodeError.fair_malformed _
      · next error' behind hnext => exact Option.some.inj h ▸ OptionWalk.fair_of_next hnext
      · split at h
        · next error' hadd => exact Option.some.inj h ▸ fair_of_add hadd
        · exact ih h

theorem fair_of_readItems {e : Enip} {specific : Octets}
    (h : (e.readItems specific).2 = .error error) : error.Fair := by
  unfold readItems at h
  split at h
  · exact Except.error.inj h ▸ DecodeError.fair_malformed _
  · simp only at h
    split at h
    · next error' hscan => exact Except.error.inj h ▸ fair_of_scanItems hscan
    · cases h

theorem signals_decode (old : Enip) (data : Octets) : Signals False (old.decode data) := by
  unfold decode
  split
  · next hshort => exact .reject (DecodeError.fair_truncated hshort) not_false
  · simp only
    split
    · next hshort => exact .reject (DecodeError.fair_truncated hshort) not_false
    · split
      · split
        · next scanned error hitems =>
            exact .reject (fair_of_readItems (congrArg Prod.snd hitems)) not_false
        · exact .accept not_false
      · exact .accept not_false

end Enip

namespace Cip

variable {error : DecodeError}

theorem fair_of_readPath {c : Cip} {path : Octets} (h : (c.readPath path).2 = some error) :
    error.Fair := by
  induction c, path using readPath.induct with
  | case1 c =>
      rw [readPath] at h
      cases h
  | case2 c segment tail length hshort =>
      rw [readPath] at h
      simp only [length] at hshort
      simp only [hshort, if_true] at h
      exact Option.some.inj h ▸ DecodeError.fair_malformed _
  | case3 c segment tail length hlong hset =>
      rw [readPath] at h
      simp only [length] at hlong
      simp only [hlong, if_false, hset] at h
      exact Option.some.inj h ▸ DecodeError.fair_malformed _
  | case4 c segment tail length next hlong hset ih =>
      rw [readPath] at h
      simp only [length] at hlong
      simp only [hlong, if_false, hset] at h
      exact ih h

theorem fair_of_readResponse {c : Cip} {data : Octets}
    (h : (c.readResponse data).2 = some error) : error.Fair := by
  unfold readResponse at h
  split at h
  · next hshort => exact Option.some.inj h ▸ DecodeError.fair_truncated hshort
  · simp only at h
    split at h
    · next hshort => exact Option.some.inj h ▸ DecodeError.fair_truncated hshort
    · cases h

theorem fair_of_readRequest {c : Cip} {data : Octets}
    (h : (c.readRequest data).2 = some error) : error.Fair := by
  unfold readRequest at h
  split at h
  · next hshort => exact Option.some.inj h ▸ DecodeError.fair_truncated hshort
  · simp only at h
    split at h
    · next hshort => exact Option.some.inj h ▸ DecodeError.fair_truncated hshort
    · split at h
      · next walked error' hpath =>
          exact Option.some.inj h ▸ fair_of_readPath (congrArg Prod.snd hpath)
      · cases h

theorem signals_decode (old : Cip) (data : Octets) : Signals False (old.decode data) := by
  cases data with
  | nil => exact .reject (DecodeError.fair_truncated Nat.zero_lt_one) not_false
  | cons first tail =>
      unfold decode
      simp only
      split
      · next read error hread =>
          refine .reject ?_ not_false
          split at hread
          · exact fair_of_readResponse (congrArg Prod.snd hread)
          · exact fair_of_readRequest (congrArg Prod.snd hread)
      · exact .accept not_false

end Cip

/-! ## Every built-in layer -/

namespace BuiltinLayer

/-- Whether a layer signals that its data reach beyond the input, with no error to say so: a
frame, an IPv6 packet or a datagram that is read and declares more than there is, or an IPv4
packet that does in front of its options, whatever these are. -/
def ReachesBeyond (layer : BuiltinLayer) (data : Octets) : Prop :=
  match layer with
  | .ethernet l => (l.decode data).error = none ∧ Ethernet.DeclaresBeyond data
  | .ipv4 _ => Ipv4.DeclaresBeyond data
  | .ipv6 l => (l.decode data).error = none ∧ Ipv6.DeclaresBeyond data
  | .udp l => (l.decode data).error = none ∧ Udp.DeclaresBeyond data
  | _ => False

theorem signals_decode (layer : BuiltinLayer) (data : Octets) :
    Signals (layer.ReachesBeyond data) (layer.decode data) := by
  cases layer with
  | payload l => exact .accept not_false
  | ethernet l => exact (Ethernet.signals_decode l data).map ethernet
  | loopback l => exact (Loopback.signals_decode l data).map loopback
  | ipv4 l => exact (Ipv4.signals_decode l data).map ipv4
  | ipv6 l => exact (Ipv6.signals_decode l data).map ipv6
  | icmpv6 l => exact (Icmpv6.signals_decode l data).map icmpv6
  | tcp l => exact (Tcp.signals_decode l data).map tcp
  | udp l => exact (Udp.signals_decode l data).map udp
  | dns l => exact (DnsMessage.signals_decode l data).map dns
  | enip l => exact (Enip.signals_decode l data).map enip
  | cip l => exact (Cip.signals_decode l data).map cip
  | _ l => exact (NeighborMessage.signals_decode l data).map _

end BuiltinLayer

/-! ## Packets -/

namespace Packet

variable {L : Type} [Layer L] {p : Packet L} {root : LayerType}

theorem signal_of_attempt_iff {decoders : DecoderTable L} {options : DecodeOptions}
    {type : LayerType} {input : Octets} :
    (attempt decoders options type input).2 = true ↔
      ∃ fresh, decoders.create type options = some fresh ∧
        (Layer.decode fresh input).truncated = true := by
  unfold attempt
  split
  · next hnone => simp [hnone]
  · next fresh hfresh => simp [hfresh]

/-- The decoders that were called are those of the layers that are there. -/
theorem any_signals_iff :
    (p.signals root).any id = true ↔
      ∃ (i : Nat) (placed : PlacedLayer L) (r : Request), p.layers[i]? = some placed ∧
        (p.requests root)[i]? = some r ∧
        (attempt p.decoders p.options r.type r.octets).2 = true := by
  simp only [signals, List.any_map, List.any_eq_true, Function.comp_apply, id]
  constructor
  · rintro ⟨r, hmem, hsignal⟩
    obtain ⟨i, hi⟩ := List.getElem?_of_mem hmem
    rw [List.getElem?_take] at hi
    split at hi
    · next hcount => exact ⟨i, p.layers[i], r, List.getElem?_eq_getElem hcount, hi, hsignal⟩
    · cases hi
  · rintro ⟨i, placed, r, hplaced, hr, hsignal⟩
    obtain ⟨hcount, -⟩ := List.getElem?_eq_some_iff.mp hplaced
    have hi : ((p.requests root).take p.layers.length)[i]? = some r := by
      rw [List.getElem?_take_of_lt hcount]
      exact hr
    exact ⟨r, List.mem_of_getElem? hi, hsignal⟩

end Packet

namespace BuiltinLayer

open Packet (start advance)

/-- A built-in decoder signals truncation exactly for its errors of missing input, each of which
asks for more than there is, and for input that a header reaches beyond.  The record of a failure
signals none.  A packet, however far it is decoded, is truncated exactly if a decoder that was
called for one of its layers said so, be the layer what the decoder read or the record of its
failure. -/
theorem truncation_signalled_iff :
    (∀ (layer : BuiltinLayer) (data : Octets),
      ((layer.decode data).truncated = true ↔
        (∃ layerType needed available,
          (layer.decode data).error = some (.truncated layerType needed available)) ∨
        layer.ReachesBeyond data) ∧
      ∀ layerType needed available,
        (layer.decode data).error = some (.truncated layerType needed available) →
          available < needed) ∧
    (∀ (record : DecodeFailure) (data : Octets),
      (record.decode data).error = none ∧ (record.decode data).truncated = false) ∧
    ∀ (data : Octets) (root : LayerType) (options : DecodeOptions)
      (decoders : DecoderTable BuiltinLayer) (n : Nat),
      let p := advance^[n] (start data root options decoders)
      p.truncated = true ↔
        ∃ (i : Nat) (placed : PlacedLayer BuiltinLayer) (r : Request) (fresh : BuiltinLayer),
          p.layers[i]? = some placed ∧ (p.requests root)[i]? = some r ∧ p.Answers r placed ∧
          decoders.create r.type options = some fresh ∧
          (fresh.decode r.octets).truncated = true := by
  refine ⟨fun layer data => ⟨(signals_decode layer data).truncated_iff,
    (signals_decode layer data).available_lt⟩, fun _ _ => ⟨rfl, rfl⟩, ?_⟩
  intro data root options decoders n p
  obtain ⟨-, hoptions, hdecoders⟩ :=
    Packet.iterate_advance_frame n (start data root options decoders)
  have hlaid := ((Packet.placed_start data root options decoders).iterate n).toLaid
  rw [Packet.truncated_iterate_start, Packet.any_signals_iff]
  constructor
  · rintro ⟨i, placed, r, hplaced, hr, hsignal⟩
    obtain ⟨r', hr', hanswers⟩ := hlaid.answered i placed hplaced
    obtain rfl := Option.some.inj (hr.symm.trans hr')
    rw [Packet.signal_of_attempt_iff, hdecoders, hoptions] at hsignal
    obtain ⟨fresh, hfresh, htruncated⟩ := hsignal
    exact ⟨i, placed, r, fresh, hplaced, hr, hanswers, hfresh, htruncated⟩
  · rintro ⟨i, placed, r, fresh, hplaced, hr, -, hfresh, htruncated⟩
    refine ⟨i, placed, r, hplaced, hr, ?_⟩
    rw [Packet.signal_of_attempt_iff, hdecoders, hoptions]
    exact ⟨fresh, hfresh, htruncated⟩

end BuiltinLayer

end PacketLayers
