import Mathlib.Data.List.Infix
import PacketLayers.Proofs.Decoding.Truncation
import PacketLayers.Proofs.Headers.Transport

/-!
# Short captures

A capture may keep only the first octets of what was sent.  This module says that input
which is cut short is never taken for corrupt: if a decoder reads an input, it reads
every prefix of it, or refuses it for missing input, and says so.  DNS is left out, where
names may point to octets that are not there any more.

Where a length is announced, all octets that it counts must be there before any is read,
and what is read then is what the whole input has there.  Neighbor discovery options are
the exception: they are walked up to the end of the input, wherever that is
(`OptionWalk.next_of_isPrefix`).  The main statement is `BuiltinLayer.decode_short_capture`.
-/

namespace PacketLayers

/-- The error of a call that failed for missing input, if it failed. -/
def OnlyShort (error : Option DecodeError) : Prop :=
  error = none ∨ ∃ layer needed available, error = some (.truncated layer needed available)

@[simp] theorem onlyShort_none : OnlyShort none := Or.inl rfl

@[simp] theorem onlyShort_truncated (layer : LayerType) (needed available : Nat) :
    OnlyShort (some (.truncated layer needed available)) := Or.inr ⟨_, _, _, rfl⟩

/-! ## Reading in a prefix -/

section Prefix

variable {p d : Octets} {i start stop n : Nat} (h : p <+: d)

include h

theorem not_lt_of_isPrefix (hlong : ¬ p.length < n) : ¬ d.length < n := fun hless =>
  hlong (Nat.lt_of_le_of_lt h.length_le hless)

theorem octetAt_of_isPrefix (hi : i < p.length) : octetAt p i = octetAt d i := by
  obtain ⟨rest, rfl⟩ := h
  simp [octetAt, List.getElem?_append_left hi]

theorem be16At_of_isPrefix (hi : i + 2 ≤ p.length) : be16At p i = be16At d i := by
  rw [be16At, be16At, octetAt_of_isPrefix h (by omega), octetAt_of_isPrefix h (by omega)]

theorem be32At_of_isPrefix (hi : i + 4 ≤ p.length) : be32At p i = be32At d i := by
  rw [be32At, be32At, be16At_of_isPrefix h (by omega), be16At_of_isPrefix h (by omega)]

theorem le16At_of_isPrefix (hi : i + 2 ≤ p.length) : le16At p i = le16At d i := by
  rw [le16At, le16At, octetAt_of_isPrefix h (by omega), octetAt_of_isPrefix h (by omega)]

theorem le32At_of_isPrefix (hi : i + 4 ≤ p.length) : le32At p i = le32At d i := by
  rw [le32At, le32At, le16At_of_isPrefix h (by omega), le16At_of_isPrefix h (by omega)]

theorem blockAt_of_isPrefix (hi : i + n ≤ p.length) : blockAt n p i = blockAt n d i := by
  refine Vector.ext ?_
  intro k hk
  have hread : octetAt p (i + k) = octetAt d (i + k) := octetAt_of_isPrefix h (by omega)
  simpa [blockAt] using hread

theorem slice_of_isPrefix (hstop : stop ≤ p.length) : slice p start stop = slice d start stop := by
  obtain ⟨rest, rfl⟩ := h
  rw [slice, slice, ← List.drop_take, ← List.drop_take, List.take_append_of_le_length hstop]

end Prefix

/-! ## Option lists -/

namespace OptionWalk

variable {w w' behind : OptionWalk} {option : RawOption}

/-- An option that stands in a list is cut in a prefix of it, or stands there too. -/
theorem readOption_of_isPrefix (hformat : w'.format = w.format) (hrest : w'.rest <+: w.rest)
    (h : w.readOption = .ok option) :
    (∃ layer needed available, w'.readOption = .error (.truncated layer needed available)) ∨
      ∃ found, w'.readOption = .ok found ∧ found.length = option.length := by
  by_cases hheader : w'.rest.length < w.format.headerLength
  · refine Or.inl ⟨w'.layer, w.format.headerLength, w'.rest.length, ?_⟩
    have hshort : (w'.rest.take w.format.headerLength).length < w.format.headerLength := by
      rw [List.length_take]
      omega
    simp only [readOption, hformat, hshort, if_true]
  · have htake : w'.rest.take w.format.headerLength = w.rest.take w.format.headerLength := by
      obtain ⟨rest, hsplit⟩ := hrest
      rw [← hsplit, List.take_append_of_le_length (Nat.le_of_not_lt hheader)]
    unfold readOption at h ⊢
    simp only [hformat, htake] at h ⊢
    split at h
    · cases h
    · next hfull =>
        split at h
        · cases h
        · next hlength =>
            split at h
            · cases h
            · obtain rfl := Except.ok.inj h
              rw [if_neg hfull, if_neg hlength]
              split
              · exact Or.inl ⟨_, _, _, rfl⟩
              · exact Or.inr ⟨_, rfl, rfl⟩

/-- Where a walk hands out an option, the walk over a prefix of the list ends, is cut, or hands
out an option too and goes on in a prefix of what is left. -/
theorem next_of_isPrefix (hformat : w'.format = w.format) (hdone : w'.done = w.done)
    (hrest : w'.rest <+: w.rest) (h : w.next = some (.ok option, behind)) :
    w'.next = none ∨
      (∃ layer needed available behind',
        w'.next = some (.error (.truncated layer needed available), behind')) ∨
      ∃ found behind', w'.next = some (.ok found, behind') ∧ behind'.format = behind.format ∧
        behind'.done = behind.done ∧ behind'.rest <+: behind.rest := by
  cases hcut : w'.rest with
  | nil => exact Or.inl (next_eq_none_iff.mpr (Or.inl hcut))
  | cons first tail' =>
      rw [hcut] at hrest
      obtain ⟨tail, hwhole⟩ : ∃ tail, w.rest = first :: tail := by
        obtain ⟨rest, hsplit⟩ := hrest
        exact ⟨tail' ++ rest, hsplit.symm⟩
      have hopen : w.done = false := by
        cases hclosed : w.done with
        | false => rfl
        | true =>
            rw [next_eq_none_iff.mpr (Or.inr hclosed)] at h
            cases h
      rw [← hcut] at hrest
      simp only [next, hwhole, hopen, Bool.false_eq_true, if_false] at h
      simp only [next, hcut, hdone, hopen, Bool.false_eq_true, if_false, hformat]
      split at h
      · next hsingle =>
          obtain ⟨-, rfl⟩ := Prod.mk.inj (Option.some.inj h)
          rw [if_pos hsingle]
          exact Or.inr (Or.inr ⟨_, _, rfl, hformat, rfl, List.IsPrefix.drop hrest 1⟩)
      · next hsingle =>
          rw [if_neg hsingle]
          split at h
          · cases h
          · next read hread =>
              obtain ⟨hoption, rfl⟩ := Prod.mk.inj (Option.some.inj h)
              rcases readOption_of_isPrefix hformat hrest hread with
                ⟨layer, needed, available, herror⟩ | ⟨found, hfound, hlength⟩
              · rw [herror]
                exact Or.inr (Or.inl ⟨layer, needed, available, _, rfl⟩)
              · rw [hfound]
                refine Or.inr (Or.inr ⟨found, _, rfl, hformat, hdone, ?_⟩)
                simp only [advance, hlength]
                exact List.IsPrefix.drop hrest read.length

/-- A list that is walked to its end is walked to the end of any prefix, or to an option that is
cut there. -/
theorem onlyShort_visitAll {found found' : List RawOption} (hformat : w'.format = w.format)
    (hdone : w'.done = w.done) (hrest : w'.rest <+: w.rest)
    (h : (visitAll push found w).error = none) : OnlyShort (visitAll push found' w').error := by
  induction found, w using visitAll.induct push generalizing found' w' with
  | case1 found w hend =>
      have hend' : w'.next = none := by
        rw [next_eq_none_iff] at hend ⊢
        rcases hend with hempty | hclosed
        · rw [hempty, List.prefix_nil] at hrest
          exact Or.inl hrest
        · exact Or.inr (hdone.trans hclosed)
      rw [visitAll_eq_match, hend']
      exact onlyShort_none
  | case2 found w error behind hfound =>
      rw [visitAll_eq_match, hfound] at h
      cases h
  | case3 found w option behind hfound found'' error hvisit => cases hvisit
  | case4 found w option behind hfound found'' hvisit ih =>
      cases hvisit
      rw [visitAll_eq_match, hfound] at h
      rcases next_of_isPrefix hformat hdone hrest hfound with
        hend | ⟨layer, needed, available, behind', herror⟩ |
        ⟨taken, behind', hnext, hsame, hopen, hleft⟩
      · rw [visitAll_eq_match, hend]
        exact onlyShort_none
      · rw [visitAll_eq_match, herror]
        exact onlyShort_truncated _ _ _
      · rw [visitAll_eq_match, hnext]
        exact ih hsame hopen hleft h

theorem onlyShort_collect {format : OptionFormat} {layer : LayerType} {p d : Octets}
    (hpre : p <+: d) (h : (collect format layer d).error = none) :
    OnlyShort (collect format layer p).error :=
  onlyShort_visitAll (w := start format layer d) rfl rfl hpre h

end OptionWalk

/-! ## Headers -/

theorem Ethernet.onlyShort_decode (old : Ethernet) (data : Octets) :
    OnlyShort (old.decode data).error := by
  unfold decode
  split
  · exact onlyShort_truncated _ _ _
  · exact onlyShort_none

theorem Loopback.onlyShort_decode (old : Loopback) (data : Octets) :
    OnlyShort (old.decode data).error := by
  unfold decode
  split
  · exact onlyShort_truncated _ _ _
  · exact onlyShort_none

theorem Icmpv6.onlyShort_decode (old : Icmpv6) (data : Octets) :
    OnlyShort (old.decode data).error := by
  unfold decode
  split
  · exact onlyShort_truncated _ _ _
  · exact onlyShort_none

variable {p d : Octets}

namespace Ipv4

theorem readFixed_of_isPrefix (old : Ipv4) (h : p <+: d) (hfixed : minHeaderLength ≤ p.length) :
    readFixed old p = readFixed old d := by
  rw [minHeaderLength] at hfixed
  simp (disch := omega) only [readFixed, Header.version, Header.ihl, Header.tos,
    Header.totalLength, Header.id, Header.flags, Header.fragmentOffset, Header.ttl,
    Header.protocol, Header.checksum, Header.source, Header.destination, Ipv4Address.readAt,
    octetAt_of_isPrefix h, be16At_of_isPrefix h, blockAt_of_isPrefix h]

/-- Fields that pass their checks with more octets pass them with fewer, unless the options are
cut. -/
theorem onlyShort_headerError {q : Ipv4} {available available' : Nat}
    (h : q.headerError available = none) : OnlyShort (q.headerError available') := by
  rcases headerError_cases q with ⟨reason, hwrong⟩ | ⟨-, hchecks⟩
  · rw [hwrong] at h
    cases h
  · rw [hchecks]
    split
    · exact onlyShort_truncated _ _ _
    · exact onlyShort_none

theorem onlyShort_decode {old : Ipv4} (hpre : p <+: d) (h : (old.decode d).error = none) :
    OnlyShort (old.decode p).error := by
  obtain ⟨-, hchecks, hwalk, -⟩ := of_decode h
  unfold decode
  split
  · exact onlyShort_truncated _ _ _
  · next hfixed =>
      rw [readFixed_of_isPrefix old hpre (Nat.le_of_not_lt hfixed)]
      simp only
      split
      · next error herror =>
          have hshort : OnlyShort ((readFixed old d).headerError p.length) :=
            onlyShort_headerError hchecks
          rw [herror] at hshort
          exact hshort
      · next hnone =>
          obtain ⟨-, hinside, -⟩ := bounds_of_headerError hnone
          rw [slice_of_isPrefix hpre hinside, hwalk]
          exact onlyShort_none

end Ipv4

namespace Ipv6

theorem readFixed_of_isPrefix (old : Ipv6) (h : p <+: d) (hfixed : headerLength ≤ p.length) :
    readFixed old p = readFixed old d := by
  rw [headerLength] at hfixed
  simp (disch := omega) only [readFixed, Header.version, Header.trafficClass, Header.flowLabel,
    Header.payloadLength, Header.nextHeader, Header.hopLimit, Header.source, Header.destination,
    Ipv6Address.readAt, octetAt_of_isPrefix h, be16At_of_isPrefix h, be32At_of_isPrefix h,
    blockAt_of_isPrefix h]

theorem onlyShort_decode {old : Ipv6} (hpre : p <+: d) (h : (old.decode d).error = none) :
    OnlyShort (old.decode p).error := by
  unfold decode at h ⊢
  split
  · exact onlyShort_truncated _ _ _
  · next hfixed =>
      rw [if_neg (not_lt_of_isPrefix hpre hfixed)] at h
      rw [readFixed_of_isPrefix old hpre (Nat.le_of_not_lt hfixed)]
      simp only at h ⊢
      split at h
      · cases h
      · next hversion =>
          rw [if_neg hversion]
          exact onlyShort_none

end Ipv6

namespace NeighborMessage

variable {B : Type} [NeighborBody B]

theorem onlyShort_decode {old : NeighborMessage B} (hpre : p <+: d)
    (h : (old.decode d).error = none) : OnlyShort (old.decode p).error := by
  unfold decode at h ⊢
  simp only at h ⊢
  split
  · exact onlyShort_truncated _ _ _
  · next hfixed =>
      rw [if_neg (not_lt_of_isPrefix hpre hfixed)] at h
      exact OptionWalk.onlyShort_collect (List.IsPrefix.drop hpre _) h

end NeighborMessage

namespace Tcp

theorem readFixed_of_isPrefix (old : Tcp) (h : p <+: d) (hfixed : minHeaderLength ≤ p.length) :
    readFixed old p = readFixed old d := by
  rw [minHeaderLength] at hfixed
  simp (disch := omega) only [readFixed, Header.sourcePort, Header.destinationPort, Header.seq,
    Header.ack, Header.dataOffset, Header.flags, Header.window, Header.checksum, Header.urgent,
    octetAt_of_isPrefix h, be16At_of_isPrefix h, be32At_of_isPrefix h]

theorem onlyShort_decode {old : Tcp} (hpre : p <+: d) (h : (old.decode d).error = none) :
    OnlyShort (old.decode p).error := by
  obtain ⟨-, hoffset, -, hwalk, -⟩ := of_decode h
  unfold decode
  split
  · exact onlyShort_truncated _ _ _
  · next hfixed =>
      rw [readFixed_of_isPrefix old hpre (Nat.le_of_not_lt hfixed)]
      simp only
      rw [if_neg hoffset]
      split
      · exact onlyShort_truncated _ _ _
      · next hinside =>
          rw [slice_of_isPrefix hpre (Nat.le_of_not_lt hinside), hwalk]
          exact onlyShort_none

end Tcp

namespace Udp

theorem readFixed_of_isPrefix (old : Udp) (h : p <+: d) (hfixed : headerLength ≤ p.length) :
    readFixed old p = readFixed old d := by
  rw [headerLength] at hfixed
  simp (disch := omega) only [readFixed, Header.sourcePort, Header.destinationPort, Header.length,
    Header.checksum, be16At_of_isPrefix h]

theorem onlyShort_decode {old : Udp} (hpre : p <+: d) (h : (old.decode d).error = none) :
    OnlyShort (old.decode p).error := by
  unfold decode at h ⊢
  split
  · exact onlyShort_truncated _ _ _
  · next hfixed =>
      rw [if_neg (not_lt_of_isPrefix hpre hfixed)] at h
      rw [readFixed_of_isPrefix old hpre (Nat.le_of_not_lt hfixed)]
      simp only at h ⊢
      split at h
      · cases h
      · next hlength =>
          rw [if_neg hlength]
          exact onlyShort_none

end Udp

/-! ## Messages -/

namespace Enip

theorem readFixed_of_isPrefix (old : Enip) (h : p <+: d) (hfixed : headerLength ≤ p.length) :
    readFixed old p = readFixed old d := by
  rw [headerLength] at hfixed
  simp (disch := omega) only [readFixed, Header.command, Header.length, Header.sessionHandle,
    Header.status, Header.senderContext, Header.options, le16At_of_isPrefix h, le32At_of_isPrefix h,
    blockAt_of_isPrefix h]

/-- The data of a command are read where all of them are there. -/
theorem onlyShort_decode {old : Enip} (hpre : p <+: d) (h : (old.decode d).error = none) :
    OnlyShort (old.decode p).error := by
  unfold decode at h ⊢
  split
  · exact onlyShort_truncated _ _ _
  · next hfixed =>
      rw [if_neg (not_lt_of_isPrefix hpre hfixed)] at h
      rw [readFixed_of_isPrefix old hpre (Nat.le_of_not_lt hfixed)]
      simp only at h ⊢
      split
      · exact onlyShort_truncated _ _ _
      · next hinside =>
          rw [if_neg (not_lt_of_isPrefix hpre hinside)] at h
          rw [slice_of_isPrefix hpre (Nat.le_of_not_lt hinside)]
          split at h
          · next hexplicit =>
              rw [if_pos hexplicit]
              split at h
              · cases h
              · exact onlyShort_none
          · next hquiet =>
              rw [if_neg hquiet]
              exact onlyShort_none

end Enip

namespace Cip

theorem onlyShort_readResponse (c : Cip) (data : Octets) : OnlyShort (c.readResponse data).2 := by
  unfold readResponse
  split
  · exact onlyShort_truncated _ _ _
  · simp only
    split
    · exact onlyShort_truncated _ _ _
    · exact onlyShort_none

/-- The path of a request is read where all of it is there. -/
theorem onlyShort_readRequest {c : Cip} (hpre : p <+: d) (h : (c.readRequest d).2 = none) :
    OnlyShort (c.readRequest p).2 := by
  unfold readRequest at h ⊢
  split
  · exact onlyShort_truncated _ _ _
  · next hfixed =>
      rw [if_neg (not_lt_of_isPrefix hpre hfixed)] at h
      rw [octetAt_of_isPrefix hpre (Nat.le_of_not_lt hfixed)]
      simp only at h ⊢
      split
      · exact onlyShort_truncated _ _ _
      · next hinside =>
          rw [if_neg (not_lt_of_isPrefix hpre hinside)] at h
          rw [slice_of_isPrefix hpre (Nat.le_of_not_lt hinside)]
          split at h
          · cases h
          · exact onlyShort_none

/-- A message that is not empty is refused for what is wrong behind its first octet. -/
theorem error_decode_cons (old : Cip) (first : UInt8) (tail : Octets) :
    (old.decode (first :: tail)).error =
      if (readFirst old first).response then
        ((readFirst old first).readResponse (first :: tail)).2
      else ((readFirst old first).readRequest (first :: tail)).2 := by
  unfold decode
  rw [← apply_ite Prod.snd]
  simp only
  generalize (if (readFirst old first).response then _ else _) = read
  obtain ⟨read, _ | error⟩ := read
  · rfl
  · rfl

theorem onlyShort_decode {old : Cip} (hpre : p <+: d) (h : (old.decode d).error = none) :
    OnlyShort (old.decode p).error := by
  cases p with
  | nil => exact onlyShort_truncated _ _ _
  | cons first tail =>
      obtain ⟨behind, rfl⟩ := hpre
      rw [List.cons_append, error_decode_cons] at h
      rw [error_decode_cons]
      split
      · exact onlyShort_readResponse _ _
      · next hrequest =>
          rw [if_neg hrequest] at h
          exact onlyShort_readRequest (List.prefix_append _ behind) h

end Cip

/-! ## Every built-in layer -/

namespace BuiltinLayer

theorem onlyShort_decode {layer : BuiltinLayer} (hdns : layer.layerType ≠ .dns) (hpre : p <+: d)
    (h : (layer.decode d).error = none) : OnlyShort (layer.decode p).error := by
  cases layer with
  | payload l => exact onlyShort_none
  | ethernet l => exact Ethernet.onlyShort_decode l p
  | loopback l => exact Loopback.onlyShort_decode l p
  | ipv4 l => exact Ipv4.onlyShort_decode hpre h
  | ipv6 l => exact Ipv6.onlyShort_decode hpre h
  | icmpv6 l => exact Icmpv6.onlyShort_decode l p
  | tcp l => exact Tcp.onlyShort_decode hpre h
  | udp l => exact Udp.onlyShort_decode hpre h
  | dns l => exact absurd rfl hdns
  | enip l => exact Enip.onlyShort_decode hpre h
  | cip l => exact Cip.onlyShort_decode hpre h
  | _ l => exact NeighborMessage.onlyShort_decode hpre h

/-- Input that is cut short is not taken for corrupt.  Every layer but DNS that reads an input reads
any prefix of it too, or fails for missing input and signals truncation. -/
theorem decode_short_capture {layer : PacketLayer BuiltinLayer}
    (hdns : Layer.layerType layer ≠ .dns) {p d : Octets} (hpre : p <+: d)
    (h : (Layer.decode layer d).error = none) :
    (Layer.decode layer p).error = none ∨
      (∃ layerType needed available,
        (Layer.decode layer p).error = some (.truncated layerType needed available)) ∧
      (Layer.decode layer p).truncated = true := by
  cases layer with
  | failure record => exact Or.inl rfl
  | decoded layer =>
      rcases onlyShort_decode hdns hpre h with hok | hshort
      · exact Or.inl hok
      · exact Or.inr ⟨hshort, (signals_decode layer p).truncated_iff.mpr (Or.inl hshort)⟩

/-- A router solicitation with the link layer address of its source. -/
def solicitation : Octets := [0, 0, 0, 0, 1, 1, 2, 0, 0, 0, 0, 1]

theorem decode_short_solicitation :
    let layer : PacketLayer BuiltinLayer := .decoded (.routerSolicitation .fresh)
    (Layer.decode layer solicitation).error = none ∧
      (∃ layerType needed available,
        (Layer.decode layer (solicitation.take 7)).error =
          some (.truncated layerType needed available)) ∧
      (Layer.decode layer (solicitation.take 7)).truncated = true := by
  intro layer
  have hread : (Layer.decode layer solicitation).error = none := by decide +kernel
  have hcut : (Layer.decode layer (solicitation.take 7)).error ≠ none := by decide +kernel
  exact ⟨hread, (decode_short_capture (by decide) (List.take_prefix 7 solicitation)
    hread).resolve_left hcut⟩

end BuiltinLayer

end PacketLayers
