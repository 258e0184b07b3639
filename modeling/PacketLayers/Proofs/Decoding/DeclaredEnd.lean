import PacketLayers.Proofs.Decoding.ShortCapture

/-!
# Declared ends

Four headers may declare where their octets end: a frame with an 802.3 length, an IPv4 packet
with a total length, an IPv6 packet with a payload length and a datagram with a length, the
last three if it is not zero (`BuiltinLayer.declaredStop?`).

Once such a header is read, octets behind those it was read from enter a decoder through their
number only, which is held against the declared end (`Decoding.clamped`).  So octets behind a
declared end that is there change nothing (`BuiltinLayer.decode_of_isPrefix`), and input that
is cut in front of it is signalled as truncated (`BuiltinLayer.truncated_of_isPrefix`).
-/

namespace PacketLayers

namespace Decoding

variable {L M : Type}

/-- The call that read a header in front of which so many octets were available, whose payload
ends where it is declared to end, or else where the octets do. -/
def clamped (place : Extent → L) (header : Nat) (stop? : Option Nat) (available : Nat) :
    Decoding L :=
  let stop := stop?.getD available
  ⟨place (.split header (min stop available)), none, available < stop⟩

variable {place : Extent → L} {header stop available available' : Nat}

/-- Octets behind a declared end do not count. -/
theorem clamped_eq (hstop : stop ≤ available) (hstop' : stop ≤ available') :
    clamped place header (some stop) available = clamped place header (some stop) available' := by
  simp only [clamped, Option.getD_some, Nat.min_eq_left hstop, Nat.min_eq_left hstop',
    Nat.not_lt.mpr hstop, Nat.not_lt.mpr hstop']

theorem truncated_clamped (hcut : available < stop) :
    (clamped place header (some stop) available).truncated = true := by
  simp only [clamped, Option.getD_some, hcut, decide_true]

end Decoding

open Decoding (clamped)

variable {p data : Octets}

/-! ## Headers -/

namespace Ethernet

/-- Where a frame ends if it has an 802.3 length. -/
def declaredStop? (e : Ethernet) : Option Nat :=
  e.length?.map fun length => headerLength + length.toNat

theorem declaredEnd_eq (e : Ethernet) (available : Nat) :
    e.declaredEnd available = e.declaredStop?.getD available := by
  unfold declaredEnd declaredStop?
  cases e.length? <;> rfl

/-- Octets that begin with a frame that is read are read as that frame, up to its end. -/
theorem decode_eq_clamped {old : Ethernet} (h : (old.decode p).error = none) (hpre : p <+: data) :
    old.decode data =
      clamped (fun e => { (old.decode p).layer with extent := e }) headerLength
        (old.decode p).layer.declaredStop? data.length := by
  have hlong : ¬ p.length < headerLength := by
    intro hshort
    simp [decode, hshort, Decoding.reject] at h
  have hfixed : 14 ≤ p.length := Nat.le_of_not_lt hlong
  have hdestination : Header.destination p = Header.destination data :=
    congrArg MacAddress.mk (blockAt_of_isPrefix hpre (by omega))
  have hsource : Header.source p = Header.source data :=
    congrArg MacAddress.mk (blockAt_of_isPrefix hpre (by omega))
  have htype : Header.etherType p = Header.etherType data :=
    congrArg EtherType.ofNumber (be16At_of_isPrefix hpre hfixed)
  simp only [decode, hlong, not_lt_of_isPrefix hpre hlong, if_false, hdestination, hsource, htype,
    clamped, declaredEnd_eq]
  rfl

end Ethernet

namespace Ipv4

/-- Where a packet ends if its total length is set. -/
def declaredStop? (q : Ipv4) : Option Nat := if q.length = 0 then none else some q.length.toNat

theorem declaredEnd_eq (q : Ipv4) (available : Nat) :
    q.declaredEnd available = q.declaredStop?.getD available := by
  unfold declaredEnd declaredStop?
  split <;> rfl

/-- More octets do not make a header wrong. -/
theorem headerError_of_le {q : Ipv4} {available available' : Nat}
    (h : q.headerError available = none) (hle : available ≤ available') :
    q.headerError available' = none := by
  obtain ⟨-, hinside, -⟩ := bounds_of_headerError h
  rcases headerError_cases q with ⟨reason, hwrong⟩ | ⟨-, hchecks⟩
  · rw [hwrong] at h
    cases h
  · rw [hchecks, if_neg (Nat.not_lt.mpr (hinside.trans hle))]

/-- Octets that begin with a header that is read are read with that header, options included. -/
theorem decode_eq_clamped {old : Ipv4} (h : (old.decode p).error = none) (hpre : p <+: data) :
    old.decode data =
      clamped (fun e => { (old.decode p).layer with extent := e })
        (old.decode p).layer.headerLength (old.decode p).layer.declaredStop? data.length := by
  obtain ⟨hfixed, hchecks, hwalk, hlayer⟩ := of_decode h
  obtain ⟨-, hinside, -⟩ := bounds_of_headerError hchecks
  have hlong : ¬ data.length < minHeaderLength := Nat.not_lt.mpr (hfixed.trans hpre.length_le)
  have hquiet : (OptionWalk.collect .kindLength .ipv4
      (slice p minHeaderLength (readFixed old p).headerLength)).truncated = false := by
    rw [Bool.eq_false_iff]
    intro hsignal
    have hcause := (OptionWalk.signals_collect _ _ _).truncated_iff.mp hsignal
    rw [hwalk] at hcause
    simp at hcause
  rw [hlayer]
  unfold decode
  rw [if_neg hlong, ← readFixed_of_isPrefix old hpre hfixed]
  simp only [headerError_of_le hchecks hpre.length_le, ← slice_of_isPrefix hpre hinside, hwalk,
    hquiet, Bool.or_false, clamped, declaredEnd_eq]
  rfl

end Ipv4

namespace Ipv6

/-- Where a packet ends if its payload length is set. -/
def declaredStop? (q : Ipv6) : Option Nat :=
  if q.length = 0 then none else some (headerLength + q.length.toNat)

theorem declaredEnd_eq (q : Ipv6) (available : Nat) :
    q.declaredEnd available = q.declaredStop?.getD available := by
  unfold declaredEnd declaredStop?
  split <;> rfl

theorem decode_eq_clamped {old : Ipv6} (h : (old.decode p).error = none) (hpre : p <+: data) :
    old.decode data =
      clamped (fun e => { (old.decode p).layer with extent := e }) headerLength
        (old.decode p).layer.declaredStop? data.length := by
  unfold decode at h ⊢
  split at h
  · cases h
  · next hfixed =>
      rw [if_neg hfixed, if_neg (not_lt_of_isPrefix hpre hfixed),
        ← readFixed_of_isPrefix old hpre (Nat.le_of_not_lt hfixed)]
      simp only at h ⊢
      split at h
      · cases h
      · next hversion =>
          simp only [if_neg hversion, clamped, declaredEnd_eq]
          rfl

end Ipv6

namespace Udp

/-- Where a datagram ends if its length is set. -/
def declaredStop? (u : Udp) : Option Nat := if u.length = 0 then none else some u.length.toNat

theorem declaredEnd_eq (u : Udp) (available : Nat) :
    u.declaredEnd available = u.declaredStop?.getD available := by
  unfold declaredEnd declaredStop?
  split <;> rfl

theorem decode_eq_clamped {old : Udp} (h : (old.decode p).error = none) (hpre : p <+: data) :
    old.decode data =
      clamped (fun e => { (old.decode p).layer with extent := e }) headerLength
        (old.decode p).layer.declaredStop? data.length := by
  unfold decode at h ⊢
  split at h
  · cases h
  · next hfixed =>
      rw [if_neg hfixed, if_neg (not_lt_of_isPrefix hpre hfixed),
        ← readFixed_of_isPrefix old hpre (Nat.le_of_not_lt hfixed)]
      simp only at h ⊢
      split at h
      · cases h
      · next hlength =>
          simp only [if_neg hlength, clamped, declaredEnd_eq]
          rfl

end Udp

/-! ## Every built-in layer -/

namespace BuiltinLayer

/-- Where a layer ends, if its header declares it. -/
def declaredStop? : BuiltinLayer → Option Nat
  | .ethernet l => l.declaredStop?
  | .ipv4 l => l.declaredStop?
  | .ipv6 l => l.declaredStop?
  | .udp l => l.declaredStop?
  | _ => none

/-- A header declares more than nothing. -/
theorem declaredStop?_pos {layer : BuiltinLayer} {stop : Nat}
    (h : layer.declaredStop? = some stop) : 0 < stop := by
  cases layer with
  | ethernet l =>
      obtain ⟨length, -, rfl⟩ := Option.map_eq_some_iff.mp h
      exact Nat.add_pos_left (by decide) _
  | ipv4 l =>
      obtain ⟨hset, hsome⟩ := Option.ite_none_left_eq_some.mp h
      obtain rfl := Option.some.inj hsome
      exact Nat.pos_of_ne_zero fun hzero => hset (UInt16.toNat_inj.mp hzero)
  | ipv6 l =>
      obtain ⟨-, hsome⟩ := Option.ite_none_left_eq_some.mp h
      obtain rfl := Option.some.inj hsome
      exact Nat.add_pos_left (by decide) _
  | udp l =>
      obtain ⟨hset, hsome⟩ := Option.ite_none_left_eq_some.mp h
      obtain rfl := Option.some.inj hsome
      exact Nat.pos_of_ne_zero fun hzero => hset (UInt16.toNat_inj.mp hzero)
  | _ => cases h

/-- Whether a layer is of one of the protocols whose headers may declare an end. -/
def MayDeclare : BuiltinLayer → Prop
  | .ethernet _ | .ipv4 _ | .ipv6 _ | .udp _ => True
  | _ => False

variable {layer : BuiltinLayer} {stop : Nat}

theorem mayDeclare_of_decode (h : (layer.decode data).layer.declaredStop? = some stop) :
    layer.MayDeclare := by
  cases layer with
  | ethernet | ipv4 | ipv6 | udp => exact trivial
  | _ => cases h

theorem MayDeclare.ne_dns (h : layer.MayDeclare) : layer.layerType ≠ .dns := by
  cases layer with
  | dns l => exact h.elim
  | _ => exact nofun

/-- All octets that begin with octets that are read are read with the same header and the same
declared end. -/
theorem exists_clamped (hdeclare : layer.MayDeclare) (h : (layer.decode p).error = none) :
    ∃ (place : Extent → BuiltinLayer) (header : Nat) (stop? : Option Nat),
      (∀ e, (place e).declaredStop? = stop?) ∧
        ∀ data, p <+: data → layer.decode data = clamped place header stop? data.length := by
  cases layer with
  | ethernet l =>
      refine ⟨fun e => .ethernet { (l.decode p).layer with extent := e }, Ethernet.headerLength,
        (l.decode p).layer.declaredStop?, ?_, ?_⟩
      · intro e
        rfl
      · intro data hpre
        exact congrArg (·.map ethernet) (Ethernet.decode_eq_clamped h hpre)
  | ipv4 l =>
      refine ⟨fun e => .ipv4 { (l.decode p).layer with extent := e }, (l.decode p).layer.headerLength,
        (l.decode p).layer.declaredStop?, ?_, ?_⟩
      · intro e
        rfl
      · intro data hpre
        exact congrArg (·.map ipv4) (Ipv4.decode_eq_clamped h hpre)
  | ipv6 l =>
      refine ⟨fun e => .ipv6 { (l.decode p).layer with extent := e }, Ipv6.headerLength,
        (l.decode p).layer.declaredStop?, ?_, ?_⟩
      · intro e
        rfl
      · intro data hpre
        exact congrArg (·.map ipv6) (Ipv6.decode_eq_clamped h hpre)
  | udp l =>
      refine ⟨fun e => .udp { (l.decode p).layer with extent := e }, Udp.headerLength,
        (l.decode p).layer.declaredStop?, ?_, ?_⟩
      · intro e
        rfl
      · intro data hpre
        exact congrArg (·.map udp) (Udp.decode_eq_clamped h hpre)
  | _ => exact hdeclare.elim

/-- Octets behind a declared end that is there change nothing. -/
theorem decode_of_isPrefix (h : (layer.decode p).error = none)
    (hstop : (layer.decode p).layer.declaredStop? = some stop) (hinside : stop ≤ p.length)
    (hpre : p <+: data) : layer.decode data = layer.decode p := by
  obtain ⟨place, header, stop?, hplace, hread⟩ := exists_clamped (mayDeclare_of_decode hstop) h
  have hself := hread p List.prefix_rfl
  obtain rfl : stop? = some stop := by
    rw [← hstop, hself]
    exact (hplace _).symm
  rw [hself, hread data hpre]
  exact Decoding.clamped_eq (hinside.trans hpre.length_le) hinside

/-- Input that is cut in front of its declared end is signalled as truncated, whether its header
is still read or not. -/
theorem truncated_of_isPrefix (h : (layer.decode data).error = none)
    (hstop : (layer.decode data).layer.declaredStop? = some stop) (hpre : p <+: data)
    (hcut : p.length < stop) : (layer.decode p).truncated = true := by
  have hdeclare := mayDeclare_of_decode hstop
  rcases onlyShort_decode hdeclare.ne_dns hpre h with hok | hshort
  · obtain ⟨place, header, stop?, hplace, hread⟩ := exists_clamped hdeclare hok
    obtain rfl : stop? = some stop := by
      rw [← hstop, hread data hpre]
      exact (hplace _).symm
    rw [hread p List.prefix_rfl]
    exact Decoding.truncated_clamped hcut
  · exact (signals_decode layer p).truncated_iff.mpr (Or.inl hshort)

end BuiltinLayer

end PacketLayers
