import PacketLayers.Proofs.Decoding.DeclaredEnd
import PacketLayers.Proofs.Packet.Reads

/-!
# Octets behind a declared end

A header that declares where its octets end isolates the layers above it from what follows: a
frame check sequence, padding, or whatever else a capture holds there.  Two packets whose octets
agree up to a declared end are decoded alike from there on, whatever stands behind it in one of
them (`Packet.AlikeBehind`), and a packet that is cut in front of a declared end is truncated.

The main statement is `Packet.declared_end_isolates`.
-/

namespace PacketLayers

namespace Packet

variable {L : Type} [Layer L] {p q : Packet L} {root type : LayerType} {n offset stop : Nat}

/-! ## One step -/

/-- A packet that is truncated stays so. -/
theorem truncated_advance (h : p.truncated = true) : p.advance.truncated = true := by
  refine advance_cases (motive := fun _ q => q.truncated = true) p (fun _ => h) ?_
  intro q hnext
  obtain ⟨offset, stop, type, -, ⟨layer, -, rfl⟩ | ⟨error, -, rfl⟩⟩ := decodeNext_eq_some hnext
  · simp only [h, Bool.true_or]
  · simp only [h, Bool.true_or]

theorem truncated_decodeAll (h : p.truncated = true) : p.decodeAll.truncated = true := by
  obtain ⟨steps, hrun, -⟩ := exists_steps_decodeAll p
  rw [hrun]
  clear hrun
  induction steps generalizing p with
  | zero => exact h
  | succ steps ih =>
      rw [Function.iterate_succ_apply]
      exact ih (truncated_advance h)

/-- A packet is truncated if its first decoder said so. -/
theorem truncated_decodeAll_start {decoders : DecoderTable L} {options : DecodeOptions}
    {data : Octets} (h : (attempt decoders options root data).2 = true) :
    (start data root options decoders).decodeAll.truncated = true := by
  have hsignal : (attempt decoders options root (slice data 0 data.length)).2 = true := by
    rw [slice_zero_length]
    exact h
  rw [← decodeAll_iterate 1]
  apply truncated_decodeAll
  rw [Function.iterate_one, advance_of_pending (p := start data root options decoders) rfl]
  exact (Bool.false_or _).trans hsignal

/-! ## Two packets -/

/-- Two packets, the second with further octets, that are decoded in the same way and have come
equally far. -/
structure Parallel (p q : Packet L) : Prop where
  data : p.data <+: q.data
  options : q.options = p.options
  decoders : q.decoders = p.decoders
  count : q.layers.length = p.layers.length
  truncated : q.truncated = p.truncated

/-- Parallel packets that agree in all but their first `n` layers, and stand at the same place. -/
structure AlikeBehind (n : Nat) (p q : Packet L) : Prop extends Parallel p q where
  layers : q.layers.drop n = p.layers.drop n
  state : q.state = p.state

omit [Layer L] in
theorem AlikeBehind.push (h : p.AlikeBehind n q) (placed : PlacedLayer L) (state : PacketState)
    (truncated : Bool) :
    (p.push placed state truncated).AlikeBehind n (q.push placed state truncated) where
  data := h.data
  options := h.options
  decoders := h.decoders
  count := by
    simp only [Packet.push, List.length_append, h.count]
  truncated := rfl
  layers := by
    simp only [Packet.push, List.drop_append, h.layers, h.count]
  state := rfl

theorem AlikeBehind.advance (h : p.AlikeBehind n q) (hplaced : p.Placed root) :
    p.advance.AlikeBehind n q.advance := by
  cases hstate : p.state with
  | pending offset stop type =>
      have hinput : slice p.data offset stop = slice q.data offset stop :=
        slice_of_isPrefix h.data (hplaced.pending offset stop type hstate).inside
      rw [advance_of_pending hstate, advance_of_pending (h.state.trans hstate)]
      simp only [h.decoders, h.options, h.count, h.truncated, ← hinput]
      exact h.push _ _ _
  | done | failed =>
      have hend : p.decodeNext = none := by
        rw [decodeNext_eq_none_iff, hstate]
        exact fun _ _ _ => nofun
      have hend' : q.decodeNext = none := by
        rw [decodeNext_eq_none_iff, h.state, hstate]
        exact fun _ _ _ => nofun
      rw [advance_of_decodeNext_eq_none hend, advance_of_decodeNext_eq_none hend']
      exact h

theorem AlikeBehind.iterate (h : p.AlikeBehind n q) (hplaced : p.Placed root) (steps : Nat) :
    (Packet.advance^[steps] p).AlikeBehind n (Packet.advance^[steps] q) := by
  induction steps generalizing p q with
  | zero => exact h
  | succ steps ih =>
      rw [Function.iterate_succ_apply, Function.iterate_succ_apply]
      exact ih (h.advance hplaced) hplaced.advance

/-- Packets that are alike at some place are alike at their end. -/
theorem AlikeBehind.decodeAll (h : p.AlikeBehind n q) (hplaced : p.Placed root) :
    p.decodeAll.AlikeBehind n q.decodeAll := by
  obtain ⟨steps, hrun, hend⟩ := exists_steps_decodeAll p
  have halike := h.iterate hplaced steps
  have hend' : (Packet.advance^[steps] q).decodeNext = none := by
    rw [hrun, decodeNext_eq_none_iff] at hend
    rw [decodeNext_eq_none_iff, halike.state]
    exact hend
  rw [hrun, ← iterate_advance_eq_decodeAll hend']
  exact halike

/-- Where parallel packets get the same layer from what they have left, they are alike behind
the layers in front of it. -/
theorem Parallel.advance_of_attempt (h : p.Parallel q) (layer : L) (signal : Bool) {stop' : Nat}
    (hp : p.state = .pending offset stop type) (hq : q.state = .pending offset stop' type)
    (hfirst : attempt p.decoders p.options type (slice p.data offset stop) = (.ok layer, signal))
    (hsecond : attempt p.decoders p.options type (slice q.data offset stop') =
      (.ok layer, signal)) :
    p.advance.AlikeBehind p.layers.length q.advance := by
  rw [← h.decoders, ← h.options] at hsecond
  rw [Packet.advance_of_attempt hp hfirst, Packet.advance_of_attempt hq hsecond]
  constructor
  case toParallel =>
    refine ⟨h.data, h.options, h.decoders, ?_, ?_⟩
    · simp only [pushDecoded, Packet.push, List.length_append, h.count]
    · simp only [pushDecoded, Packet.push, h.truncated]
  case layers =>
    simp only [pushDecoded, Packet.push, List.drop_left]
    rw [← h.count, List.drop_left]
  case state => rfl

omit [Layer L] in
theorem parallel_start {data whole : Octets} (hpre : data <+: whole) (root : LayerType)
    (options : DecodeOptions) (decoders : DecoderTable L) :
    (start data root options decoders).Parallel (start whole root options decoders) :=
  ⟨hpre, rfl, rfl, rfl, rfl⟩

/-! ## What is seen of two packets -/

/-- Behind their first `n` layers two packets hold the same layers at the same positions, with
the same octets, and they ended alike. -/
def SameBehind (n : Nat) (p q : Packet L) : Prop :=
  (q.layers.drop n).map q.view = (p.layers.drop n).map p.view ∧ q.state = p.state ∧
    q.truncated = p.truncated

/-- Layers lie inside the octets of their packet, which the other one begins with. -/
theorem AlikeBehind.sameBehind (h : p.AlikeBehind n q) (hlaid : p.Laid root) :
    p.SameBehind n q := by
  refine ⟨?_, h.state, h.truncated⟩
  rw [h.layers]
  apply List.map_congr_left
  intro placed hplaced
  obtain ⟨hcontents, hgap, hpayload, hinside⟩ := hlaid.inside placed (List.mem_of_mem_drop hplaced)
  have hwhole : p.contents placed = q.contents placed :=
    slice_of_isPrefix h.data (by omega)
  have hcarried : p.payload placed = q.payload placed := slice_of_isPrefix h.data hinside
  simp only [view, hwhole, hcarried]

/-- Packets that are alike after some steps look the same at their end. -/
theorem sameBehind_decodeAll (steps : Nat)
    (h : (advance^[steps] p).AlikeBehind n (advance^[steps] q)) (hplaced : p.Placed root) :
    p.decodeAll.SameBehind n q.decodeAll := by
  rw [← decodeAll_iterate steps p, ← decodeAll_iterate steps q]
  obtain ⟨more, hrun, -⟩ := exists_steps_decodeAll (advance^[steps] p)
  have hend : (advance^[steps] p).decodeAll.Placed root := by
    rw [hrun]
    exact (hplaced.iterate steps).iterate more
  exact (h.decodeAll (hplaced.iterate steps)).sameBehind hend.toLaid

/-! ## Declared ends -/

variable {options : DecodeOptions} {data whole : Octets}

/-- The built-in decoder of a type accepts some octets, and what it reads ends at `stop`, which
is inside of them. -/
def Delimited (options : DecodeOptions) (type : LayerType) (data : Octets) (stop : Nat) : Prop :=
  ∃ layer, (attempt BuiltinLayer.decoders options type data).1 = .ok layer ∧
    layer.declaredStop? = some stop ∧ stop ≤ data.length

theorem Delimited.exists_fresh (h : Delimited options type data stop) :
    ∃ fresh, BuiltinLayer.decoders.create type options = some fresh ∧
      (fresh.decode data).error = none ∧
      (fresh.decode data).layer.declaredStop? = some stop ∧ stop ≤ data.length := by
  obtain ⟨layer, hok, hstop, hinside⟩ := h
  obtain ⟨fresh, hfresh, herror, rfl⟩ := exists_decode_of_attempt (Prod.ext hok rfl)
  exact ⟨fresh, hfresh, herror, hstop, hinside⟩

/-- Octets behind a declared end do not reach the decoder. -/
theorem Delimited.exists_attempt (h : Delimited options type data stop) :
    ∃ layer signal, ∀ whole, data <+: whole →
      attempt BuiltinLayer.decoders options type whole = (.ok layer, signal) := by
  obtain ⟨fresh, hfresh, herror, hstop, hinside⟩ := h.exists_fresh
  refine ⟨(fresh.decode data).layer, (fresh.decode data).truncated, ?_⟩
  intro whole hpre
  have hread := BuiltinLayer.decode_of_isPrefix herror hstop hinside hpre
  have herror' : (fresh.decode whole).error = none := by rw [hread, herror]
  rw [attempt_of_decode hfresh herror', hread]

theorem Delimited.signal_of_cut (h : Delimited options type data stop) (hpre : whole <+: data)
    (hcut : whole.length < stop) :
    (attempt BuiltinLayer.decoders options type whole).2 = true := by
  obtain ⟨fresh, hfresh, herror, hstop, -⟩ := h.exists_fresh
  exact signal_of_attempt_iff.mpr
    ⟨fresh, hfresh, BuiltinLayer.truncated_of_isPrefix herror hstop hpre hcut⟩

theorem Delimited.pos (h : Delimited options type data stop) : 0 < data.length := by
  obtain ⟨layer, -, hstop, hinside⟩ := h
  exact (BuiltinLayer.declaredStop?_pos hstop).trans_le hinside

/-- A frame without an 802.3 length carries all octets that are there. -/
theorem attempt_ethernet_of_isPrefix {e : Ethernet}
    (h : (attempt BuiltinLayer.decoders options .ethernet data).1 = .ok (.ethernet e))
    (hlength : e.length? = none) (hpre : data <+: whole) :
    attempt BuiltinLayer.decoders options .ethernet whole =
      (.ok (.ethernet { e with extent := .split Ethernet.headerLength whole.length }), false) := by
  have hfresh : BuiltinLayer.decoders.create .ethernet options =
    some (.ethernet .fresh) := rfl
  obtain ⟨fresh, hfresh', herror, hlayer⟩ := exists_decode_of_attempt (Prod.ext h rfl)
  obtain rfl := Option.some.inj (hfresh.symm.trans hfresh')
  have herror' : (Ethernet.fresh.decode data).error = none := herror
  obtain rfl : (Ethernet.fresh.decode data).layer = e := BuiltinLayer.ethernet.inj hlayer
  have hstop : (Ethernet.fresh.decode data).layer.declaredStop? = none := by
    rw [Ethernet.declaredStop?, hlength, Option.map_none]
  have hread := Ethernet.decode_eq_clamped herror' hpre
  rw [hstop] at hread
  have hwhole : (BuiltinLayer.ethernet .fresh).decode whole =
      (Ethernet.fresh.decode whole).map .ethernet := rfl
  rw [attempt_of_decode hfresh (by rw [hwhole, hread]; rfl), hwhole, hread]
  simp only [Decoding.clamped, Decoding.map, Option.getD_none, Nat.min_self, Nat.lt_irrefl,
    decide_false]

/-- The octets behind a position. -/
theorem slice_to_end (i : Nat) : slice data i data.length = data.drop i := by
  rw [slice, ← List.length_drop, List.take_length]

/-- Behind a frame without an 802.3 length the pipeline is at its payload. -/
theorem advance_start_ethernet {e : Ethernet}
    (h : (attempt BuiltinLayer.decoders options .ethernet data).1 = .ok (.ethernet e))
    (hlength : e.length? = none) (hpre : data <+: whole)
    (hpayload : Ethernet.headerLength < data.length) :
    let p := (start whole .ethernet options BuiltinLayer.decoders).advance
    p.state = .pending Ethernet.headerLength whole.length e.next ∧ p.layers.length = 1 ∧
      p.truncated = false := by
  intro p
  have hlong := hpayload.trans_le hpre.length_le
  have hp : p = _ := advance_start_of_attempt (attempt_ethernet_of_isPrefix h hlength hpre)
  rw [hp]
  refine ⟨?_, rfl, rfl⟩
  have hpos : whole.length - Ethernet.headerLength ≠ 0 := Nat.sub_ne_zero_of_lt hlong
  simp only [pushDecoded, push, stateBehind, Layer.extent, BuiltinLayer.extent, Extent.split,
    Span.length, hpos, if_false, Nat.zero_add]
  rfl

/-- A packet whose first header declares its end is the same with octets behind that end. -/
theorem Delimited.sameBehind_append (h : Delimited options root data stop) (trailer : Octets) :
    (make data root options BuiltinLayer.decoders).decodeAll.SameBehind 0
      (make (data ++ trailer) root options BuiltinLayer.decoders).decodeAll := by
  have hpre : data <+: data ++ trailer := List.prefix_append data trailer
  obtain ⟨layer, signal, hattempt⟩ := h.exists_attempt
  rw [decodeAll_make, decodeAll_make]
  have halike : (start data root options BuiltinLayer.decoders).advance.AlikeBehind 0
      (start (data ++ trailer) root options BuiltinLayer.decoders).advance := by
    apply (parallel_start hpre root options BuiltinLayer.decoders).advance_of_attempt layer signal rfl rfl
    · simp only [start, slice_zero_length]
      exact hattempt data List.prefix_rfl
    · simp only [start, slice_zero_length]
      exact hattempt (data ++ trailer) hpre
  exact sameBehind_decodeAll 1 halike (placed_start _ _ _ _)

/-- A packet that is cut in front of the end that its first header declares is truncated. -/
theorem Delimited.truncated_of_cut (h : Delimited options root data stop) {k : Nat}
    (hk : k < stop) :
    (make (data.take k) root options BuiltinLayer.decoders).decodeAll.truncated = true := by
  have hshort : (data.take k).length < stop := (List.length_take_le _ _).trans_lt hk
  rw [decodeAll_make]
  exact truncated_decodeAll_start (h.signal_of_cut (List.take_prefix k data) hshort)

/-- A frame whose payload declares its end is, behind its own header, the same with octets
behind the frame. -/
theorem sameBehind_ethernet_append {e : Ethernet}
    (h : (attempt BuiltinLayer.decoders options .ethernet data).1 = .ok (.ethernet e))
    (hlength : e.length? = none)
    (hdelimited : Delimited options e.next (data.drop Ethernet.headerLength) stop)
    (trailer : Octets) :
    (make data .ethernet options BuiltinLayer.decoders).decodeAll.SameBehind 1
      (make (data ++ trailer) .ethernet options BuiltinLayer.decoders).decodeAll := by
  have hpayload : Ethernet.headerLength < data.length := by
    have hpos := hdelimited.pos
    rw [List.length_drop] at hpos
    exact Nat.lt_of_sub_pos hpos
  have hpre : data <+: data ++ trailer := List.prefix_append data trailer
  obtain ⟨layer, signal, hattempt⟩ := hdelimited.exists_attempt
  obtain ⟨hp, hcount, hquiet⟩ := advance_start_ethernet h hlength List.prefix_rfl hpayload
  obtain ⟨hq, hcount', hquiet'⟩ := advance_start_ethernet h hlength hpre hpayload
  obtain ⟨hdata, hoptions, hdecoders⟩ :=
    advance_frame (start data .ethernet options BuiltinLayer.decoders)
  obtain ⟨hdata', hoptions', hdecoders'⟩ :=
    advance_frame (start (data ++ trailer) .ethernet options BuiltinLayer.decoders)
  rw [decodeAll_make, decodeAll_make]
  have hparallel : (start data .ethernet options BuiltinLayer.decoders).advance.Parallel
      (start (data ++ trailer) .ethernet options BuiltinLayer.decoders).advance := by
    refine ⟨?_, hoptions'.trans hoptions.symm, hdecoders'.trans hdecoders.symm,
      hcount'.trans hcount.symm, hquiet'.trans hquiet.symm⟩
    rw [hdata, hdata']
    exact hpre
  have halike := hparallel.advance_of_attempt layer signal hp hq
  rw [hdata, hdata', hoptions, hdecoders, hcount] at halike
  simp only [start, slice_to_end] at halike
  apply sameBehind_decodeAll 2 _ (placed_start _ _ _ _)
  exact halike (hattempt _ List.prefix_rfl) (hattempt _ (hpre.drop Ethernet.headerLength))

/-- Octets that a header declares to end at some position are isolated from what follows.  As a
packet they have the same layers with the same octets, the same state and the same truncation
flag whatever stands behind them, and are truncated if they are cut in front of that position.
As the payload of a frame without a length of its own they have, behind the header of the frame,
the same layers whatever stands behind the frame. -/
theorem declared_end_isolates (h : Delimited options type data stop) :
    (∀ trailer,
      (make data type options BuiltinLayer.decoders).decodeAll.SameBehind 0
        (make (data ++ trailer) type options BuiltinLayer.decoders).decodeAll) ∧
    (∀ k < stop,
      (make (data.take k) type options BuiltinLayer.decoders).decodeAll.truncated = true) ∧
    ∀ (frame : Octets) (e : Ethernet),
      (attempt BuiltinLayer.decoders options .ethernet frame).1 = .ok (.ethernet e) →
      e.length? = none → e.next = type → frame.drop Ethernet.headerLength = data →
      ∀ trailer,
        (make frame .ethernet options BuiltinLayer.decoders).decodeAll.SameBehind 1
          (make (frame ++ trailer) .ethernet options BuiltinLayer.decoders).decodeAll := by
  refine ⟨h.sameBehind_append, fun k => h.truncated_of_cut, ?_⟩
  rintro frame e hframe hlength rfl rfl trailer
  exact sameBehind_ethernet_append hframe hlength h trailer

/-- An IPv4 packet of 29 octets with a datagram of one octet. -/
def datagramOctets : Octets :=
  [0x45, 0, 0, 29, 0, 0, 0, 0, 64, 17, 0, 0, 10, 0, 0, 1, 10, 0, 0, 2,
    0, 9, 0, 9, 0, 9, 0, 0, 42]

theorem delimited_datagramOctets : Delimited .standard .ipv4 datagramOctets 29 := by
  have hread : ((BuiltinLayer.ipv4 .fresh).decode datagramOctets).error = none := by
    decide +kernel
  refine ⟨_, congrArg Prod.fst (attempt_of_decode rfl hread), ?_, by decide⟩
  decide +kernel

/-- The packet behind the header of a frame, and with four octets behind it. -/
theorem declared_end_isolates_datagramOctets :
    let frame : Octets := List.replicate 12 0 ++ [8, 0] ++ datagramOctets
    Delimited .standard .ipv4 datagramOctets 29 ∧
      (make (datagramOctets.take 28) .ipv4 .standard BuiltinLayer.decoders).decodeAll.truncated =
        true ∧
      (make frame .ethernet .standard BuiltinLayer.decoders).decodeAll.SameBehind 1
        (make (frame ++ [1, 2, 3, 4]) .ethernet .standard BuiltinLayer.decoders).decodeAll := by
  intro frame
  obtain ⟨-, hcut, hframe⟩ := declared_end_isolates delimited_datagramOctets
  have hread : ((BuiltinLayer.ethernet .fresh).decode frame).error = none := by
    decide +kernel
  refine ⟨delimited_datagramOctets, hcut 28 (by decide), ?_⟩
  apply hframe frame (Ethernet.fresh.decode frame).layer
  · exact congrArg Prod.fst (attempt_of_decode rfl hread)
  · decide +kernel
  · decide +kernel
  · decide

end Packet
end PacketLayers
