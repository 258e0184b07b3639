import PacketLayers.Proofs.Packet.Reads

/-!
# Packets inside of packets

What a layer carries is a packet of its own.  From a layer on, a packet is decoded as the octets
that are left would be on their own, whatever stands in front of them and behind them: only the
positions of the layers and the index of a failure tell the two apart.

`Packet.graft` puts the layers of such an inner packet behind those of the outer one.  It commutes
with every step (`graft_advance`), hence with runs.  The main statement is `decodeAll_make_of_first`.
-/

namespace PacketLayers

/-- The layer of a packet whose octets begin at a position of another one. -/
def PlacedLayer.shift {L : Type} (placed : PlacedLayer L) (n : Nat) : PlacedLayer L :=
  { placed with offset := n + placed.offset }

/-- The state of a packet as a part of another one, in which its octets begin at a position and a
number of layers stand in front of its own. -/
def PacketState.within (n count : Nat) : PacketState → PacketState
  | .pending offset stop next => .pending (n + offset) (n + stop) next
  | .done => .done
  | .failed index error => .failed (count + index) error

namespace Packet

variable {L : Type} [Layer L] {outer inner : Packet L} {root type : LayerType} {n stop : Nat}

/-- A packet that goes on, from a position on, as another packet does. -/
def graft (outer : Packet L) (n : Nat) (inner : Packet L) : Packet L :=
  { outer with
    layers := outer.layers ++ inner.layers.map fun placed => placed.shift n
    state := inner.state.within n outer.layers.length
    truncated := outer.truncated || inner.truncated }

/-- The octets that are left in a packet, up to `stop`, as a packet. -/
structure Carries (outer : Packet L) (n stop : Nat) (inner : Packet L) : Prop where
  data : inner.data = slice outer.data n stop
  ordered : n ≤ stop
  inside : stop ≤ outer.data.length
  options : inner.options = outer.options
  decoders : inner.decoders = outer.decoders

omit [Layer L] in
theorem Carries.length_data (h : outer.Carries n stop inner) :
    inner.data.length = stop - n := by
  rw [h.data, length_slice h.inside]

omit [Layer L] in
theorem Carries.slice_eq (h : outer.Carries n stop inner) {first last : Nat}
    (hlast : last ≤ inner.data.length) :
    slice inner.data first last = slice outer.data (n + first) (n + last) := by
  have hordered := h.ordered
  rw [h.length_data] at hlast
  rw [h.data, slice_slice (by omega)]

theorem Carries.advance (h : outer.Carries n stop inner) : outer.Carries n stop inner.advance := by
  obtain ⟨hdata, hoptions, hdecoders⟩ := advance_frame inner
  exact ⟨hdata.trans h.data, h.ordered, h.inside, hoptions.trans h.options,
    hdecoders.trans h.decoders⟩

/-! ## One step -/

theorem stateOf_within (offset index count : Nat) (outcome : Except DecodeError L) :
    (stateOf offset index outcome).within n count =
      stateOf (n + offset) (count + index) outcome := by
  cases outcome with
  | error error => rfl
  | ok layer =>
      simp only [stateOf, stateBehind]
      split
      · rfl
      · simp only [PacketState.within, Nat.add_assoc]

omit [Layer L] in
theorem graft_push (layer : PacketLayer L) (offset : Nat) (state : PacketState)
    (truncated : Bool) :
    outer.graft n (inner.push ⟨layer, offset⟩ state (inner.truncated || truncated)) =
      (outer.graft n inner).push ⟨layer, n + offset⟩ (state.within n outer.layers.length)
        ((outer.truncated || inner.truncated) || truncated) := by
  simp only [graft, push, List.map_append, List.map_cons, List.map_nil, List.append_assoc,
    Bool.or_assoc, PlacedLayer.shift]

/-- A packet goes on by a step as what it carries does on its own. -/
theorem graft_advance (h : outer.Carries n stop inner) (hplaced : inner.Placed root) :
    (outer.graft n inner).advance = outer.graft n inner.advance := by
  cases hstate : inner.state with
  | pending offset last type =>
      have hgraft : (outer.graft n inner).state = .pending (n + offset) (n + last) type := by
        simp only [graft, hstate, PacketState.within]
      -- What is left lies inside the inner packet, hence is the same in both.
      have hinput : slice inner.data offset last = slice outer.data (n + offset) (n + last) :=
        h.slice_eq (hplaced.pending offset last type hstate).inside
      rw [advance_of_pending hgraft, advance_of_pending hstate, graft_push, stateOf_within, hinput,
        h.options, h.decoders]
      simp only [graft, List.length_append, List.length_map]
  | done | failed =>
      have hend : inner.decodeNext = none := by
        rw [decodeNext_eq_none_iff, hstate]
        exact fun _ _ _ => nofun
      have hend' : (outer.graft n inner).decodeNext = none := by
        simp only [decodeNext_eq_none_iff, graft, hstate, PacketState.within]
        exact fun _ _ _ => nofun
      rw [advance_of_decodeNext_eq_none hend, advance_of_decodeNext_eq_none hend']

/-! ## Runs -/

theorem graft_iterate (h : outer.Carries n stop inner) (hplaced : inner.Placed root)
    (steps : Nat) :
    advance^[steps] (outer.graft n inner) = outer.graft n (advance^[steps] inner) := by
  induction steps generalizing inner with
  | zero => rfl
  | succ steps ih =>
      rw [Function.iterate_succ_apply, Function.iterate_succ_apply, graft_advance h hplaced]
      exact ih h.advance hplaced.advance

/-- A packet that goes on as another one does ends as that one does. -/
theorem state_graft_of_end (outer : Packet L) (n : Nat) (hend : inner.decodeNext = none) :
    inner.state = .done ∧ (outer.graft n inner).state = .done ∨
      ∃ index error, inner.state = .failed index error ∧
        (outer.graft n inner).state = .failed (outer.layers.length + index) error := by
  rcases state_of_decodeNext_eq_none hend with hdone | ⟨index, error, hfailed⟩
  · refine Or.inl ⟨hdone, ?_⟩
    simp only [graft, hdone, PacketState.within]
  · refine Or.inr ⟨index, error, hfailed, ?_⟩
    simp only [graft, hfailed, PacketState.within]

theorem graft_decodeAll (h : outer.Carries n stop inner) (hplaced : inner.Placed root) :
    (outer.graft n inner).decodeAll = outer.graft n inner.decodeAll := by
  obtain ⟨steps, hrun, hend⟩ := exists_steps_decodeAll inner
  have hsame := graft_iterate h hplaced steps
  rw [← hrun] at hsame
  rw [← hsame]
  refine (iterate_advance_eq_decodeAll ?_).symm
  rw [hsame, decodeNext_eq_none_iff]
  intro offset last type hpending
  rcases state_graft_of_end outer n hend with ⟨-, hdone⟩ | ⟨index, error, -, hfailed⟩
  · rw [hdone] at hpending
    cases hpending
  · rw [hfailed] at hpending
    cases hpending

/-- Where a pipeline stands, it goes on with the packet of the octets that are left. -/
theorem decodeAll_eq_graft (hstate : outer.state = .pending n stop type) (hordered : n ≤ stop)
    (hinside : stop ≤ outer.data.length) :
    outer.decodeAll = outer.graft n
      (start (slice outer.data n stop) type outer.options outer.decoders).decodeAll := by
  have hcarries : outer.Carries n stop
      (start (slice outer.data n stop) type outer.options outer.decoders) :=
    ⟨rfl, hordered, hinside, rfl, rfl⟩
  rw [← graft_decodeAll hcarries (placed_start _ _ _ _)]
  congr 1
  simp only [graft, start, List.map_nil, List.append_nil, Bool.or_false, PacketState.within,
    length_slice hinside, Nat.add_zero, Nat.add_sub_of_le hordered]
  rw [← hstate]

/-- The octets of a layer of an inner packet are its octets in the outer one. -/
theorem octets_graft (h : outer.Carries n stop inner) (hlaid : inner.Laid root)
    {placed : PlacedLayer L} (hmem : placed ∈ inner.layers) :
    (outer.graft n inner).contents (placed.shift n) = inner.contents placed ∧
      (outer.graft n inner).payload (placed.shift n) = inner.payload placed := by
  obtain ⟨-, hgap, hpayload, hinside⟩ := hlaid.inside placed hmem
  constructor
  · simp only [contents, PlacedLayer.shift, graft, Nat.add_assoc]
    rw [h.slice_eq (by omega)]
  · simp only [payload, PlacedLayer.shift, graft, Nat.add_assoc]
    rw [h.slice_eq hinside]

/-! ## Behind the first layer -/

variable {decoders : DecoderTable L} {options : DecodeOptions} {data : Octets} {first : L}

/-- Behind a first layer that carries something, a packet goes on with the packet of the payload. -/
theorem decodeAll_start_of_first
    (hfirst : (attempt decoders options root data).1 = .ok first)
    (hcarried : (Layer.extent first).payload.start < (Layer.extent first).payload.stop) :
    let span := (Layer.extent first).payload
    let outer := (start data root options decoders).pushDecoded 0 first
      (attempt decoders options root data).2
    let inner :=
      (start (slice data span.start span.stop) (Layer.next first) options decoders).decodeAll
    (start data root options decoders).decodeAll = outer.graft span.start inner ∧
      outer.Carries span.start span.stop inner := by
  intro span outer inner
  have hattempt : attempt decoders options root data =
      (.ok first, (attempt decoders options root data).2) := Prod.ext hfirst rfl
  have hstate : outer.state = .pending span.start span.stop (Layer.next first) := by
    have hnonempty : span.length ≠ 0 := Nat.sub_ne_zero_of_lt hcarried
    simp only [outer, pushDecoded, push, stateBehind, span, hnonempty, if_false, Nat.zero_add]
  have hinside : span.stop ≤ outer.data.length := (stop_le_of_attempt hattempt).2
  constructor
  · rw [← decodeAll_iterate 1, Function.iterate_one, advance_start_of_attempt hattempt]
    exact decodeAll_eq_graft hstate (Nat.le_of_lt hcarried) hinside
  · let carried := start (slice data span.start span.stop) (Layer.next first) options decoders
    obtain ⟨steps, hrun, -⟩ := exists_steps_decodeAll carried
    obtain ⟨hdata, hoptions, hdecoders⟩ := iterate_advance_frame steps carried
    rw [← hrun] at hdata hoptions hdecoders
    exact ⟨hdata, Nat.le_of_lt hcarried, hinside, hoptions, hdecoders⟩

/-- Decoding is compositional.  If the first layer of some octets is decoded and carries something,
the packet of the octets consists of that layer and of the layers of the packet of its payload,
decoded as the type that the layer names: the same layers with the same octets, moved by the
position of the payload.  It comes to the same end, where the index of a failure counts the first
layer too, and is truncated if the first decoder or one of the others said so. -/
theorem decodeAll_make_of_first
    (hfirst : (attempt decoders options root data).1 = .ok first)
    (hcarried : (Layer.extent first).payload.start < (Layer.extent first).payload.stop) :
    let span := (Layer.extent first).payload
    let p := (make data root options decoders).decodeAll
    let inner :=
      (make (slice data span.start span.stop) (Layer.next first) options decoders).decodeAll
    p.layers = ⟨.decoded first, 0⟩ :: inner.layers.map (fun placed => placed.shift span.start) ∧
      (inner.state = .done ∧ p.state = .done ∨
        ∃ index error, inner.state = .failed index error ∧ p.state = .failed (index + 1) error) ∧
      p.truncated = ((attempt decoders options root data).2 || inner.truncated) ∧
      ∀ placed ∈ inner.layers,
        p.contents (placed.shift span.start) = inner.contents placed ∧
          p.payload (placed.shift span.start) = inner.payload placed := by
  intro span p inner
  obtain ⟨hgraft, hcarries⟩ := decodeAll_start_of_first hfirst hcarried
  obtain ⟨steps, hrun, hend⟩ := exists_steps_decodeAll
    (start (slice data span.start span.stop) (Layer.next first) options decoders)
  rw [← decodeAll_make, ← decodeAll_make] at hgraft
  rw [← decodeAll_make] at hcarries hrun hend
  have hlaid : inner.Laid (Layer.next first) := by
    have hinner : inner = _ := hrun
    rw [hinner]
    exact ((placed_start _ _ _ _).iterate steps).toLaid
  have hp : p = _ := hgraft
  rw [hp]
  refine ⟨rfl, ?_, rfl, fun placed hmem => octets_graft hcarries hlaid hmem⟩
  rcases state_graft_of_end _ span.start hend with hdone | ⟨index, error, hfailed, hlater⟩
  · exact Or.inl hdone
  · exact Or.inr ⟨index, error, hfailed, hlater.trans (by rw [Nat.add_comm]; rfl)⟩

/-- A frame whose payload is the first octet of an IPv4 header. -/
def shortFrame : Octets := [1, 2, 3, 4, 5, 6, 7, 8, 9, 10, 11, 12, 8, 0, 69]

/-- The packet of the frame is its Ethernet header and the packet of the single octet. -/
theorem decodeAll_make_shortFrame :
    let e := (Ethernet.fresh.decode shortFrame).layer
    let p := (make shortFrame .ethernet .standard BuiltinLayer.decoders).decodeAll
    let inner := (make [69] .ipv4 .standard BuiltinLayer.decoders).decodeAll
    (attempt BuiltinLayer.decoders .standard .ethernet shortFrame).1 = .ok (.ethernet e) ∧
      e.extent.payload.start < e.extent.payload.stop ∧
      p.layers =
        ⟨.decoded (.ethernet e), 0⟩ :: inner.layers.map (fun placed => placed.shift 14) ∧
      inner.state = .failed 0 (.truncated .ipv4 20 1) ∧
      p.state = .failed 1 (.truncated .ipv4 20 1) ∧ p.truncated = inner.truncated := by
  intro e p inner
  have hread : ((BuiltinLayer.ethernet .fresh).decode shortFrame).error = none := by
    decide +kernel
  have hattempt : attempt BuiltinLayer.decoders .standard .ethernet shortFrame =
      (.ok (.ethernet e), false) := attempt_of_decode rfl hread
  have hfirst := congrArg Prod.fst hattempt
  have hcarried : e.extent.payload.start < e.extent.payload.stop := by decide +kernel
  obtain ⟨hlayers, hstate, htruncated, -⟩ := decodeAll_make_of_first hfirst hcarried
  rw [hattempt, Bool.false_or] at htruncated
  have hinner : inner.state = .failed 0 (.truncated .ipv4 20 1) := by decide +kernel
  refine ⟨hfirst, hcarried, hlayers, hinner, ?_, htruncated⟩
  rcases hstate with ⟨hdone, -⟩ | ⟨index, error, hfailed, hlater⟩
  · cases hinner.symm.trans hdone
  · obtain ⟨rfl, rfl⟩ := PacketState.failed.inj (hinner.symm.trans hfailed)
    exact hlater

end Packet
end PacketLayers
