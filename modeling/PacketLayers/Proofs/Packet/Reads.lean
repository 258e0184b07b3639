import PacketLayers.Proofs.Bounds.Builtin

/-!
# What a packet reads

`Reads` says without positions or states what it means to read octets as a layer
type: a decoder accepts the octets as a layer, and either the layer carries nothing
or its payload is read as the type that the layer names.  Each layer comes with its
header, the octets of its own.

A packet that is decoded to its end without a failure holds exactly the layers that
are read from its octets, and it is truncated if any of the decoders said so.
-/

namespace PacketLayers

variable {data : Octets}

theorem slice_slice {start stop first last : Nat} (h : start + last ≤ stop) :
    slice (slice data start stop) first last = slice data (start + first) (start + last) := by
  rw [slice, slice, slice, List.drop_take, List.take_take, List.drop_drop,
    Nat.min_eq_left (by omega)]
  congr 1
  omega

namespace Packet

variable {L : Type} [Layer L] {decoders : DecoderTable L} {options : DecodeOptions}
  {type : LayerType}

/-- The octets of its own of a layer that was read from some octets. -/
def headerOf (layer : L) (data : Octets) : Octets :=
  slice data (Layer.extent layer).contents.start (Layer.extent layer).contents.stop

/-- The octets that a layer carries that was read from some octets. -/
def payloadOf (layer : L) (data : Octets) : Octets :=
  slice data (Layer.extent layer).payload.start (Layer.extent layer).payload.stop

/-- A layer that carries some octets has a payload. -/
theorem payload_length_ne_zero {layer : L}
    (h : payloadOf layer data ≠ []) : (Layer.extent layer).payload.length ≠ 0 := by
  intro hempty
  apply h
  rw [payloadOf, slice]
  simp only [Span.length] at hempty
  rw [hempty, List.take_zero]

/-- Octets are read as a layer type: as these layers, each with its header, and with
this truncation signal. -/
inductive Reads (decoders : DecoderTable L) (options : DecodeOptions) :
    LayerType → Octets → List (L × Octets) → Bool → Prop
  | last {type data layer truncated} :
      attempt decoders options type data = (.ok layer, truncated) →
      (Layer.extent layer).payload.length = 0 →
      Reads decoders options type data [(layer, headerOf layer data)] truncated
  | more {type data layer truncated layers behind} :
      attempt decoders options type data = (.ok layer, truncated) →
      (Layer.extent layer).payload.length ≠ 0 →
      Reads decoders options (Layer.next layer) (payloadOf layer data) layers behind →
      Reads decoders options type data ((layer, headerOf layer data) :: layers)
        (truncated || behind)

/-- The layers of a packet, each with its contents. -/
def readLayers (p : Packet L) : List (PacketLayer L × Octets) :=
  p.layers.map fun placed => (placed.layer, p.contents placed)

/-- A layer that was read, as a packet holds it. -/
def asDecoded (read : L × Octets) : PacketLayer L × Octets := (.decoded read.1, read.2)

/-! ## One layer -/

theorem decodeAll_eq_of_decodeNext {p q : Packet L} (h : p.decodeNext = some q) :
    p.decodeAll = q.decodeAll := by
  have hq : q = advance^[1] p := by simp [advance, h]
  rw [hq, decodeAll_iterate]

theorem decodeAll_eq_of_decodeNext_eq_none {p : Packet L} (h : p.decodeNext = none) :
    p.decodeAll = p :=
  (iterate_advance_eq_decodeAll (n := 0) h).symm

/-- What a packet accepts is what a fresh decoder makes of the input. -/
theorem exists_decode_of_attempt {layer : L} {truncated : Bool}
    (h : attempt decoders options type data = (.ok layer, truncated)) :
    ∃ fresh, decoders.create type options = some fresh ∧
      (Layer.decode fresh data).error = none ∧ (Layer.decode fresh data).layer = layer := by
  unfold attempt at h
  split at h
  · cases h
  · next fresh hfresh =>
      obtain ⟨houtcome, -⟩ := Prod.mk.inj h
      split at houtcome
      · cases houtcome
      · next herror =>
          split at houtcome
          · cases houtcome
          · exact ⟨fresh, hfresh, herror, Except.ok.inj houtcome⟩

/-- What a built-in decoder reads the pipeline accepts. -/
theorem attempt_of_decode {fresh : BuiltinLayer}
    (hfresh : BuiltinLayer.decoders.create type options = some fresh)
    (h : (fresh.decode data).error = none) :
    attempt BuiltinLayer.decoders options type data =
      (.ok (fresh.decode data).layer, (fresh.decode data).truncated) := by
  have hdefect := (BuiltinLayer.splits_of_decode h).defect?_eq_none
  unfold attempt
  rw [hfresh]
  simp only [Layer.decode, h, Layer.extent, hdefect]

/-- A layer that is accepted lies inside its input. -/
theorem stop_le_of_attempt {layer : L} {truncated : Bool}
    (h : attempt decoders options type data = (.ok layer, truncated)) :
    (Layer.extent layer).contents.stop ≤ data.length ∧
      (Layer.extent layer).payload.stop ≤ data.length := by
  have hok : (attempt decoders options type data).1 = .ok layer := by rw [h]
  obtain ⟨⟨hcontents, hgap, hpayload, hstop⟩, -⟩ :=
    Extent.defect?_eq_none_iff.mp (defect?_eq_none_of_attempt hok)
  exact ⟨by omega, hstop⟩

variable {p : Packet L} {offset stop : Nat} {layer : L} {truncated : Bool}

/-- The packet with the layer behind it that is read where the pipeline stands. -/
def pushDecoded (p : Packet L) (offset : Nat) (layer : L) (truncated : Bool) : Packet L :=
  p.push ⟨.decoded layer, offset⟩ (stateBehind offset layer) (p.truncated || truncated)

theorem decodeNext_of_attempt (hstate : p.state = .pending offset stop type)
    (h : attempt p.decoders p.options type (slice p.data offset stop) = (.ok layer, truncated)) :
    p.decodeNext = some (p.pushDecoded offset layer truncated) := by
  unfold decodeNext
  rw [hstate]
  simp only [h]
  rfl

/-- A step of the pipeline adds the layer that is read where it stands. -/
theorem advance_of_attempt (hstate : p.state = .pending offset stop type)
    (h : attempt p.decoders p.options type (slice p.data offset stop) = (.ok layer, truncated)) :
    p.advance = p.pushDecoded offset layer truncated := by
  rw [advance, decodeNext_of_attempt hstate h]
  rfl

theorem advance_start_of_attempt {root : LayerType}
    (h : attempt decoders options root data = (.ok layer, truncated)) :
    (start data root options decoders).advance =
      (start data root options decoders).pushDecoded 0 layer truncated := by
  apply advance_of_attempt rfl
  simp only [start, slice_zero_length]
  exact h

/-- A pipeline that has met a failure does not come to its end without one. -/
theorem ne_done_of_attempt {q : Packet L} {error : DecodeError}
    (hstate : p.state = .pending offset stop type)
    (h : attempt p.decoders p.options type (slice p.data offset stop) = (.error error, truncated))
    (hnext : p.decodeNext = some q) : q.decodeAll.state ≠ .done := by
  have hfailed : q.state = .failed p.layers.length error := by
    unfold decodeNext at hnext
    rw [hstate] at hnext
    simp only [h, Option.some.injEq] at hnext
    rw [← hnext]
  have hend : q.decodeNext = none := by
    rw [decodeNext_eq_none_iff, hfailed]
    intro offset stop type hpending
    cases hpending
  rw [decodeAll_eq_of_decodeNext_eq_none hend, hfailed]
  intro hdone
  cases hdone

/-- What a layer has and carries in the packet is what it has and carries of its input. -/
theorem octets_of_attempt
    (h : attempt p.decoders p.options type (slice p.data offset stop) = (.ok layer, truncated))
    (hle : offset ≤ stop) (hstop : stop ≤ p.data.length) :
    p.contents ⟨.decoded layer, offset⟩ = headerOf layer (slice p.data offset stop) ∧
      p.payload ⟨.decoded layer, offset⟩ = payloadOf layer (slice p.data offset stop) := by
  obtain ⟨hcontents, hpayload⟩ := stop_le_of_attempt h
  rw [length_slice hstop] at hcontents hpayload
  constructor
  · rw [headerOf, slice_slice (by omega)]
    rfl
  · rw [payloadOf, slice_slice (by omega)]
    rfl

/-- The header of a layer is its contents in the packet. -/
theorem readLayers_pushDecoded
    (h : attempt p.decoders p.options type (slice p.data offset stop) = (.ok layer, truncated))
    (hle : offset ≤ stop) (hstop : stop ≤ p.data.length) :
    (p.pushDecoded offset layer truncated).readLayers =
      p.readLayers ++ [asDecoded (layer, headerOf layer (slice p.data offset stop))] := by
  rw [← (octets_of_attempt h hle hstop).1]
  simp only [readLayers, pushDecoded, push, List.map_append, List.map_cons, List.map_nil, asDecoded]
  rfl

/-- The layer that is read where a pipeline stands is the next one of the packet. -/
theorem exists_layer_of_attempt {input : Octets} (hstate : p.state = .pending offset stop type)
    (hinput : slice p.data offset stop = input)
    (h : attempt p.decoders p.options type input = (.ok layer, truncated))
    (hle : offset ≤ stop) (hstop : stop ≤ p.data.length) :
    ∃ placed, p.decodeAll.layers[p.layers.length]? = some placed ∧
      placed.layer = .decoded layer ∧ p.decodeAll.contents placed = headerOf layer input ∧
      p.decodeAll.payload placed = payloadOf layer input := by
  subst hinput
  have hlast : p.advance.layers[p.layers.length]? = some ⟨.decoded layer, offset⟩ := by
    rw [advance_of_attempt hstate h]
    exact List.getElem?_concat_length
  obtain ⟨steps, hrun, -⟩ := exists_steps_decodeAll p.advance
  obtain ⟨later, hkept⟩ := layers_prefix_iterate steps p.advance
  obtain ⟨hframe, -⟩ := iterate_advance_frame steps p.advance
  have hall : p.decodeAll = advance^[steps] p.advance := by
    rw [← decodeAll_iterate 1 p, Function.iterate_one, hrun]
  have hdata : p.decodeAll.data = p.data := by
    rw [hall, hframe, (advance_frame p).1]
  obtain ⟨hcontents, hpayload⟩ := octets_of_attempt h hle hstop
  refine ⟨⟨.decoded layer, offset⟩, ?_, rfl, ?_, ?_⟩
  · rw [hall, ← hkept, List.getElem?_append_left (List.getElem?_eq_some_iff.mp hlast).1]
    exact hlast
  · rw [← hcontents, contents, contents, hdata]
  · rw [← hpayload, payload, payload, hdata]

/-- Behind a layer with a payload the pipeline stands in front of that payload. -/
theorem pending_pushDecoded
    (h : attempt p.decoders p.options type (slice p.data offset stop) = (.ok layer, truncated))
    (hpayload : (Layer.extent layer).payload.length ≠ 0) (hstop : stop ≤ p.data.length) :
    (p.pushDecoded offset layer truncated).state =
        .pending (offset + (Layer.extent layer).payload.start)
          (offset + (Layer.extent layer).payload.stop) (Layer.next layer) ∧
      slice p.data (offset + (Layer.extent layer).payload.start)
          (offset + (Layer.extent layer).payload.stop) =
        payloadOf layer (slice p.data offset stop) ∧
      offset + (Layer.extent layer).payload.start ≤ offset + (Layer.extent layer).payload.stop ∧
      offset + (Layer.extent layer).payload.stop ≤ p.data.length := by
  obtain ⟨-, hinside⟩ := stop_le_of_attempt h
  rw [length_slice hstop] at hinside
  have hordered : (Layer.extent layer).payload.start < (Layer.extent layer).payload.stop := by
    simp only [Span.length] at hpayload
    omega
  refine ⟨?_, ?_, by omega, by omega⟩
  · simp only [pushDecoded, push, stateBehind, hpayload, if_false]
  · rw [payloadOf, slice_slice (by omega)]

/-- A layer that is read from what the first layer of a packet carries is the second one. -/
theorem exists_second_of_attempt {root : LayerType} {first second : L} {behind : Bool}
    (hfirst : attempt decoders options root data = (.ok first, truncated))
    (hcarried : payloadOf first data ≠ [])
    (hsecond : attempt decoders options (Layer.next first) (payloadOf first data) =
      (.ok second, behind)) :
    let p := (start data root options decoders).decodeAll
    ∃ placed, p.layers[1]? = some placed ∧ placed.layer = .decoded second ∧
      p.contents placed = headerOf second (payloadOf first data) ∧
      p.payload placed = payloadOf second (payloadOf first data) := by
  intro p
  have hwhole : slice (start data root options decoders).data 0 data.length = data :=
    slice_zero_length data
  have hstart : attempt decoders options root
      (slice (start data root options decoders).data 0 data.length) = (.ok first, truncated) := by
    rw [hwhole]
    exact hfirst
  obtain ⟨hpending, hinput, hordered, hbound⟩ :=
    pending_pushDecoded (p := start data root options decoders) hstart
      (payload_length_ne_zero hcarried) (Nat.le_refl _)
  rw [hwhole] at hinput
  have hrun : p = ((start data root options decoders).pushDecoded 0 first truncated).decodeAll :=
    decodeAll_eq_of_decodeNext
      (decodeNext_of_attempt (p := start data root options decoders) rfl hstart)
  rw [hrun]
  exact exists_layer_of_attempt hpending hinput hsecond hordered hbound

/-! ## All layers -/

/-- Where a pipeline stands that has octets left, it goes on with the layers that
are read from them, and comes to its end. -/
theorem decodeAll_of_reads {input : Octets} {layers : List (L × Octets)}
    (h : Reads decoders options type input layers truncated)
    (hdecoders : p.decoders = decoders) (hoptions : p.options = options)
    (hstate : p.state = .pending offset stop type) (hinput : slice p.data offset stop = input)
    (hle : offset ≤ stop) (hstop : stop ≤ p.data.length) :
    p.decodeAll.state = .done ∧ p.decodeAll.truncated = (p.truncated || truncated) ∧
      p.decodeAll.readLayers = p.readLayers ++ layers.map asDecoded := by
  induction h generalizing p offset stop with
  | @last type input layer truncated hattempt hempty =>
      subst hdecoders hoptions hinput
      have hnext := decodeNext_of_attempt hstate hattempt
      have hdone : (p.pushDecoded offset layer truncated).state = .done := by
        simp only [pushDecoded, push, stateBehind, hempty, if_true]
      have hend : (p.pushDecoded offset layer truncated).decodeNext = none := by
        rw [decodeNext_eq_none_iff, hdone]
        intro offset stop type hpending
        cases hpending
      rw [decodeAll_eq_of_decodeNext hnext, decodeAll_eq_of_decodeNext_eq_none hend]
      exact ⟨hdone, rfl, readLayers_pushDecoded hattempt hle hstop⟩
  | @more type input layer truncated layers behind hattempt hpayload hrest ih =>
      subst hdecoders hoptions hinput
      have hnext := decodeNext_of_attempt hstate hattempt
      obtain ⟨hpending, hslice, hordered, hbound⟩ := pending_pushDecoded hattempt hpayload hstop
      obtain ⟨hdone, hsignal, hlayers⟩ :=
        ih (p := p.pushDecoded offset layer truncated) rfl rfl hpending hslice hordered hbound
      rw [decodeAll_eq_of_decodeNext hnext]
      refine ⟨hdone, ?_, ?_⟩
      · rw [hsignal, ← Bool.or_assoc]
        rfl
      · rw [hlayers, readLayers_pushDecoded hattempt hle hstop, List.append_assoc]
        rfl

/-- A pipeline that comes to its end without a failure has read the octets that were
left. -/
theorem reads_of_decodeAll (hstate : p.state = .pending offset stop type) (hle : offset ≤ stop)
    (hstop : stop ≤ p.data.length) (hdone : p.decodeAll.state = .done) :
    ∃ layers truncated,
      Reads p.decoders p.options type (slice p.data offset stop) layers truncated := by
  induction hsteps : p.stepsLeft using Nat.strongRecOn generalizing p offset stop type with
  | ind n ih =>
      cases hnext : p.decodeNext with
      | none => exact absurd hstate (decodeNext_eq_none_iff.mp hnext offset stop type)
      | some q =>
          have hless : q.stepsLeft < n := by
            rw [← hsteps]
            exact decodeNext_decreases hnext
          rw [decodeAll_eq_of_decodeNext hnext] at hdone
          cases hattempt : attempt p.decoders p.options type (slice p.data offset stop) with
          | mk outcome truncated =>
              cases outcome with
              | ok layer =>
                  obtain rfl := Option.some.inj (hnext.symm.trans
                    (decodeNext_of_attempt hstate hattempt))
                  by_cases hempty : (Layer.extent layer).payload.length = 0
                  · exact ⟨_, _, .last hattempt hempty⟩
                  · obtain ⟨hpending, hslice, hordered, hbound⟩ :=
                      pending_pushDecoded hattempt hempty hstop
                    obtain ⟨layers, behind, hrest⟩ :=
                      ih _ hless hpending hordered hbound hdone rfl
                    refine ⟨_ :: layers, truncated || behind, .more hattempt hempty ?_⟩
                    rw [← hslice]
                    exact hrest
              | error error =>
                  -- The record of a failure would have been the end.
                  exact absurd hdone (ne_done_of_attempt hstate hattempt hnext)

/-- A packet whose octets are read holds the layers that are read from them. -/
theorem make_of_reads {root : LayerType} {layers : List (L × Octets)}
    (h : Reads decoders options root data layers truncated) (heager : options.lazy = false) :
    let p := make data root options decoders
    p.state = .done ∧ p.truncated = truncated ∧ p.readLayers = layers.map asDecoded := by
  intro p
  have hall : p = (start data root options decoders).decodeAll := by
    simp [p, make, heager]
  rw [hall]
  simpa [start, readLayers] using decodeAll_of_reads (p := start data root options decoders) h rfl
    rfl rfl (slice_zero_length data) (Nat.zero_le _) (Nat.le_refl _)

/-- The octets of a packet that is decoded without a failure are read. -/
theorem reads_of_make {root : LayerType} (heager : options.lazy = false)
    (hdone : (make data root options decoders).state = .done) :
    ∃ layers truncated, Reads decoders options root data layers truncated := by
  have hall : make data root options decoders = (start data root options decoders).decodeAll := by
    simp [make, heager]
  rw [hall] at hdone
  obtain ⟨layers, truncated, hreads⟩ := reads_of_decodeAll
    (p := start data root options decoders) rfl (Nat.zero_le _) (Nat.le_refl _) hdone
  have hwhole : slice (start data root options decoders).data 0 data.length = data :=
    slice_zero_length data
  rw [hwhole] at hreads
  exact ⟨layers, truncated, hreads⟩

end Packet
end PacketLayers
