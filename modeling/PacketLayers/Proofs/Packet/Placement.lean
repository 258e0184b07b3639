import PacketLayers.Proofs.Packet.Run

/-!
# Where the layers of a packet lie

The pipeline hands octets to decoders that may fail, signal what they like and
report any ranges.  This module says where the layers lie that it keeps all the
same: every layer is inside the packet's octets, was decoded from exactly the
payload of the layer in front of it, and is followed only by shorter inputs; a
failure is recorded once, at the end, over the octets that the decoder was given.

`Laid` holds what is true of the layers and `Ready` where a running pipeline
stands.  The main statement is `placement_of_steps`.
-/

namespace PacketLayers

/-- Octets at a position of a packet that are to be decoded as a type. -/
structure Request where
  offset : Nat
  octets : Octets
  type : LayerType
  deriving DecidableEq, Repr

namespace Extent

/-- An acceptable extent lies in order inside its input, and its payload is
empty or shorter than the input. -/
theorem defect?_eq_none_iff {e : Extent} {length : Nat} :
    e.defect? length = none ↔
      (e.contents.start ≤ e.contents.stop ∧ e.contents.stop ≤ e.payload.start ∧
        e.payload.start ≤ e.payload.stop ∧ e.payload.stop ≤ length) ∧
      (e.payload.length = 0 ∨ e.payload.length ≠ length) := by
  unfold defect?
  split
  · next hordered =>
      simp only [isOrdered, Bool.and_eq_true, decide_eq_true_eq, and_assoc] at hordered
      simp [hordered]
  · next hordered =>
      simp only [isOrdered, Bool.and_eq_true, decide_eq_true_eq, and_assoc,
        Decidable.not_not] at hordered
      split
      · next hfull =>
          constructor
          · intro hnone
            cases hnone
          · rintro ⟨-, hempty | hshort⟩
            · exact absurd hempty hfull.1
            · exact absurd hfull.2 hshort
      · next hshort =>
          simp only [true_iff]
          exact ⟨hordered, by omega⟩

theorem defect?_whole (length : Nat) : (Extent.whole length).defect? length = none := by
  rw [defect?_eq_none_iff]
  simp [whole, Span.length]

end Extent

namespace Packet

variable {L : Type} [Layer L] {p : Packet L} {root : LayerType}

/-- What is asked behind a layer: to decode its payload as the type it names. -/
def requestBehind (p : Packet L) (placed : PlacedLayer L) : Request :=
  ⟨placed.offset + (Layer.extent placed.layer).payload.start, p.payload placed,
    Layer.next placed.layer⟩

/-- What is asked in a packet: to decode all octets as the root type, then to
decode the payload of each layer.  The layer at an index answers the request at
that index; no layer answers the last one. -/
def requests (p : Packet L) (root : LayerType) : List Request :=
  ⟨0, p.data, root⟩ :: p.layers.map p.requestBehind

/-- Whether a layer, or the record of a failure, is what decoding the requested
octets as the requested type gives. -/
def Answers (p : Packet L) (r : Request) (placed : PlacedLayer L) : Prop :=
  placed.offset = r.offset ∧
    match placed.layer with
    | .decoded layer => (attempt p.decoders p.options r.type r.octets).1 = .ok layer
    | .failure record => ∃ error,
        (attempt p.decoders p.options r.type r.octets).1 = .error error ∧
          record = .record r.type error r.octets.length

/-- What is true of the layers of a packet, however far it is decoded. -/
structure Laid (p : Packet L) (root : LayerType) : Prop where
  /-- Contents and payload lie in order inside the octets of the packet. -/
  inside : ∀ placed ∈ p.layers,
    let e := Layer.extent placed.layer
    e.contents.start ≤ e.contents.stop ∧ e.contents.stop ≤ e.payload.start ∧
      e.payload.start ≤ e.payload.stop ∧ placed.offset + e.payload.stop ≤ p.data.length
  /-- Each layer answers what was asked in front of it. -/
  answered : ∀ (i : Nat) (placed : PlacedLayer L), p.layers[i]? = some placed →
    ∃ r, (p.requests root)[i]? = some r ∧ p.Answers r placed
  /-- The contents of a layer end before those of any later layer start. -/
  apart : p.layers.Pairwise fun a b =>
    a.offset + (Layer.extent a.layer).contents.stop ≤
      b.offset + (Layer.extent b.layer).contents.start
  /-- Each input is shorter than the one before. -/
  shrinking : ∀ (i : Nat) (r s : Request), i + 1 < p.layers.length →
    (p.requests root)[i]? = some r → (p.requests root)[i + 1]? = some s →
      s.octets.length < r.octets.length
  /-- There are no more layers than octets, but one even without octets. -/
  short : p.layers.length ≤ max 1 p.data.length

/-- Where a pipeline stands that has octets left for a decoder. -/
structure Ready (p : Packet L) (root : LayerType) (offset stop : Nat) (type : LayerType) :
    Prop where
  asked : (p.requests root)[p.layers.length]? = some ⟨offset, slice p.data offset stop, type⟩
  ordered : offset ≤ stop
  inside : stop ≤ p.data.length
  decoded : ∀ placed ∈ p.layers, placed.layer.failure? = none
  behind : ∀ placed ∈ p.layers,
    placed.offset + (Layer.extent placed.layer).contents.stop ≤ offset
  shorter : ∀ (i : Nat) (r : Request), i + 1 = p.layers.length → (p.requests root)[i]? = some r →
    stop - offset < r.octets.length
  nonempty : p.layers ≠ [] → offset < stop
  room : p.layers.length + (stop - offset) ≤ p.data.length

/-- The last layer is the only record of a failure, at this index and for this
error, and covers the octets that were to be decoded. -/
def FailedAt (p : Packet L) (root : LayerType) (index : Nat) (error : DecodeError) : Prop :=
  ∃ earlier placed r,
    p.layers = earlier ++ [placed] ∧ earlier.length = index ∧
      (∀ before ∈ earlier, before.layer.failure? = none) ∧
      (p.requests root)[index]? = some r ∧
      placed.layer = .failure (.record r.type error r.octets.length) ∧
      p.contents placed = r.octets

/-- What every step preserves: the layers are laid out, and the state says how
the last of them came about. -/
structure Placed (p : Packet L) (root : LayerType) : Prop extends Laid p root where
  pending : ∀ offset stop type, p.state = .pending offset stop type →
    p.Ready root offset stop type
  done : p.state = .done → ∀ placed ∈ p.layers, placed.layer.failure? = none
  failed : ∀ index error, p.state = .failed index error → p.FailedAt root index error

/-! ## Appending a layer -/

/-- The packet with one more layer and what goes with it. -/
def push (p : Packet L) (placed : PlacedLayer L) (state : PacketState) (truncated : Bool) :
    Packet L :=
  { p with layers := p.layers ++ [placed], state := state, truncated := truncated }

/-- The layer that a decoder gave, or the record of its failure. -/
def layerOf (type : LayerType) (input : Octets) : Except DecodeError L → PacketLayer L
  | .ok layer => .decoded layer
  | .error error => .failure (.record type error input.length)

/-- The state behind the layer at an index. -/
def stateOf (offset index : Nat) : Except DecodeError L → PacketState
  | .ok layer => stateBehind offset layer
  | .error error => .failed index error

/-- A step appends what its decoder gave. -/
theorem advance_of_pending {offset stop : Nat} {type : LayerType}
    (hstate : p.state = .pending offset stop type) :
    let input := slice p.data offset stop
    let attempted := attempt p.decoders p.options type input
    p.advance =
      p.push ⟨layerOf type input attempted.1, offset⟩
        (stateOf offset p.layers.length attempted.1) (p.truncated || attempted.2) := by
  intro input attempted
  unfold advance decodeNext
  rw [hstate]
  cases houtcome : attempted.1 with
  | ok layer =>
      simp only [attempted, input] at houtcome
      simp only [houtcome]
      rfl
  | error error =>
      simp only [attempted, input] at houtcome
      simp only [houtcome]
      rfl

variable {placed : PlacedLayer L} {state : PacketState} {truncated : Bool}

theorem requests_push :
    (p.push placed state truncated).requests root =
      p.requests root ++ [p.requestBehind placed] := by
  have hbehind : (p.push placed state truncated).requestBehind = p.requestBehind := rfl
  simp only [requests, hbehind]
  simp only [push, List.map_append, List.map_cons, List.map_nil, List.cons_append]

theorem length_requests : (p.requests root).length = p.layers.length + 1 := by
  simp [requests]

/-- What was asked so far is not asked differently behind a further layer. -/
theorem getElem?_requests_push {i : Nat} (h : i ≤ p.layers.length) :
    ((p.push placed state truncated).requests root)[i]? = (p.requests root)[i]? := by
  rw [requests_push, List.getElem?_append_left]
  rw [length_requests]
  omega

/-- Behind the last layer its payload is asked for. -/
theorem getElem?_requests_push_last :
    ((p.push placed state truncated).requests root)[p.layers.length + 1]? =
      some (p.requestBehind placed) := by
  rw [requests_push, List.getElem?_append_right (Nat.le_of_eq length_requests), length_requests]
  simp

theorem answers_push {r : Request} {answer : PlacedLayer L} :
    (p.push placed state truncated).Answers r answer ↔ p.Answers r answer := Iff.rfl

/-- An acceptable answer to what is asked next leaves the layers laid out. -/
theorem Laid.push
    (h : p.Laid root) {offset stop : Nat} {type : LayerType}
    (hready : p.Ready root offset stop type)
    (hanswers : p.Answers ⟨offset, slice p.data offset stop, type⟩ placed)
    (hdefect : (Layer.extent placed.layer).defect? (stop - offset) = none) :
    (p.push placed state truncated).Laid root := by
  obtain ⟨⟨hcontents, hgap, hpayload, hstop⟩, -⟩ := Extent.defect?_eq_none_iff.mp hdefect
  have hoffset : placed.offset = offset := hanswers.1
  have hle := hready.ordered
  have hinside := hready.inside
  constructor
  case inside =>
    intro a ha
    rcases List.mem_append.mp ha with hold | hnew
    · exact h.inside a hold
    · obtain rfl := List.mem_singleton.mp hnew
      refine ⟨hcontents, hgap, hpayload, ?_⟩
      simp only [Packet.push]
      omega
  case answered =>
    intro i a ha
    simp only [Packet.push, List.getElem?_append] at ha
    split at ha
    · next hi =>
        obtain ⟨r, hr, hanswer⟩ := h.answered i a ha
        exact ⟨r, (getElem?_requests_push (by omega)).trans hr, answers_push.mpr hanswer⟩
    · next hi =>
        rw [List.getElem?_singleton] at ha
        split at ha
        · next hlast =>
            obtain rfl := Option.some.inj ha
            have hi' : i = p.layers.length := by omega
            rw [hi', getElem?_requests_push (Nat.le_refl _)]
            exact ⟨_, hready.asked, answers_push.mpr hanswers⟩
        · cases ha
  case apart =>
    refine List.pairwise_append.mpr ⟨h.apart, List.pairwise_singleton _ _, ?_⟩
    intro a ha b hb
    obtain rfl := List.mem_singleton.mp hb
    have hbehind := hready.behind a ha
    omega
  case shrinking =>
    intro i r s hi hr hs
    simp only [Packet.push, List.length_append, List.length_singleton] at hi
    rw [getElem?_requests_push (by omega)] at hr hs
    by_cases hlast : i + 1 = p.layers.length
    · rw [hlast, hready.asked, Option.some.injEq] at hs
      have hshorter := hready.shorter i r hlast hr
      rw [← hs, length_slice hinside]
      exact hshorter
    · exact h.shrinking i r s (by omega) hr hs
  case short =>
    -- Only the first layer of a packet may be decoded from no octets at all.
    have hroom := hready.room
    simp only [Packet.push, List.length_append, List.length_singleton]
    by_cases hfirst : p.layers = []
    · rw [hfirst]
      exact Nat.le_max_left 1 _
    · have hpos := hready.nonempty hfirst
      omega

/-- Behind a layer with a payload the pipeline is ready to decode the payload. -/
theorem Ready.push
    {offset stop : Nat} {type : LayerType} (hready : p.Ready root offset stop type)
    {layer : L} (hdefect : (Layer.extent layer).defect? (stop - offset) = none)
    (hpos : (Layer.extent layer).payload.length ≠ 0) :
    (p.push ⟨.decoded layer, offset⟩ state truncated).Ready root
      (offset + (Layer.extent layer).payload.start)
      (offset + (Layer.extent layer).payload.stop) (Layer.next layer) := by
  obtain ⟨⟨hcontents, hgap, hpayload, hstop⟩, hshort⟩ := Extent.defect?_eq_none_iff.mp hdefect
  have hle := hready.ordered
  have hinside := hready.inside
  simp only [Span.length] at hpos hshort
  constructor
  case asked =>
    simp only [Packet.push, List.length_append, List.length_singleton]
    exact getElem?_requests_push_last
  case ordered => omega
  case inside =>
    simp only [Packet.push]
    omega
  case decoded =>
    intro a ha
    rcases List.mem_append.mp ha with hold | hnew
    · exact hready.decoded a hold
    · rw [List.mem_singleton.mp hnew]
      rfl
  case behind =>
    intro a ha
    rcases List.mem_append.mp ha with hold | hnew
    · have hbehind := hready.behind a hold
      omega
    · rw [List.mem_singleton.mp hnew]
      exact Nat.add_le_add_left hgap offset
  case shorter =>
    intro i r hi hr
    simp only [Packet.push, List.length_append, List.length_singleton] at hi
    have hi' : i = p.layers.length := by omega
    rw [hi', getElem?_requests_push (Nat.le_refl _), hready.asked, Option.some.injEq] at hr
    rw [← hr, length_slice hinside]
    omega
  case nonempty =>
    intro _
    omega
  case room =>
    have hroom := hready.room
    simp only [Packet.push, List.length_append, List.length_singleton]
    omega

/-! ## Every step -/

theorem placed_start
    (data : Octets) (root : LayerType) (options : DecodeOptions) (decoders : DecoderTable L) :
    (start data root options decoders).Placed root := by
  have hready : (start data root options decoders).Ready root 0 data.length root := by
    constructor <;> simp [start, requests]
  constructor
  case toLaid => constructor <;> simp [start]
  case pending =>
    intro offset stop type hstate
    simp only [start, PacketState.pending.injEq] at hstate
    obtain ⟨rfl, rfl, rfl⟩ := hstate
    exact hready
  case done =>
    intro hstate
    cases hstate
  case failed =>
    intro index error hstate
    cases hstate

/-- A decoded layer is an acceptable answer, and the state behind it says what
its payload asks for. -/
theorem Placed.push_decoded
    (h : p.Placed root) {offset stop : Nat} {type : LayerType} {layer : L}
    (hstate : p.state = .pending offset stop type)
    (hok : (attempt p.decoders p.options type (slice p.data offset stop)).1 = .ok layer) :
    (p.push ⟨.decoded layer, offset⟩ (stateBehind offset layer) truncated).Placed root := by
  have hready := h.pending offset stop type hstate
  have hdefect := defect?_eq_none_of_attempt hok
  rw [length_slice hready.inside] at hdefect
  have hdecoded : ∀ a ∈ p.layers ++ [⟨.decoded layer, offset⟩],
      a.layer.failure? = none := by
    intro a ha
    rcases List.mem_append.mp ha with hold | hnew
    · exact hready.decoded a hold
    · rw [List.mem_singleton.mp hnew]
      rfl
  constructor
  case toLaid => exact h.toLaid.push hready ⟨rfl, hok⟩ hdefect
  case pending =>
    intro offset' stop' type' hbehind
    simp only [Packet.push, stateBehind] at hbehind
    split at hbehind
    · cases hbehind
    · next hpos =>
        obtain ⟨rfl, rfl, rfl⟩ := PacketState.pending.inj hbehind
        exact hready.push hdefect hpos
  case done => exact fun _ => hdecoded
  case failed =>
    intro index error hbehind
    simp only [Packet.push, stateBehind] at hbehind
    split at hbehind <;> cases hbehind

/-- The record of a failure is an acceptable answer and ends the pipeline. -/
theorem Placed.push_failure
    (h : p.Placed root) {offset stop : Nat} {type : LayerType} {error : DecodeError}
    (hstate : p.state = .pending offset stop type)
    (herror : (attempt p.decoders p.options type (slice p.data offset stop)).1 = .error error) :
    (p.push ⟨.failure (.record type error (slice p.data offset stop).length), offset⟩
      (.failed p.layers.length error) truncated).Placed root := by
  have hready := h.pending offset stop type hstate
  have hlength : (slice p.data offset stop).length = stop - offset :=
    length_slice hready.inside
  constructor
  case toLaid =>
    refine h.toLaid.push hready ⟨rfl, error, herror, rfl⟩ ?_
    rw [hlength]
    exact Extent.defect?_whole (stop - offset)
  case pending =>
    intro offset' stop' type' hbehind
    cases hbehind
  case done =>
    intro hbehind
    cases hbehind
  case failed =>
    intro index error' hbehind
    obtain ⟨rfl, rfl⟩ := PacketState.failed.inj hbehind
    refine ⟨p.layers, _, _, rfl, rfl, hready.decoded,
      (getElem?_requests_push (Nat.le_refl _)).trans hready.asked, rfl, ?_⟩
    have hle := hready.ordered
    simp only [contents, Packet.push, Layer.extent, DecodeFailure.record, Extent.whole, hlength,
      Nat.add_zero, Nat.add_sub_cancel' hle]

/-- One step keeps the layers where they belong. -/
theorem Placed.advance (h : p.Placed root) : p.advance.Placed root := by
  refine advance_cases (motive := fun _ q => q.Placed root) p (fun _ => h) ?_
  intro q hnext
  obtain ⟨offset, stop, type, hstate, ⟨layer, hok, rfl⟩ | ⟨error, herror, rfl⟩⟩ :=
    decodeNext_eq_some hnext
  · exact h.push_decoded hstate hok
  · exact h.push_failure hstate herror

/-- So does a run. -/
theorem Placed.iterate (h : p.Placed root) (n : Nat) : (Packet.advance^[n] p).Placed root := by
  induction n generalizing p with
  | zero => exact h
  | succ n ih =>
      rw [Function.iterate_succ_apply]
      exact ih h.advance

/-! ## What the state says -/

/-- A record of a failure among the layers is the last of them and the state
names it. -/
theorem Placed.exists_failedAt
    (h : p.Placed root) (hfailure : ∃ placed ∈ p.layers, placed.layer.failure? ≠ none) :
    ∃ index error, p.state = .failed index error ∧ p.FailedAt root index error := by
  obtain ⟨placed, hmem, hrecord⟩ := hfailure
  cases hstate : p.state with
  | pending offset stop type =>
      exact absurd ((h.pending offset stop type hstate).decoded placed hmem) hrecord
  | done => exact absurd (h.done hstate placed hmem) hrecord
  | failed index error => exact ⟨index, error, rfl, h.failed index error hstate⟩

/-- A failure at an index stands among the layers. -/
theorem FailedAt.exists_failure {index : Nat} {error : DecodeError}
    (h : p.FailedAt root index error) : ∃ placed ∈ p.layers, placed.layer.failure? ≠ none := by
  obtain ⟨earlier, placed, r, hlayers, -, -, -, hrecord, -⟩ := h
  refine ⟨placed, by simp [hlayers], ?_⟩
  simp [hrecord, PacketLayer.failure?]

/-- A packet fails at one index with one error. -/
theorem FailedAt.unique {i j : Nat} {e f : DecodeError}
    (he : p.FailedAt root i e) (hf : p.FailedAt root j f) : i = j ∧ e = f := by
  obtain ⟨earlier, placed, r, hlayers, rfl, -, -, hrecord, -⟩ := he
  obtain ⟨earlier', placed', r', hlayers', rfl, -, -, hrecord', -⟩ := hf
  obtain ⟨rfl, hlast⟩ := List.append_inj' (hlayers.symm.trans hlayers') rfl
  obtain rfl := List.singleton_inj.mp hlast
  rw [hrecord, PacketLayer.failure.injEq] at hrecord'
  exact ⟨rfl, congrArg DecodeFailure.cause hrecord'⟩

/-- The state is a failure exactly if the layers end with the record of it. -/
theorem Placed.state_eq_failed_iff (h : p.Placed root) {index : Nat} {error : DecodeError} :
    p.state = .failed index error ↔ p.FailedAt root index error := by
  constructor
  · exact h.failed index error
  · intro hfailed
    obtain ⟨i, e, hstate, hfailed'⟩ := h.exists_failedAt hfailed.exists_failure
    obtain ⟨rfl, rfl⟩ := hfailed.unique hfailed'
    exact hstate

/-! ## The end of a run -/

/-- A packet with at least one layer for each of its octets is at its end. -/
theorem Placed.decodeNext_eq_none
    (h : p.Placed root) (hmany : max 1 p.data.length ≤ p.layers.length) :
    p.decodeNext = none := by
  rw [decodeNext_eq_none_iff]
  intro offset stop type hstate
  have hready := h.pending offset stop type hstate
  have hroom := hready.room
  have hpos : offset < stop := by
    refine hready.nonempty ?_
    intro hnone
    rw [hnone] at hmany
    simp at hmany
  omega

/-- A run of one step for each octet comes to its end. -/
theorem decodeNext_iterate_start
    (data : Octets) (root : LayerType) (options : DecodeOptions) (decoders : DecoderTable L)
    {n : Nat} (h : max 1 data.length ≤ n) :
    (advance^[n] (start data root options decoders)).decodeNext = none := by
  rcases length_layers_iterate n (start data root options decoders) with hcount | hend
  · refine ((placed_start data root options decoders).iterate n).decodeNext_eq_none ?_
    rw [hcount, (iterate_advance_frame n _).1]
    simpa [start] using h
  · exact hend

/-- Whatever the decoders do, after any number of steps every layer lies inside
the packet, is the answer to what the layer in front of it asks, and is asked
less than that one; the state is a failure exactly if the layers end with the
record of it; layers stay as they are; and the run ends within as many steps as
there are octets, or within one. -/
theorem placement_of_steps
    (data : Octets) (root : LayerType) (options : DecodeOptions) (decoders : DecoderTable L)
    (n : Nat) :
    let p := advance^[n] (start data root options decoders)
    (p.data = data ∧ p.options = options ∧ p.decoders = decoders) ∧
      p.Laid root ∧
      (∀ index error, p.state = .failed index error ↔ p.FailedAt root index error) ∧
      ((∃ index error, p.state = .failed index error) ↔
        ∃ placed ∈ p.layers, placed.layer.failure? ≠ none) ∧
      (∀ m ≤ n, (advance^[m] (start data root options decoders)).layers <+: p.layers) ∧
      (max 1 data.length ≤ n →
        p = (start data root options decoders).decodeAll ∧
          (p.state = .done ∨ ∃ index error, p.state = .failed index error)) := by
  intro p
  have hplaced : p.Placed root := (placed_start data root options decoders).iterate n
  refine ⟨iterate_advance_frame n _, hplaced.toLaid, fun _ _ => hplaced.state_eq_failed_iff,
    ⟨?_, ?_⟩, fun m hm => layers_prefix_of_le hm _, ?_⟩
  · rintro ⟨index, error, hstate⟩
    exact (hplaced.failed index error hstate).exists_failure
  · intro hfailure
    obtain ⟨index, error, hstate, -⟩ := hplaced.exists_failedAt hfailure
    exact ⟨index, error, hstate⟩
  · intro hsteps
    have hend := decodeNext_iterate_start data root options decoders hsteps
    exact ⟨iterate_advance_eq_decodeAll hend, state_of_decodeNext_eq_none hend⟩

end Packet
end PacketLayers
