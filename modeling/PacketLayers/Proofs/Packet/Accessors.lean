import PacketLayers.Builtin
import PacketLayers.Proofs.Packet.Placement

/-!
# Answers of lazy and eager packets

An accessor of a lazy packet decodes as far as its answer needs.  This module
shows that nobody can tell from the answers: calls are replayed on a packet in
any order and any number of times, and give what the packet with all of its
layers gives.  It also says where such a replay leaves a lazy packet, namely
somewhere on the run of the eager one.

`Accessor.call_eq_read` settles one call on any packet, `advance_withOptions`
one step under other options.  The main statement is `replay_lazy_eq_eager`.
-/

namespace PacketLayers

/-- A layer as an answer shows it, with its octets. -/
structure LayerView (L : Type) where
  placed : PlacedLayer L
  contents : Octets
  payload : Octets
  deriving DecidableEq, Repr

/-- The questions that can be asked of a packet, by the type of their answers. -/
inductive Accessor (L : Type) : Type → Type 1 where
  | layerTypes : Accessor L (List LayerType)
  | layers : Accessor L (List (LayerView L))
  | layerAt (index : Nat) : Accessor L (Option (LayerView L))
  | layerOfType (layerType : LayerType) : Accessor L (Option (LayerView L))
  | layerAs {A : Type} (project : PacketLayer L → Option A) : Accessor L (Option A)
  | failure : Accessor L (Option DecodeFailure)
  | isTruncated : Accessor L Bool
  | linkFlow : Accessor L (Option Flow)
  | networkFlow : Accessor L (Option Flow)
  | transportFlow : Accessor L (Option Flow)
  | detach : Accessor L Unit

/-- Whether no factory of a table looks at whether decoding is lazy. -/
def DecoderTable.IgnoresLazy {L : Type} (decoders : DecoderTable L) : Prop :=
  ∀ entry ∈ decoders.entries, ∀ options : DecodeOptions,
    entry.2 { options with lazy := true } = entry.2 { options with lazy := false }

namespace Packet

variable {L : Type} [Layer L] {p q : Packet L}

def view (p : Packet L) (placed : PlacedLayer L) : LayerView L :=
  ⟨placed, p.contents placed, p.payload placed⟩

/-- The packet decoded in another way from here on. -/
def withOptions (p : Packet L) (options : DecodeOptions) : Packet L :=
  { p with options := options }

/-- The truncation signals of the decoders that were called, in order. -/
def signals (p : Packet L) (root : LayerType) : List Bool :=
  ((p.requests root).take p.layers.length).map fun r =>
    (attempt p.decoders p.options r.type r.octets).2

end Packet

namespace Accessor

variable {L A : Type} [Layer L]

/-- Ask a packet: the answer, and the packet as it is then. -/
def call : {A : Type} → Accessor L A → Packet L → A × Packet L
  | _, .layerTypes, p => p.layerTypes
  | _, .layers, p =>
      let found := p.allLayers
      (found.1.map found.2.view, found.2)
  | _, .layerAt index, p =>
      let found := p.layerAt index
      (found.1.map found.2.view, found.2)
  | _, .layerOfType layerType, p =>
      let found := p.layerOfType layerType
      (found.1.map found.2.view, found.2)
  | _, .layerAs project, p => p.layerAs project
  | _, .failure, p => p.failure
  | _, .isTruncated, p => p.isTruncated
  | _, .linkFlow, p => p.linkFlow
  | _, .networkFlow, p => p.networkFlow
  | _, .transportFlow, p => p.transportFlow
  | _, .detach, p => ((), p.detach)

/-- The flow of the first layer of a class among those that are there. -/
def readFlow (layerClass : LayerClass) (p : Packet L) : Option Flow :=
  (p.layers.find? fun placed =>
    (Layer.layerType placed.layer).layerClass == layerClass).bind fun placed =>
      Layer.flow placed.layer

/-- The answer that a packet gives from the layers that are there, without
decoding any. -/
def read : {A : Type} → Accessor L A → Packet L → A
  | _, .layerTypes, p => p.layers.map fun placed => Layer.layerType placed.layer
  | _, .layers, p => p.layers.map p.view
  | _, .layerAt index, p => p.layers[index]?.map p.view
  | _, .layerOfType layerType, p =>
      (p.layers.find? fun placed => Layer.layerType placed.layer == layerType).map p.view
  | _, .layerAs project, p =>
      (p.layers.find? fun placed => (project placed.layer).isSome).bind fun placed =>
        project placed.layer
  | _, .failure, p =>
      match p.state with
      | .failed index _ => p.layers[index]?.bind (·.layer.failure?)
      | .pending .. | .done => none
  | _, .isTruncated, p => p.truncated
  | _, .linkFlow, p => readFlow .link p
  | _, .networkFlow, p => readFlow .network p
  | _, .transportFlow, p => readFlow .transport p
  | _, .detach, _ => ()

end Accessor

/-- Ask a packet one thing after another: the answers, and the packet as it is
then. -/
def replay {L : Type} [Layer L] :
    List (Σ A : Type, Accessor L A) → Packet L → List (Σ A : Type, A) × Packet L
  | [], p => ([], p)
  | ⟨A, accessor⟩ :: calls, p =>
      let answered := accessor.call p
      let rest := replay calls answered.2
      (⟨A, answered.1⟩ :: rest.1, rest.2)

/-! ## One call -/

namespace Packet

variable {L : Type} [Layer L] {p q : Packet L}

/-- The accessors' loop stops on the run with enough layers, or has decoded all
layers. -/
theorem decodeUntil_cases (enough : Packet L → Bool) (p : Packet L) :
    (p.decodeUntil enough).layers <+: p.decodeAll.layers ∧
      (enough (p.decodeUntil enough) = true ∨ p.decodeUntil enough = p.decodeAll) := by
  obtain ⟨n, hrun, -, hstop⟩ := exists_steps_decodeUntil enough p
  rw [hrun]
  constructor
  · obtain ⟨m, hall, -⟩ := exists_steps_decodeAll (advance^[n] p)
    rw [← decodeAll_iterate n p, hall]
    exact layers_prefix_iterate m _
  · rcases hstop with henough | hend
    · exact Or.inl henough
    · exact Or.inr (iterate_advance_eq_decodeAll hend)

/-- A search that decodes as it goes finds what it finds among all layers. -/
theorem find?_decodeUntil (test : PlacedLayer L → Bool) (p : Packet L) :
    (p.decodeUntil fun r => r.layers.any test).layers.find? test =
      p.decodeAll.layers.find? test := by
  obtain ⟨hkept, hfound | hall⟩ := decodeUntil_cases (fun r => r.layers.any test) p
  · obtain ⟨placed, hmem, htest⟩ := List.any_eq_true.mp hfound
    cases hfind : (p.decodeUntil fun r => r.layers.any test).layers.find? test with
    | none => exact absurd htest (List.find?_eq_none.mp hfind placed hmem)
    | some first => exact (hkept.find?_eq_some hfind).symm
  · rw [hall]

theorem getElem?_decodeUntil (index : Nat) (p : Packet L) :
    (p.decodeUntil fun r => index < r.layers.length).layers[index]? =
      p.decodeAll.layers[index]? := by
  obtain ⟨⟨later, hlater⟩, henough | hall⟩ :=
    decodeUntil_cases (fun r => decide (index < r.layers.length)) p
  · rw [← hlater, List.getElem?_append_left (of_decide_eq_true henough)]
  · rw [hall]

/-- Where a layer lies depends on the octets of the packet only. -/
theorem view_congr (h : p.data = q.data) : p.view = q.view := by
  funext placed
  simp only [view, contents, payload, h]

/-- A packet that came from another one by decoding. -/
def DecodedFrom (q p : Packet L) : Prop := ∃ n, q = advance^[n] p

theorem DecodedFrom.refl (p : Packet L) : p.DecodedFrom p := ⟨0, rfl⟩

theorem DecodedFrom.trans {r : Packet L} (hr : r.DecodedFrom q) (hq : q.DecodedFrom p) :
    r.DecodedFrom p := by
  obtain ⟨m, rfl⟩ := hr
  obtain ⟨n, rfl⟩ := hq
  exact ⟨m + n, (Function.iterate_add_apply _ m n p).symm⟩

theorem DecodedFrom.decodeAll_eq (h : q.DecodedFrom p) : q.decodeAll = p.decodeAll := by
  obtain ⟨n, rfl⟩ := h
  exact decodeAll_iterate n p

theorem DecodedFrom.data_eq (h : q.DecodedFrom p) : q.data = p.data := by
  obtain ⟨n, rfl⟩ := h
  exact (iterate_advance_frame n p).1

theorem DecodedFrom.layers_kept (h : q.DecodedFrom p) : p.layers <+: q.layers := by
  obtain ⟨n, rfl⟩ := h
  exact layers_prefix_iterate n p

/-- Nothing more is decoded of a packet with all of its layers. -/
theorem DecodedFrom.eq_decodeAll (h : q.DecodedFrom p.decodeAll) : q = p.decodeAll := by
  obtain ⟨n, rfl⟩ := h
  obtain ⟨-, -, hend⟩ := exists_steps_decodeAll p
  exact iterate_advance_of_decodeNext_eq_none hend n

theorem decodedFrom_decodeUntil (enough : Packet L → Bool) (p : Packet L) :
    (p.decodeUntil enough).DecodedFrom p := by
  obtain ⟨n, hrun, -, -⟩ := exists_steps_decodeUntil enough p
  exact ⟨n, hrun⟩

theorem decodedFrom_decodeAll (p : Packet L) : p.decodeAll.DecodedFrom p :=
  decodedFrom_decodeUntil _ p

theorem view_decodeUntil (enough : Packet L → Bool) (p : Packet L) :
    (p.decodeUntil enough).view = p.decodeAll.view :=
  view_congr ((decodedFrom_decodeUntil enough p).data_eq.trans
    (decodedFrom_decodeAll p).data_eq.symm)

end Packet

namespace Accessor

variable {L A : Type} [Layer L] {p q : Packet L}

open Packet

theorem classFlow_eq_readFlow (layerClass : LayerClass) (p : Packet L) :
    (p.classFlow layerClass).1 = readFlow layerClass p.decodeAll := by
  simp only [classFlow, find, readFlow]
  rw [find?_decodeUntil]

/-- Every accessor answers what it reads off the packet with all of its
layers. -/
theorem call_eq_read (accessor : Accessor L A) (p : Packet L) :
    (accessor.call p).1 = accessor.read p.decodeAll := by
  cases accessor with
  | layerTypes => rfl
  | layers => rfl
  | layerAt index =>
      simp only [call, read, Packet.layerAt]
      rw [getElem?_decodeUntil, view_decodeUntil]
  | layerOfType layerType =>
      simp only [call, read, Packet.layerOfType, find]
      rw [find?_decodeUntil, view_decodeUntil]
  | layerAs project =>
      simp only [call, read, Packet.layerAs, find]
      rw [find?_decodeUntil]
  | failure => rfl
  | isTruncated => rfl
  | linkFlow => exact classFlow_eq_readFlow .link p
  | networkFlow => exact classFlow_eq_readFlow .network p
  | transportFlow => exact classFlow_eq_readFlow .transport p
  | detach => rfl

/-- No accessor does more to a packet than to decode it. -/
theorem decodedFrom_call (accessor : Accessor L A) (p : Packet L) :
    (accessor.call p).2.DecodedFrom p := by
  cases accessor with
  | detach => exact DecodedFrom.refl p
  | _ => exact decodedFrom_decodeUntil _ p

end Accessor

/-! ## Calls one after another -/

section Replay

variable {L : Type} [Layer L]

open Packet

theorem decodedFrom_replay (calls : List (Σ A : Type, Accessor L A)) (p : Packet L) :
    (replay calls p).2.DecodedFrom p := by
  induction calls generalizing p with
  | nil => exact DecodedFrom.refl p
  | cons first calls ih =>
      exact (ih (first.2.call p).2).trans (first.2.decodedFrom_call p)

/-- What was asked before does not change an answer. -/
theorem replay_eq_map_read (calls : List (Σ A : Type, Accessor L A)) (p : Packet L) :
    (replay calls p).1 = calls.map fun asked => ⟨asked.1, asked.2.read p.decodeAll⟩ := by
  induction calls generalizing p with
  | nil => rfl
  | cons first calls ih =>
      have hrest := ih (first.2.call p).2
      rw [(first.2.decodedFrom_call p).decodeAll_eq] at hrest
      simp only [replay, List.map_cons, hrest, first.2.call_eq_read p]

theorem replay_append_snd (calls more : List (Σ A : Type, Accessor L A)) (p : Packet L) :
    (replay (calls ++ more) p).2 = (replay more (replay calls p).2).2 := by
  induction calls generalizing p with
  | nil => rfl
  | cons first calls ih => exact ih (first.2.call p).2

end Replay

/-! ## Other options -/

theorem DecoderTable.IgnoresLazy.create_eq
    {L : Type} {decoders : DecoderTable L} (h : decoders.IgnoresLazy)
    (type : LayerType) (options : DecodeOptions) :
    decoders.create type { options with lazy := true } =
      decoders.create type { options with lazy := false } := by
  unfold create
  cases hfound : decoders.entries.lookup type with
  | none => rfl
  | some factory =>
      obtain ⟨before, behind, hentries, -⟩ := List.lookup_eq_some_iff.mp hfound
      have hmem : (type, factory) ∈ decoders.entries := by simp [hentries]
      exact congrArg some (h _ hmem options)

namespace Packet

variable {L : Type} [Layer L] {p : Packet L}

/-- An attempt looks at the options through the factory only. -/
theorem attempt_congr
    {decoders : DecoderTable L} {options options' : DecodeOptions} {type : LayerType}
    (h : decoders.create type options = decoders.create type options') (input : Octets) :
    attempt decoders options type input = attempt decoders options' type input := by
  simp only [attempt, h]

theorem advance_withOptions
    {options : DecodeOptions}
    (h : ∀ type, p.decoders.create type options = p.decoders.create type p.options) :
    (p.withOptions options).advance = p.advance.withOptions options := by
  cases hstate : p.state with
  | pending offset stop type =>
      have hattempt := attempt_congr (h type) (slice p.data offset stop)
      simp only [advance, decodeNext, withOptions, hstate, hattempt]
      cases (attempt p.decoders p.options type (slice p.data offset stop)).1 with
      | ok layer => rfl
      | error error => rfl
  | done => simp [advance, decodeNext, withOptions, hstate]
  | failed index error => simp [advance, decodeNext, withOptions, hstate]

theorem iterate_advance_withOptions
    {options : DecodeOptions}
    (h : ∀ type, p.decoders.create type options = p.decoders.create type p.options) (n : Nat) :
    advance^[n] (p.withOptions options) = (advance^[n] p).withOptions options := by
  induction n generalizing p with
  | zero => rfl
  | succ n ih =>
      rw [Function.iterate_succ_apply, Function.iterate_succ_apply, advance_withOptions h]
      refine ih ?_
      intro type
      rw [(advance_frame p).2.1, (advance_frame p).2.2]
      exact h type

theorem decodeAll_withOptions
    {options : DecodeOptions}
    (h : ∀ type, p.decoders.create type options = p.decoders.create type p.options) :
    (p.withOptions options).decodeAll = p.decodeAll.withOptions options := by
  obtain ⟨n, hrun, hend⟩ := exists_steps_decodeAll p
  have hother := iterate_advance_withOptions h n
  rw [hrun] at hend ⊢
  rw [← hother]
  refine (iterate_advance_eq_decodeAll ?_).symm
  have hfinal := decodeNext_eq_none_iff.mp hend
  rw [hother, decodeNext_eq_none_iff]
  exact hfinal

end Packet

theorem Accessor.read_withOptions
    {L A : Type} [Layer L] (accessor : Accessor L A) (p : Packet L) (options : DecodeOptions) :
    accessor.read (p.withOptions options) = accessor.read p := by
  cases accessor <;> rfl

/-- No built-in decoder depends on whether decoding is lazy. -/
theorem BuiltinLayer.ignoresLazy_decoders : BuiltinLayer.decoders.IgnoresLazy := by
  simp [DecoderTable.IgnoresLazy, decoders, factories]

/-! ## Truncation -/

namespace Packet

variable {L : Type} [Layer L] {p q : Packet L} {root : LayerType}

/-- A step adds the signal of the decoder that it called. -/
theorem signals_of_decodeNext (h : p.Placed root) (hnext : p.decodeNext = some q) :
    ∃ signal, q.truncated = (p.truncated || signal) ∧
      q.signals root = p.signals root ++ [signal] := by
  obtain ⟨offset, stop, type, hstate, hstep⟩ := decodeNext_eq_some hnext
  -- What the new layer answers was asked in front of it already, so the signals
  -- so far are those of the requests so far.
  have hasked := (h.pending offset stop type hstate).asked
  have hpush : ∀ placed state truncated,
      (p.push placed state truncated).signals root = p.signals root ++
        [(attempt p.decoders p.options type (slice p.data offset stop)).2] := by
    intro placed state truncated
    have hshort : p.layers.length ≤ (p.requests root).length := by
      rw [length_requests]
      exact Nat.le_succ _
    have hlength : (p.push placed state truncated).layers.length = p.layers.length + 1 := by
      simp [push]
    rw [signals, signals, hlength, List.take_add_one, getElem?_requests_push (Nat.le_refl _),
      hasked, requests_push, List.take_append_of_le_length hshort, List.map_append]
    rfl
  refine ⟨(attempt p.decoders p.options type (slice p.data offset stop)).2, ?_⟩
  obtain ⟨layer, -, rfl⟩ | ⟨error, -, rfl⟩ := hstep
  · exact ⟨rfl, hpush _ _ _⟩
  · exact ⟨rfl, hpush _ _ _⟩

/-- A packet is truncated if any decoder that was called said so. -/
theorem truncated_iterate_start
    (data : Octets) (root : LayerType) (options : DecodeOptions) (decoders : DecoderTable L)
    (n : Nat) :
    let p := advance^[n] (start data root options decoders)
    p.truncated = (p.signals root).any id := by
  induction n with
  | zero => rfl
  | succ n ih =>
      have hplaced := (placed_start data root options decoders).iterate n
      simp only [Function.iterate_succ_apply'] at ih ⊢
      refine advance_cases (motive := fun _ q => q.truncated = (q.signals root).any id) _
        (fun _ => ih) ?_
      intro q hnext
      obtain ⟨signal, htruncated, hsignals⟩ := signals_of_decodeNext hplaced hnext
      rw [htruncated, hsignals, ih, List.any_append]
      simp

/-! ## Lazy and eager -/

/-- Whatever is asked of a lazy packet, in whatever order, the answers are those
of the eager packet.  The lazy packet then is as the eager run was after as many
layers, it is truncated if a decoder of these layers said so, and later
questions keep its layers. -/
theorem replay_lazy_eq_eager
    (data : Octets) (root : LayerType) (options : DecodeOptions) (decoders : DecoderTable L)
    (hlazy : decoders.IgnoresLazy) (calls : List (Σ A : Type, Accessor L A)) :
    let eagerly := { options with lazy := false }
    let onDemand := make data root { options with lazy := true } decoders
    let eager := make data root eagerly decoders
    let p := (replay calls onDemand).2
    let run := advance^[p.layers.length] (start data root eagerly decoders)
    (replay calls onDemand).1 = (replay calls eager).1 ∧
      (replay calls eager).2 = eager ∧
      p.layers <+: eager.layers ∧
      (p.layers = run.layers ∧ p.state = run.state ∧ p.truncated = run.truncated) ∧
      p.truncated = (p.signals root).any id ∧
      ∀ more, p.layers <+: (replay (calls ++ more) onDemand).2.layers := by
  intro eagerly onDemand eager p run
  have hsame : ∀ type, decoders.create type eagerly =
      decoders.create type { options with lazy := true } :=
    fun type => (hlazy.create_eq type options).symm
  have hstart : start data root eagerly decoders = onDemand.withOptions eagerly := rfl
  have heager : eager = onDemand.decodeAll.withOptions eagerly :=
    decodeAll_withOptions (p := onDemand) hsame
  obtain ⟨n, hn⟩ := decodedFrom_replay calls onDemand
  have hn' : p = advance^[n] onDemand := hn
  have hrun : run = p.withOptions eagerly := by
    have hthere : advance^[p.layers.length] onDemand = p := by
      rw [hn']
      exact iterate_length_layers rfl n
    calc run = advance^[p.layers.length] (onDemand.withOptions eagerly) := rfl
      _ = (advance^[p.layers.length] onDemand).withOptions eagerly :=
        iterate_advance_withOptions (p := onDemand) hsame p.layers.length
      _ = p.withOptions eagerly := by rw [hthere]
  have hfinal : eager.decodeAll = eager := by
    have heagerAll : eager = (start data root eagerly decoders).decodeAll := rfl
    rw [heagerAll]
    exact (decodedFrom_decodeAll _).eq_decodeAll
  refine ⟨?_, ?_, ?_, ⟨?_, ?_, ?_⟩, ?_, ?_⟩
  · rw [replay_eq_map_read, replay_eq_map_read, hfinal, heager]
    refine List.map_congr_left ?_
    intro asked _
    rw [Accessor.read_withOptions]
  · have hkept : (replay calls eager).2.DecodedFrom eager.decodeAll := by
      rw [hfinal]
      exact decodedFrom_replay calls eager
    exact hkept.eq_decodeAll.trans hfinal
  · rw [heager]
    have hbehind : onDemand.decodeAll.DecodedFrom p := by
      rw [← (decodedFrom_replay calls onDemand).decodeAll_eq]
      exact decodedFrom_decodeAll p
    exact hbehind.layers_kept
  · rw [hrun]
    rfl
  · rw [hrun]
    rfl
  · rw [hrun]
    rfl
  · rw [hn']
    exact truncated_iterate_start data root { options with lazy := true } decoders n
  · intro more
    rw [replay_append_snd]
    exact (decodedFrom_replay more p).layers_kept

/-- A frame whose IPv4 header is cut short, asked on demand. -/
theorem replay_lazy_eq_eager_of_short_header :
    BuiltinLayer.decoders.IgnoresLazy ∧
      let frame : Octets := [1, 2, 3, 4, 5, 6, 7, 8, 9, 10, 11, 12, 8, 0, 69]
      let calls : List (Σ A : Type, Accessor BuiltinLayer A) :=
        [⟨_, .layerAt 0⟩, ⟨_, .transportFlow⟩, ⟨_, .failure⟩, ⟨_, .isTruncated⟩]
      (replay calls (make frame .ethernet .onDemand BuiltinLayer.decoders)).1 =
        (replay calls (make frame .ethernet .standard BuiltinLayer.decoders)).1 :=
  ⟨BuiltinLayer.ignoresLazy_decoders,
    (replay_lazy_eq_eager _ .ethernet .standard BuiltinLayer.decoders
      BuiltinLayer.ignoresLazy_decoders _).1⟩

end Packet
end PacketLayers
