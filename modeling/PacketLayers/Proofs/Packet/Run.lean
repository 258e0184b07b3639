import Mathlib.Logic.Function.Iterate
import PacketLayers.Packet

/-!
# Runs of the packet pipeline

A step decodes one more layer, or changes nothing once the pipeline has come to
its end.  Runs are iterates of that step.  This module holds what is true of
every run whatever the decoders do: what a step changes and what it leaves
alone, that a run only ever appends layers, and that the accessors' loop
`decodeUntil` stops at the first packet of the run that has enough layers.

The positions of the layers are kept apart in `PacketLayers.Proofs.Packet.Placement`.
-/

namespace PacketLayers
namespace Packet

variable {L : Type} [Layer L]

/-- One step of the pipeline, which stays where it is at its end. -/
def advance (p : Packet L) : Packet L := p.decodeNext.getD p

/-! ## One step -/

/-- A step needs octets that are left for a decoder.  It appends the decoder's
layer or the record of its failure and adds the decoder's truncation signal. -/
theorem decodeNext_eq_some
    {p q : Packet L} (h : p.decodeNext = some q) :
    ∃ offset stop type,
      p.state = .pending offset stop type ∧
      let input := slice p.data offset stop
      let attempted := attempt p.decoders p.options type input
      (∃ layer, attempted.1 = .ok layer ∧
        q = { p with
          layers := p.layers ++ [⟨.decoded layer, offset⟩]
          state := stateBehind offset layer
          truncated := p.truncated || attempted.2 }) ∨
      (∃ error, attempted.1 = .error error ∧
        q = { p with
          layers := p.layers ++ [⟨.failure (.record type error input.length), offset⟩]
          state := .failed p.layers.length error
          truncated := p.truncated || attempted.2 }) := by
  unfold decodeNext at h
  split at h
  · next offset stop type hstate =>
      refine ⟨offset, stop, type, hstate, ?_⟩
      simp only at h ⊢
      split at h
      · next layer hok => exact Or.inl ⟨layer, hok, (Option.some.inj h).symm⟩
      · next error herror => exact Or.inr ⟨error, herror, (Option.some.inj h).symm⟩
  · cases h
  · cases h

/-- The pipeline is at its end when no octets are left for a decoder. -/
theorem decodeNext_eq_none_iff {p : Packet L} :
    p.decodeNext = none ↔ ∀ offset stop type, p.state ≠ .pending offset stop type := by
  unfold decodeNext
  split
  · next offset stop type hstate =>
      simp only
      split <;> simp [hstate]
  · next hstate => simp [hstate]
  · next hstate => simp [hstate]

/-- At the end of a run everything was decoded or a decoder failed. -/
theorem state_of_decodeNext_eq_none {p : Packet L} (h : p.decodeNext = none) :
    p.state = .done ∨ ∃ index error, p.state = .failed index error := by
  have hend := decodeNext_eq_none_iff.mp h
  cases hstate : p.state with
  | pending offset stop type => exact absurd hstate (hend offset stop type)
  | done => exact Or.inl rfl
  | failed index error => exact Or.inr ⟨index, error, rfl⟩

theorem advance_of_decodeNext_eq_none {p : Packet L} (h : p.decodeNext = none) :
    p.advance = p := by
  simp [advance, h]

/-- A step either is refused and changes nothing or is one of `decodeNext`. -/
theorem advance_cases
    {motive : Packet L → Packet L → Prop} (p : Packet L)
    (stay : p.decodeNext = none → motive p p)
    (step : ∀ q, p.decodeNext = some q → motive p q) : motive p p.advance := by
  cases hnext : p.decodeNext with
  | none =>
      rw [advance_of_decodeNext_eq_none hnext]
      exact stay hnext
  | some q =>
      have hq : p.advance = q := by simp [advance, hnext]
      rw [hq]
      exact step q hnext

/-- A step leaves the octets and the way they are decoded alone. -/
@[simp]
theorem advance_frame (p : Packet L) :
    p.advance.data = p.data ∧ p.advance.options = p.options ∧
      p.advance.decoders = p.decoders := by
  refine advance_cases (motive := fun p q =>
    q.data = p.data ∧ q.options = p.options ∧ q.decoders = p.decoders) p
    (fun _ => ⟨rfl, rfl, rfl⟩) ?_
  intro q hnext
  obtain ⟨offset, stop, type, -, ⟨layer, -, rfl⟩ | ⟨error, -, rfl⟩⟩ := decodeNext_eq_some hnext
  · exact ⟨rfl, rfl, rfl⟩
  · exact ⟨rfl, rfl, rfl⟩

/-- A step that is not refused appends exactly one layer. -/
theorem length_layers_of_decodeNext {p q : Packet L} (h : p.decodeNext = some q) :
    q.layers.length = p.layers.length + 1 := by
  obtain ⟨offset, stop, type, -, ⟨layer, -, rfl⟩ | ⟨error, -, rfl⟩⟩ := decodeNext_eq_some h
  · simp
  · simp

theorem layers_prefix_advance (p : Packet L) : p.layers <+: p.advance.layers := by
  refine advance_cases (motive := fun p q => p.layers <+: q.layers) p
    (fun _ => List.prefix_rfl) ?_
  intro q hnext
  obtain ⟨offset, stop, type, -, ⟨layer, -, rfl⟩ | ⟨error, -, rfl⟩⟩ := decodeNext_eq_some hnext
  · exact List.prefix_append _ _
  · exact List.prefix_append _ _

/-! ## Runs -/

@[simp]
theorem iterate_advance_frame (n : Nat) (p : Packet L) :
    (advance^[n] p).data = p.data ∧ (advance^[n] p).options = p.options ∧
      (advance^[n] p).decoders = p.decoders := by
  induction n generalizing p with
  | zero => exact ⟨rfl, rfl, rfl⟩
  | succ n ih =>
      rw [Function.iterate_succ_apply]
      simpa only [advance_frame] using ih p.advance

/-- At its end a run stays where it is. -/
theorem iterate_advance_of_decodeNext_eq_none
    {p : Packet L} (h : p.decodeNext = none) (n : Nat) : advance^[n] p = p :=
  Function.iterate_fixed (advance_of_decodeNext_eq_none h) n

/-- Layers that were decoded stay as they are and where they are. -/
theorem layers_prefix_iterate (n : Nat) (p : Packet L) :
    p.layers <+: (advance^[n] p).layers := by
  induction n generalizing p with
  | zero => exact List.prefix_rfl
  | succ n ih =>
      rw [Function.iterate_succ_apply]
      exact (layers_prefix_advance p).trans (ih p.advance)

theorem layers_prefix_of_le {m n : Nat} (h : m ≤ n) (p : Packet L) :
    (advance^[m] p).layers <+: (advance^[n] p).layers := by
  obtain ⟨k, rfl⟩ := Nat.exists_eq_add_of_le h
  rw [Nat.add_comm, Function.iterate_add_apply]
  exact layers_prefix_iterate k (advance^[m] p)

/-- Until a run comes to its end, every step adds a layer. -/
theorem length_layers_iterate (n : Nat) (p : Packet L) :
    (advance^[n] p).layers.length = p.layers.length + n ∨
      (advance^[n] p).decodeNext = none := by
  induction n generalizing p with
  | zero => exact Or.inl rfl
  | succ n ih =>
      rw [Function.iterate_succ_apply]
      cases hnext : p.decodeNext with
      | none =>
          rw [advance_of_decodeNext_eq_none hnext, iterate_advance_of_decodeNext_eq_none hnext]
          exact Or.inr hnext
      | some q =>
          have hq : p.advance = q := by simp [advance, hnext]
          have hlength := length_layers_of_decodeNext hnext
          rw [hq]
          rcases ih q with hcount | hend
          · refine Or.inl ?_
            omega
          · exact Or.inr hend

/-- A run is where it was as soon as it had as many layers. -/
theorem iterate_length_layers {p : Packet L} (h : p.layers = []) (n : Nat) :
    advance^[(advance^[n] p).layers.length] p = advance^[n] p := by
  induction n with
  | zero => simp [h]
  | succ n ih =>
      rw [Function.iterate_succ_apply']
      cases hnext : (advance^[n] p).decodeNext with
      | none =>
          rw [advance_of_decodeNext_eq_none hnext]
          exact ih
      | some q =>
          have hq : (advance^[n] p).advance = q := by simp [advance, hnext]
          have hlength := length_layers_of_decodeNext hnext
          rw [hq, hlength, Function.iterate_succ_apply', ih, hq]

/-! ## Decoding until there is enough -/

/-- The loop of the accessors stops at the first packet of the run that has
enough layers, or at the end of the run. -/
theorem exists_steps_decodeUntil (enough : Packet L → Bool) (p : Packet L) :
    ∃ n, p.decodeUntil enough = advance^[n] p ∧
      (∀ m < n, enough (advance^[m] p) = false ∧ (advance^[m] p).decodeNext ≠ none) ∧
      (enough (advance^[n] p) = true ∨ (advance^[n] p).decodeNext = none) := by
  induction p using decodeUntil.induct enough with
  | case1 p henough =>
      refine ⟨0, ?_, ?_, Or.inl henough⟩
      · rw [decodeUntil, if_pos henough]
        rfl
      · intro m hm
        exact absurd hm (Nat.not_lt_zero m)
  | case2 p henough hnext =>
      refine ⟨0, ?_, ?_, Or.inr hnext⟩
      · rw [decodeUntil, if_neg henough]
        split
        · rfl
        · next q hq => simp [hnext] at hq
      · intro m hm
        exact absurd hm (Nat.not_lt_zero m)
  | case3 p henough q hnext ih =>
      obtain ⟨n, hrun, hbefore, hstop⟩ := ih
      have hq : p.advance = q := by simp [advance, hnext]
      refine ⟨n + 1, ?_, ?_, ?_⟩
      · rw [decodeUntil, if_neg henough, Function.iterate_succ_apply, hq, ← hrun]
        split
        · next hnone => simp [hnext] at hnone
        · next q' hq' => rw [Option.some.inj (hnext.symm.trans hq')]
      · intro m hm
        cases m with
        | zero => exact ⟨Bool.eq_false_iff.mpr henough, by simp [hnext]⟩
        | succ m =>
            rw [Function.iterate_succ_apply, hq]
            exact hbefore m (Nat.lt_of_succ_lt_succ hm)
      · rw [Function.iterate_succ_apply, hq]
        exact hstop

/-- Decoding all layers runs to the end. -/
theorem exists_steps_decodeAll (p : Packet L) :
    ∃ n, p.decodeAll = advance^[n] p ∧ p.decodeAll.decodeNext = none := by
  obtain ⟨n, hrun, -, hstop⟩ := exists_steps_decodeUntil (fun _ => false) p
  refine ⟨n, hrun, ?_⟩
  rcases hstop with henough | hend
  · cases henough
  · rw [decodeAll, hrun]
    exact hend

/-- Enough steps make `decodeAll`. -/
theorem iterate_advance_eq_decodeAll
    {n : Nat} {p : Packet L} (h : (advance^[n] p).decodeNext = none) :
    advance^[n] p = p.decodeAll := by
  obtain ⟨m, hrun, hend⟩ := exists_steps_decodeAll p
  rw [hrun] at hend ⊢
  rcases Nat.le_total m n with hle | hle
  · obtain ⟨k, rfl⟩ := Nat.exists_eq_add_of_le hle
    rw [Nat.add_comm, Function.iterate_add_apply, iterate_advance_of_decodeNext_eq_none hend]
  · obtain ⟨k, rfl⟩ := Nat.exists_eq_add_of_le hle
    rw [Nat.add_comm, Function.iterate_add_apply, iterate_advance_of_decodeNext_eq_none h]

/-- All layers of a packet are the same however far it is decoded already. -/
theorem decodeAll_iterate (n : Nat) (p : Packet L) :
    (advance^[n] p).decodeAll = p.decodeAll := by
  obtain ⟨m, hrun, hend⟩ := exists_steps_decodeAll (advance^[n] p)
  rw [hrun, ← Function.iterate_add_apply] at hend ⊢
  exact iterate_advance_eq_decodeAll hend

/-- With eager or lazy options, a packet ends up with the same layers. -/
theorem decodeAll_make
    (data : Octets) (root : LayerType) (options : DecodeOptions) (decoders : DecoderTable L) :
    (make data root options decoders).decodeAll = (start data root options decoders).decodeAll := by
  simp only [make]
  split
  · rfl
  · obtain ⟨n, hrun, -⟩ := exists_steps_decodeAll (start data root options decoders)
    rw [hrun, decodeAll_iterate, hrun]

end Packet
end PacketLayers
