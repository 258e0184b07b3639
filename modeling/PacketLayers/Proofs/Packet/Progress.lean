import PacketLayers.Proofs.Packet.Accessors

/-!
# How far an answer decodes a packet

An accessor decodes until its answer is there.  What it waits for is a question about
the layers that are there, so that the run stops at the first number of layers at
which the question is answered, and not before the layers it started with
(`exists_take_decodeUntil`).  Both kinds of questions, for a layer at an index and for
the first layer that passes a test, wait for the layer at some index of the full
decoding, and `length_layers_decodeUntil` says where such a run stops.

The main statement is `Packet.decodes_as_needed`: after any calls before, an accessor
leaves as many layers decoded as were there or as its answer needs, whichever is more.
-/

namespace PacketLayers

/-- The number of entries up to and including the first that passes a test, or of all entries if
none does. -/
def upToFirst {α : Type} (test : α → Bool) (all : List α) : Nat :=
  match all.findIdx? test with
  | some index => index + 1
  | none => all.length

theorem upToFirst_eq_min {α : Type} (test : α → Bool) (all : List α) :
    upToFirst test all = min (all.findIdx test + 1) all.length := by
  unfold upToFirst
  split
  · next index hfirst =>
      obtain ⟨hinside, hindex⟩ := List.findIdx?_eq_some_iff_findIdx_eq.mp hfirst
      omega
  · next hnone =>
      have hindex := List.findIdx?_eq_none_iff_findIdx_eq.mp hnone
      omega

/-- A test finds an entry in the front of a list if the first that passes lies there. -/
theorem any_take_eq {α : Type} (test : α → Bool) {all : List α} {n : Nat} (h : n ≤ all.length) :
    (all.take n).any test = decide (all.findIdx test < n) := by
  rw [Bool.eq_iff_iff, List.any_eq_true, ← List.findIdx_lt_length, List.findIdx_take,
    List.length_take, decide_eq_true_eq]
  omega

/-- The number of layers that an answer needs, out of all layers of a packet. -/
def Accessor.needed {L A : Type} [Layer L] : Accessor L A → List (PlacedLayer L) → Nat
  | .layerTypes, all => all.length
  | .layers, all => all.length
  | .layerAt index, all => min (index + 1) all.length
  | .layerOfType layerType, all =>
      upToFirst (fun placed => Layer.layerType placed.layer == layerType) all
  | .layerAs project, all => upToFirst (fun placed => (project placed.layer).isSome) all
  | .failure, all => all.length
  | .isTruncated, all => all.length
  | .linkFlow, all =>
      upToFirst (fun placed => (Layer.layerType placed.layer).layerClass == .link) all
  | .networkFlow, all =>
      upToFirst (fun placed => (Layer.layerType placed.layer).layerClass == .network) all
  | .transportFlow, all =>
      upToFirst (fun placed => (Layer.layerType placed.layer).layerClass == .transport) all
  | .detach, _ => 0

namespace Packet

variable {L : Type} [Layer L] {p q : Packet L}

/-! ## The run of one accessor -/

/-- Each step of a run that has not come to its end added a layer. -/
theorem length_layers_of_running {n : Nat} (h : ∀ k < n, (advance^[k] p).decodeNext ≠ none) :
    (advance^[n] p).layers.length = p.layers.length + n := by
  induction n with
  | zero => rfl
  | succ n ih =>
      obtain ⟨q, hnext⟩ := Option.ne_none_iff_exists'.mp (h n (Nat.lt_succ_self n))
      have hq : (advance^[n] p).advance = q := by simp [advance, hnext]
      rw [Function.iterate_succ_apply', hq, length_layers_of_decodeNext hnext,
        ih fun k hk => h k (Nat.lt_succ_of_lt hk), Nat.add_assoc]

/-- The layers of a packet on a run are the first ones of all layers. -/
theorem DecodedFrom.layers_eq_take (h : q.DecodedFrom p) :
    q.layers = p.decodeAll.layers.take q.layers.length := by
  have hbehind := (decodedFrom_decodeAll q).layers_kept
  rw [h.decodeAll_eq] at hbehind
  exact List.prefix_iff_eq_take.mp hbehind

/-- A loop that waits for a question about the layers stops at the first number of layers at which
the question is answered, or with all layers. -/
theorem exists_take_decodeUntil (enough : List (PlacedLayer L) → Bool) (p : Packet L) :
    ∃ n, p.layers.length ≤ n ∧ n ≤ p.decodeAll.layers.length ∧
      (p.decodeUntil fun r => enough r.layers).layers = p.decodeAll.layers.take n ∧
      (∀ k, p.layers.length ≤ k → k < n → enough (p.decodeAll.layers.take k) = false) ∧
      (enough (p.decodeAll.layers.take n) = true ∨ n = p.decodeAll.layers.length) := by
  obtain ⟨n, hrun, hbefore, hstop⟩ := exists_steps_decodeUntil (fun r => enough r.layers) p
  have hlength : ∀ k ≤ n, (advance^[k] p).layers.length = p.layers.length + k := fun k hk =>
    length_layers_of_running fun j hj => (hbefore j (Nat.lt_of_lt_of_le hj hk)).2
  have htake : ∀ k ≤ n,
      (advance^[k] p).layers = p.decodeAll.layers.take (p.layers.length + k) := by
    intro k hk
    rw [← hlength k hk]
    exact DecodedFrom.layers_eq_take ⟨k, rfl⟩
  have hinside : p.layers.length + n ≤ p.decodeAll.layers.length := by
    have hfits := congrArg List.length (htake n (Nat.le_refl n))
    rw [hlength n (Nat.le_refl n), List.length_take] at hfits
    omega
  refine ⟨p.layers.length + n, Nat.le_add_right _ _, hinside, ?_, ?_, ?_⟩
  · rw [hrun, htake n (Nat.le_refl n)]
  · intro k hstart hk
    obtain ⟨j, rfl⟩ := Nat.exists_eq_add_of_le hstart
    have hj : j < n := by omega
    rw [← htake j (Nat.le_of_lt hj)]
    exact (hbefore j hj).1
  · rcases hstop with henough | hend
    · rw [← htake n (Nat.le_refl n)]
      exact Or.inl henough
    · rw [← hlength n (Nat.le_refl n), iterate_advance_eq_decodeAll hend]
      exact Or.inr rfl

/-- A loop that waits for the layer at an index of the full decoding neither stops short of it nor
goes beyond it. -/
theorem length_layers_decodeUntil (enough : List (PlacedLayer L) → Bool) {index : Nat}
    (h : ∀ n ≤ p.decodeAll.layers.length,
      enough (p.decodeAll.layers.take n) = decide (index < n)) :
    (p.decodeUntil fun r => enough r.layers).layers.length =
      max p.layers.length (min (index + 1) p.decodeAll.layers.length) := by
  obtain ⟨n, hstart, hinside, hlayers, hbefore, hstop⟩ := exists_take_decodeUntil enough p
  rw [hlayers, List.length_take, Nat.min_eq_left hinside]
  rw [h n hinside, decide_eq_true_eq] at hstop
  rcases Nat.eq_or_lt_of_le hstart with hnone | hsome
  · omega
  · -- One layer less was not enough.
    have hless := hbefore (n - 1) (by omega) (by omega)
    rw [h (n - 1) (by omega), decide_eq_false_iff_not] at hless
    omega

theorem length_layers_decodeAll (p : Packet L) :
    p.decodeAll.layers.length = max p.layers.length p.decodeAll.layers.length :=
  (Nat.max_eq_right (decodedFrom_decodeAll p).layers_kept.length_le).symm

theorem length_layers_layerAt (index : Nat) (p : Packet L) :
    (p.layerAt index).2.layers.length =
      max p.layers.length (min (index + 1) p.decodeAll.layers.length) := by
  refine length_layers_decodeUntil (fun layers => decide (index < layers.length)) ?_
  intro n hn
  rw [List.length_take, Nat.min_eq_left hn]

theorem length_layers_find (test : PacketLayer L → Bool) (p : Packet L) :
    (p.find test).2.layers.length =
      max p.layers.length (upToFirst (fun placed => test placed.layer) p.decodeAll.layers) := by
  rw [upToFirst_eq_min]
  exact length_layers_decodeUntil (fun layers => layers.any fun placed => test placed.layer)
    fun n hn => any_take_eq _ hn

end Packet

/-- A call leaves as many layers decoded as were there or as its answer needs. -/
theorem Accessor.length_layers_call {L A : Type} [Layer L] (accessor : Accessor L A)
    (p : Packet L) :
    (accessor.call p).2.layers.length =
      max p.layers.length (accessor.needed p.decodeAll.layers) := by
  cases accessor with
  | layerTypes => exact p.length_layers_decodeAll
  | layers => exact p.length_layers_decodeAll
  | layerAt index => exact p.length_layers_layerAt index
  | layerOfType layerType =>
      exact p.length_layers_find fun layer => Layer.layerType layer == layerType
  | layerAs project => exact p.length_layers_find fun layer => (project layer).isSome
  | failure => exact p.length_layers_decodeAll
  | isTruncated => exact p.length_layers_decodeAll
  | linkFlow =>
      exact p.length_layers_find fun layer => (Layer.layerType layer).layerClass == .link
  | networkFlow =>
      exact p.length_layers_find fun layer => (Layer.layerType layer).layerClass == .network
  | transportFlow =>
      exact p.length_layers_find fun layer => (Layer.layerType layer).layerClass == .transport
  | detach => exact (Nat.max_eq_left (Nat.zero_le _)).symm

namespace Packet

/-- Whatever was asked of a lazy packet before, an accessor decodes exactly as many layers of the
full decoding as its answer needs, and keeps those that are there already.  The packet then is as
the run of the full decoding was after as many layers. -/
theorem decodes_as_needed {L A : Type} [Layer L]
    (data : Octets) (root : LayerType) (options : DecodeOptions) (decoders : DecoderTable L)
    (calls : List (Σ A : Type, Accessor L A)) (accessor : Accessor L A) :
    let onDemand := make data root { options with lazy := true } decoders
    let full := onDemand.decodeAll.layers
    let p := (replay calls onDemand).2
    let q := (accessor.call p).2
    q.layers.length = max p.layers.length (accessor.needed full) ∧
      q.layers = full.take (max p.layers.length (accessor.needed full)) ∧
      q = advance^[q.layers.length] onDemand := by
  intro onDemand full p q
  have hp : p.DecodedFrom onDemand := decodedFrom_replay calls onDemand
  have hq : q.DecodedFrom onDemand := (accessor.decodedFrom_call p).trans hp
  have hlength : q.layers.length = max p.layers.length (accessor.needed full) := by
    have hfull : full = p.decodeAll.layers := by rw [hp.decodeAll_eq]
    rw [hfull]
    exact accessor.length_layers_call p
  refine ⟨hlength, ?_, ?_⟩
  · rw [← hlength]
    exact hq.layers_eq_take
  · obtain ⟨n, hn⟩ := hq
    rw [hn]
    exact (iterate_length_layers rfl n).symm

/-- A frame with a UDP datagram in IPv4, asked on demand: the network flow needs two layers of
four, the first one is there then, and a layer that is missing needs all of them. -/
example :
    let onDemand := make
      ([1, 2, 3, 4, 5, 6, 7, 8, 9, 10, 11, 12, 8, 0] ++
        [69, 0, 0, 29, 0, 0, 0, 0, 64, 17, 0, 0, 10, 0, 0, 1, 10, 0, 0, 2] ++
        [0, 1, 0, 2, 0, 9, 0, 0, 7]) .ethernet .onDemand BuiltinLayer.decoders
    let asked (calls : List (Σ A : Type, Accessor BuiltinLayer A)) :=
      (replay calls onDemand).2.layers.length
    [asked [], asked [⟨_, .networkFlow⟩], asked [⟨_, .networkFlow⟩, ⟨_, .layerAt 0⟩],
      asked [⟨_, .layerAt 2⟩, ⟨_, .layerOfType .dns⟩]] = [0, 2, 2, 4] := by
  decide +kernel

end Packet

end PacketLayers
