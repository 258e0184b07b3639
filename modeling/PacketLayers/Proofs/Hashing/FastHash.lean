import PacketLayers.Proofs.Hashing.Lanes

/-!
# The hashes of endpoints and flows

The hash of an endpoint gives each of the first eight octets a lane of its own, so
that it tells short addresses of one length apart; a longer address is hashed round
by round (`Endpoint.fastHash_collision_free`).

The hash of a flow folds each address into the even octets of a word.  Shifted by an
octet, the smaller of the two words lies in the odd ones, and nothing is carried when
it is added to the larger one.  Both words can therefore be read off the sum, up to
the one thing that it does not tell, which of them was the source: for short addresses
the hash joins the two directions of a conversation and nothing else
(`Flow.fastHash_joins_directions`).
-/

namespace PacketLayers

/-! ## Endpoints -/

namespace Endpoint

theorem fastHash_eq (e : Endpoint) : e.fastHash = laneFold 8 8 e.raw := foldLanes_eq e.raw

theorem make_of_length_le {raw : Octets} (kind : EndpointType)
    (h : raw.length ≤ maxAddressLength) : make kind raw = .ok ⟨kind, ⟨raw, h⟩⟩ := by
  rw [make, RawAddress.ofOctets, dif_pos h]
  rfl

/-- Addresses of one length up to eight octets have the same hash exactly if they are the same,
whatever the types of their endpoints.  The hash of any address is that of its first eight octets
combined with that of the others. -/
theorem fastHash_collision_free :
    (∀ (kind kind' : EndpointType) (a b : Octets), a.length = b.length → a.length ≤ 8 →
      ∃ e e', make kind a = .ok e ∧ make kind' b = .ok e' ∧
        (e.fastHash = e'.fastHash ↔ a = b)) ∧
    ∀ (kind : EndpointType) (raw : Octets), raw.length ≤ maxAddressLength →
      ∃ e first rest, make kind raw = .ok e ∧
        make kind (raw.take (min 8 raw.length)) = .ok first ∧
        make kind (raw.drop (min 8 raw.length)) = .ok rest ∧
        e.fastHash = first.fastHash ^^^ rest.fastHash := by
  constructor
  · intro kind kind' a b hlength hshort
    have ha : a.length ≤ maxAddressLength := hshort.trans (by decide)
    refine ⟨_, _, make_of_length_le kind ha, make_of_length_le kind' (hlength ▸ ha), ?_⟩
    rw [fastHash_eq, fastHash_eq]
    exact laneFold_inj (Nat.le_refl 8) rfl hlength hshort
  · intro kind raw hraw
    have htake : (raw.take (min 8 raw.length)).length ≤ maxAddressLength := by
      rw [List.length_take]
      omega
    have hdrop : (raw.drop (min 8 raw.length)).length ≤ maxAddressLength := by
      rw [List.length_drop]
      omega
    refine ⟨_, _, _, make_of_length_le kind hraw, make_of_length_le kind htake,
      make_of_length_le kind hdrop, ?_⟩
    rw [fastHash_eq, fastHash_eq, fastHash_eq]
    simp only [Endpoint.raw]
    rcases Nat.le_total raw.length 8 with hshort | hlong
    · -- Nothing is left behind the first octets, and the hash of no octets is zero.
      rw [Nat.min_eq_right hshort, List.take_length, List.drop_length]
      exact UInt64.xor_zero.symm
    · rw [Nat.min_eq_left hlong]
      have hfront : (raw.take 8).length = 8 := by rw [List.length_take, Nat.min_eq_left hlong]
      have hround : laneFold 8 8 (raw.take 8 ++ raw.drop 8) =
          laneFold 8 8 (raw.take 8) ^^^ laneFold 8 8 (raw.drop 8) := laneFold_append hfront _
      rwa [List.take_append_drop] at hround

/-- The addresses of two links, and an address of sixteen octets. -/
theorem fastHash_collision_free_link :
    let near : Octets := [2, 0, 0, 0, 0, 1]
    let far : Octets := [2, 0, 0, 0, 0, 2]
    let long : Octets := [32, 1, 13, 184, 0, 0, 0, 0, 0, 0, 0, 0, 0, 0, 0, 1]
    (near.length = far.length ∧ near.length ≤ 8 ∧ long.length ≤ maxAddressLength) ∧
      (∃ e e', make .mac near = .ok e ∧ make .mac far = .ok e' ∧ e.fastHash ≠ e'.fastHash) ∧
      ∃ e first rest, make .ipv6 long = .ok e ∧ make .ipv6 (long.take 8) = .ok first ∧
        make .ipv6 (long.drop 8) = .ok rest ∧ e.fastHash = first.fastHash ^^^ rest.fastHash := by
  intro near far long
  obtain ⟨hshort, hround⟩ := fastHash_collision_free
  refine ⟨by decide, ?_, hround .ipv6 long (by decide)⟩
  obtain ⟨e, e', hnear, hfar, hsame⟩ := hshort .mac .mac near far rfl (by decide)
  exact ⟨e, e', hnear, hfar, fun h => absurd (hsame.mp h) (by decide)⟩

end Endpoint

/-! ## Words of even and odd octets -/

/-- The octets of two strings by turns. -/
def interleave : Octets → Octets → Octets
  | a :: as, b :: bs => a :: b :: interleave as bs
  | _, _ => []

theorem length_interleave {as bs : Octets} (h : as.length = bs.length) :
    (interleave as bs).length = 2 * as.length := by
  induction as generalizing bs with
  | nil => rfl
  | cons a as ih =>
      cases bs with
      | nil => cases h
      | cons b bs =>
          simp only [interleave, List.length_cons, ih (Nat.succ.inj h)]
          omega

/-- Octets with free lanes between them take other octets into these lanes without a carry. -/
theorem packLanes_interleave {as bs : Octets} (h : as.length = bs.length) :
    packLanes 8 (interleave as bs) = packLanes 16 as + 256 * packLanes 16 bs := by
  induction as generalizing bs with
  | nil =>
      obtain rfl := List.length_eq_zero_iff.mp h.symm
      rfl
  | cons a as ih =>
      cases bs with
      | nil => cases h
      | cons b bs =>
          rw [interleave, packLanes_cons, packLanes_cons, packLanes_cons, packLanes_cons,
            ih (Nat.succ.inj h)]
          omega

theorem interleave_inj {as bs as' bs' : Octets} (h : as.length = bs.length)
    (h' : as'.length = bs'.length) :
    interleave as bs = interleave as' bs' ↔ as = as' ∧ bs = bs' := by
  constructor
  · intro hsame
    induction as generalizing bs as' bs' with
    | nil =>
        obtain rfl := List.length_eq_zero_iff.mp h.symm
        have hlength := congrArg List.length hsame
        rw [length_interleave h'] at hlength
        have hnil : as'.length = 0 := by
          simp only [interleave, List.length_nil] at hlength
          omega
        exact ⟨(List.length_eq_zero_iff.mp hnil).symm,
          (List.length_eq_zero_iff.mp (h'.symm.trans hnil)).symm⟩
    | cons a as ih =>
        cases bs with
        | nil => cases h
        | cons b bs =>
            cases as' with
            | nil => cases hsame
            | cons a' as' =>
                cases bs' with
                | nil => cases h'
                | cons b' bs' =>
                    obtain ⟨rfl, rfl, hrest⟩ : a = a' ∧ b = b' ∧
                        interleave as bs = interleave as' bs' := by
                      simpa only [interleave, List.cons.injEq] using hsame
                    obtain ⟨rfl, rfl⟩ := ih (Nat.succ.inj h) (Nat.succ.inj h') hrest
                    exact ⟨rfl, rfl⟩
  · rintro ⟨rfl, rfl⟩
    rfl

theorem packLanes_lt {width : Nat} (hwidth : 8 ≤ width) (lanes : Octets) :
    packLanes width lanes < 2 ^ (width * lanes.length) := by
  rw [Nat.pow_mul, ← List.length_map UInt8.toNat]
  refine Nat.ofDigits_lt_base_pow_length (Nat.one_lt_two_pow (by omega)) ?_
  intro digit hdigit
  obtain ⟨b, -, rfl⟩ := List.mem_map.mp hdigit
  exact toNat_lt_two_pow hwidth b

/-! ## Flows -/

namespace Flow

theorem exists_lanes (raw : Octets) :
    ∃ lanes : Octets, lanes.length = 4 ∧ (foldReversed raw).toNat = packLanes 16 lanes :=
  ⟨laneOctets 4 raw.reverse, length_laneOctets 4 raw.reverse,
    toNat_laneFold (by decide) rfl raw.reverse⟩

/-- Folded addresses leave every second octet of a word free: shifted by one, a folded address
loses nothing, and it is added to another one without a carry. -/
theorem toNat_add_shifted (s t : Octets) :
    (foldReversed t <<< 8).toNat = 256 * (foldReversed t).toNat ∧
      (foldReversed s).toNat + 256 * (foldReversed t).toNat < 2 ^ 64 := by
  obtain ⟨as, hlength, hs⟩ := exists_lanes s
  obtain ⟨bs, hlength', ht⟩ := exists_lanes t
  have hsum := packLanes_lt (Nat.le_refl 8) (interleave as bs)
  rw [packLanes_interleave (hlength.trans hlength'.symm),
    length_interleave (hlength.trans hlength'.symm), hlength, ← hs, ← ht] at hsum
  refine ⟨?_, hsum⟩
  have hoctet : (8 : UInt64).toNat % 64 = 8 := rfl
  rw [UInt64.toNat_shiftLeft, hoctet, Nat.shiftLeft_eq]
  omega

/-- Both words can be read off the sum of a folded address and a shifted one. -/
theorem add_shifted_inj (s t s' t' : Octets) :
    foldReversed s + (foldReversed t <<< 8) = foldReversed s' + (foldReversed t' <<< 8) ↔
      foldReversed s = foldReversed s' ∧ foldReversed t = foldReversed t' := by
  constructor
  · intro h
    obtain ⟨as, hlength, hs⟩ := exists_lanes s
    obtain ⟨bs, hlength', ht⟩ := exists_lanes t
    obtain ⟨cs, hlength'', hs'⟩ := exists_lanes s'
    obtain ⟨ds, hlength''', ht'⟩ := exists_lanes t'
    have hab := hlength.trans hlength'.symm
    have hcd := hlength''.trans hlength'''.symm
    have hsum : ∀ s t, (foldReversed s + (foldReversed t <<< 8)).toNat =
        (foldReversed s).toNat + 256 * (foldReversed t).toNat := by
      intro s t
      obtain ⟨hshift, hfits⟩ := toNat_add_shifted s t
      rw [UInt64.toNat_add, hshift, Nat.mod_eq_of_lt hfits]
    have hwords := congrArg UInt64.toNat h
    rw [hsum, hsum, hs, ht, hs', ht', ← packLanes_interleave hab, ← packLanes_interleave hcd,
      packLanes_inj (Nat.le_refl 8) (by rw [length_interleave hab, length_interleave hcd]; omega),
      interleave_inj hab hcd] at hwords
    obtain ⟨rfl, rfl⟩ := hwords
    exact ⟨UInt64.toNat_inj.mp (hs.trans hs'.symm), UInt64.toNat_inj.mp (ht.trans ht'.symm)⟩
  · rintro ⟨hs, ht⟩
    rw [hs, ht]

/-- The flow or its reverse, whichever has the larger word at its source. -/
def ordered (f : Flow) : Flow :=
  if foldReversed f.destination.octets < foldReversed f.source.octets then f else f.reverse

theorem ordered_eq_or (f : Flow) : f.ordered = f ∨ f.ordered = f.reverse := by
  unfold ordered
  split
  · exact Or.inl rfl
  · exact Or.inr rfl

/-- The larger of the two words stays and the smaller one is shifted. -/
theorem fastHash_eq (f : Flow) :
    f.fastHash =
      foldReversed f.ordered.source.octets + (foldReversed f.ordered.destination.octets <<< 8) := by
  simp only [fastHash, ordered]
  split
  · rfl
  · rfl

theorem fastHash_reverse (f : Flow) : f.reverse.fastHash = f.fastHash := by
  by_cases hless : foldReversed f.source.octets < foldReversed f.destination.octets
  · exact (if_pos hless).trans (if_neg (UInt64.lt_asymm hless)).symm
  · by_cases hmore : foldReversed f.destination.octets < foldReversed f.source.octets
    · exact (if_neg hless).trans (if_pos hmore).symm
    · have hsame : foldReversed f.source.octets = foldReversed f.destination.octets :=
        UInt64.le_antisymm (UInt64.not_lt.mp hmore) (UInt64.not_lt.mp hless)
      have hsum : foldReversed f.source.octets + (foldReversed f.destination.octets <<< 8) =
          foldReversed f.destination.octets + (foldReversed f.source.octets <<< 8) := by rw [hsame]
      exact ((if_neg hless).trans hsum).trans (if_neg hmore).symm

/-- A hash tells the two folded addresses, but not which of them is the source. -/
theorem fastHash_eq_iff (f g : Flow) :
    f.fastHash = g.fastHash ↔
      (foldReversed g.source.octets = foldReversed f.source.octets ∧
        foldReversed g.destination.octets = foldReversed f.destination.octets) ∨
      (foldReversed g.source.octets = foldReversed f.destination.octets ∧
        foldReversed g.destination.octets = foldReversed f.source.octets) := by
  constructor
  · intro h
    rw [fastHash_eq, fastHash_eq, add_shifted_inj] at h
    obtain ⟨hlarger, hsmaller⟩ := h
    rcases ordered_eq_or f with hf | hf <;> rcases ordered_eq_or g with hg | hg <;>
      rw [hf, hg] at hlarger hsmaller
    · exact Or.inl ⟨hlarger.symm, hsmaller.symm⟩
    · exact Or.inr ⟨hsmaller.symm, hlarger.symm⟩
    · exact Or.inr ⟨hlarger.symm, hsmaller.symm⟩
    · exact Or.inl ⟨hsmaller.symm, hlarger.symm⟩
  · rintro (⟨hsource, hdestination⟩ | ⟨hsource, hdestination⟩)
    · simp only [fastHash, hsource, hdestination]
    · rw [← fastHash_reverse g]
      simp only [fastHash, reverse, hsource, hdestination]

/-- Addresses of one length up to four octets are told apart when they are folded. -/
theorem foldReversed_inj {s t : Octets} (hlength : s.length = t.length) (hs : s.length ≤ 4) :
    foldReversed s = foldReversed t ↔ s = t := by
  rw [foldReversed_eq, foldReversed_eq,
    laneFold_inj (by decide) rfl (by rw [List.length_reverse, List.length_reverse, hlength])
      (by rwa [List.length_reverse]), List.reverse_inj]

/-- Both directions of a flow have the same hash, and in neither of them is anything lost when one
folded address is shifted and added to the other.  Between addresses of one length up to four
octets, such as ports and IPv4 addresses, no other flows have the same hash. -/
theorem fastHash_joins_directions :
    (∀ f : Flow, f.reverse.fastHash = f.fastHash ∧
      let a := foldReversed f.source.octets
      let b := foldReversed f.destination.octets
      f.fastHash = (if b < a then a + (b <<< 8) else b + (a <<< 8)) ∧
        a.toNat + (b <<< 8).toNat < 2 ^ 64 ∧ b.toNat + (a <<< 8).toNat < 2 ^ 64) ∧
    ∀ (n : Nat) (f g : Flow), n ≤ 4 →
      f.src.raw.length = n → f.dst.raw.length = n → g.src.raw.length = n → g.dst.raw.length = n →
      (f.fastHash = g.fastHash ↔
        (g.src.raw, g.dst.raw) = (f.src.raw, f.dst.raw) ∨
          (g.src.raw, g.dst.raw) = (f.reverse.src.raw, f.reverse.dst.raw)) := by
  constructor
  · intro f
    refine ⟨fastHash_reverse f, rfl, ?_, ?_⟩
    · obtain ⟨hshift, hfits⟩ := toNat_add_shifted f.source.octets f.destination.octets
      rwa [hshift]
    · obtain ⟨hshift, hfits⟩ := toNat_add_shifted f.destination.octets f.source.octets
      rwa [hshift]
  · intro n f g hn hfs hfd hgs hgd
    have hinj : ∀ s t : Octets, s.length = n → t.length = n →
        (foldReversed s = foldReversed t ↔ s = t) :=
      fun s t hs ht => foldReversed_inj (hs.trans ht.symm) (hs ▸ hn)
    rw [fastHash_eq_iff, hinj g.source.octets f.source.octets hgs hfs,
      hinj g.destination.octets f.destination.octets hgd hfd,
      hinj g.source.octets f.destination.octets hgs hfd,
      hinj g.destination.octets f.source.octets hgd hfs, Prod.mk.injEq, Prod.mk.injEq]
    rfl

/-- A request between two hosts has the hash of its reply, but not that of a request to a third
host. -/
theorem fastHash_joins_directions_hosts :
    let host (n : UInt8) : RawAddress := .ofVector #v[10, 0, 0, n] (by decide)
    let request : Flow := ⟨.ipv4, host 1, host 2⟩
    let reply : Flow := ⟨.ipv4, host 2, host 1⟩
    let other : Flow := ⟨.ipv4, host 1, host 3⟩
    (∀ f ∈ [request, reply, other], f.src.raw.length = 4 ∧ f.dst.raw.length = 4) ∧
      request.fastHash = reply.fastHash ∧ request.fastHash ≠ other.fastHash := by
  intro host request reply other
  have hsame := fastHash_joins_directions.2 4 request reply (Nat.le_refl 4) rfl rfl rfl rfl
  have hother := fastHash_joins_directions.2 4 request other (Nat.le_refl 4) rfl rfl rfl rfl
  exact ⟨by decide, hsame.mpr (by decide), fun h => absurd (hother.mp h) (by decide)⟩

end Flow

end PacketLayers
