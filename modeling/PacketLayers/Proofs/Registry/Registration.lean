import PacketLayers.Flow

/-!
# Registrations of endpoint types

A program has one table of endpoint types.  It starts out empty, and the first call that
looks a type up or registers one enters the built-in types before it does anything else
(`SharedRegistry.prepare`).  No caller can tell: each call finds what it would find had
the program started from `Registry.builtin` (`SharedRegistry.view_run`).

A table is written once in each place.  What is known about a type after a run of calls
is what was known about it before, or else what the first call of the run offered
(`Registry.metadata?_run`).  Everything else follows from this one equation.  The main
statement is `registrations_persist`.
-/

namespace PacketLayers

/-- A call of a program on its registry. -/
inductive RegistryCall where
  /-- Try to register a type under a number. -/
  | register (number : UInt16) (metadata : EndpointMetadata)
  /-- Look a type up, to name it or to render raw octets of it. -/
  | lookUp (kind : EndpointType)

namespace RegistryCall

/-- What a call offers to be known about a type. -/
def offer? (kind : EndpointType) : RegistryCall → Option EndpointMetadata
  | register number metadata => if kind = ⟨number⟩ then some metadata else none
  | lookUp _ => none

/-- What the first call that tries to register a type offers for it. -/
def firstOffer? (calls : List RegistryCall) (kind : EndpointType) : Option EndpointMetadata :=
  calls.findSome? (offer? kind)

/-- A number is free after some calls if it is not that of a built-in type and no call used it. -/
def Free (calls : List RegistryCall) (number : UInt16) : Prop :=
  6 ≤ number ∧ ∀ metadata, register number metadata ∉ calls

theorem firstOffer?_cons (c : RegistryCall) (calls : List RegistryCall) (kind : EndpointType) :
    firstOffer? (c :: calls) kind = (c.offer? kind).or (firstOffer? calls kind) := by
  rw [firstOffer?, List.findSome?_cons]
  cases c.offer? kind <;> rfl

/-- Nothing is offered for a type just if no call uses its number. -/
theorem firstOffer?_eq_none_iff {calls : List RegistryCall} {number : UInt16} :
    firstOffer? calls ⟨number⟩ = none ↔ ∀ metadata, register number metadata ∉ calls := by
  rw [firstOffer?, List.findSome?_eq_none_iff]
  constructor
  · intro hnone metadata hmem
    have hoffer := hnone _ hmem
    rw [offer?, if_pos rfl] at hoffer
    cases hoffer
  · intro hunused c hmem
    cases c with
    | register other metadata =>
        refine if_neg fun hsame => ?_
        obtain rfl : number = other := congrArg EndpointType.number hsame
        exact hunused metadata hmem
    | lookUp _ => rfl

end RegistryCall

open RegistryCall (Free firstOffer? firstOffer?_cons firstOffer?_eq_none_iff)

/-! ## Tables -/

namespace Registry

variable {registry : Registry} {kind : EndpointType} {metadata : EndpointMetadata}

/-- The table behind a call, whether it succeeded or not. -/
def call (registry : Registry) : RegistryCall → Registry
  | .register number metadata =>
    match registry.register number metadata with
    | .ok longer => longer
    | .error _ => registry
  | .lookUp _ => registry

/-- The table behind some calls, one after the other. -/
def run (registry : Registry) (calls : List RegistryCall) : Registry := calls.foldl call registry

/-- Enter a type, in place of what may be known about it. -/
def insert (registry : Registry) (kind : EndpointType) (metadata : EndpointMetadata) : Registry :=
  ⟨registry.entries.filter (fun entry => entry.1 ≠ kind) ++ [(kind, metadata)]⟩

/-- An entry of a free type comes behind all others, and replaces none. -/
theorem insert_of_free (h : registry.metadata? kind = none) :
    registry.insert kind metadata = ⟨registry.entries ++ [(kind, metadata)]⟩ := by
  have hkeep : registry.entries.filter (fun entry => entry.1 ≠ kind) = registry.entries := by
    refine List.filter_eq_self.mpr fun entry hmem => ?_
    have hother : kind ≠ entry.1 := bne_iff_ne.mp (List.lookup_eq_none_iff.mp h entry hmem)
    exact decide_eq_true hother.symm
  rw [insert, hkeep]

/-- An entry behind all others counts for a type that has none among them. -/
theorem metadata?_push (registry : Registry) (entered kind : EndpointType)
    (metadata : EndpointMetadata) :
    (⟨registry.entries ++ [(entered, metadata)]⟩ : Registry).metadata? kind =
      (registry.metadata? kind).or (if kind = entered then some metadata else none) := by
  rw [metadata?, metadata?, List.lookup_append, List.lookup_cons, List.lookup_nil]
  by_cases hsame : kind = entered
  · rw [if_pos hsame, beq_iff_eq.mpr hsame]
  · rw [if_neg hsame, beq_eq_false_iff_ne.mpr hsame]

/-- A call adds what it offers for a type that is not known. -/
theorem metadata?_call (registry : Registry) (c : RegistryCall) (kind : EndpointType) :
    (registry.call c).metadata? kind = (registry.metadata? kind).or (c.offer? kind) := by
  cases c with
  | lookUp _ => exact Option.or_none.symm
  | register number metadata =>
      rw [call, register, RegistryCall.offer?]
      cases hknown : registry.metadata? ⟨number⟩ with
      | some known =>
          by_cases hsame : kind = ⟨number⟩
          · rw [hsame, hknown, Option.some_or]
          · rw [if_neg hsame, Option.or_none]
      | none => exact metadata?_push registry ⟨number⟩ kind metadata

/-- What is known about a type stays; otherwise the first offer is taken. -/
theorem metadata?_run (registry : Registry) (calls : List RegistryCall) (kind : EndpointType) :
    (registry.run calls).metadata? kind =
      (registry.metadata? kind).or (firstOffer? calls kind) := by
  induction calls generalizing registry with
  | nil => exact Option.or_none.symm
  | cons c calls ih =>
      have hstep : registry.run (c :: calls) = (registry.call c).run calls := rfl
      rw [hstep, ih, metadata?_call, firstOffer?_cons, Option.or_assoc]

theorem metadata?_builtin_of_mem {entry : EndpointType × EndpointMetadata}
    (h : entry ∈ builtin.entries) : builtin.metadata? entry.1 = some entry.2 := by
  simp only [builtin, List.mem_cons, List.not_mem_nil, or_false] at h
  rcases h with rfl | rfl | rfl | rfl | rfl | rfl <;> rfl

/-- The built-in types have the first six numbers. -/
theorem metadata?_builtin_eq_none_iff {number : UInt16} :
    builtin.metadata? ⟨number⟩ = none ↔ 6 ≤ number := by
  rw [metadata?, List.lookup_eq_none_iff]
  simp only [builtin, List.forall_mem_cons, List.not_mem_nil, false_implies, implies_true, and_true,
    bne_iff_ne, ne_eq, EndpointType.invalid, EndpointType.ipv4, EndpointType.ipv6,
    EndpointType.mac, EndpointType.tcpPort, EndpointType.udpPort, EndpointType.mk.injEq,
    ← UInt16.toNat_inj, UInt16.le_iff_toNat_le, UInt16.reduceToNat]
  omega

/-- What is known about a type decides how its endpoints are shown. -/
theorem text_endpoint_congr {registry' : Registry} {e : Endpoint}
    (h : registry'.metadata? e.kind = registry.metadata? e.kind) :
    e.text registry' = e.text registry := by
  rw [Endpoint.text, Endpoint.text, render, render, h]

end Registry

/-! ## The table of a program -/

/-- The table of a program, and whether the built-in types were entered. -/
structure SharedRegistry where
  prepared : Bool
  table : Registry

namespace SharedRegistry

variable {s : SharedRegistry} {number : UInt16} {metadata : EndpointMetadata}

/-- Before any call there are no types at all. -/
def start : SharedRegistry := ⟨false, ⟨[]⟩⟩

/-- Enter the built-in types, unless this was done before. -/
def prepare (s : SharedRegistry) : SharedRegistry :=
  if s.prepared then s
  else
    ⟨true, Registry.builtin.entries.foldl
      (fun table entry => table.insert entry.1 entry.2) s.table⟩

/-- The table that a call finds. -/
def view (s : SharedRegistry) : Registry := s.prepare.table

/-- What is known about a type. -/
def lookUp (s : SharedRegistry) (kind : EndpointType) : Option EndpointMetadata × SharedRegistry :=
  (s.view.metadata? kind, s.prepare)

/-- Register a type under a number that is not in use. -/
def register (s : SharedRegistry) (number : UInt16) (metadata : EndpointMetadata) :
    Except RegistrationError EndpointType × SharedRegistry :=
  match s.view.metadata? ⟨number⟩ with
  | some _ => (.error (.duplicate number), s.prepare)
  | none => (.ok ⟨number⟩, ⟨true, s.view.insert ⟨number⟩ metadata⟩)

/-- The state behind a call. -/
def call (s : SharedRegistry) : RegistryCall → SharedRegistry
  | .register number metadata => (s.register number metadata).2
  | .lookUp kind => (s.lookUp kind).2

/-- The state behind some calls, one after the other. -/
def run (s : SharedRegistry) (calls : List RegistryCall) : SharedRegistry := calls.foldl call s

/-- The first call finds the built-in types. -/
theorem view_start : start.view = Registry.builtin := rfl

@[simp] theorem view_prepare (s : SharedRegistry) : s.prepare.view = s.view := by
  by_cases hprepared : s.prepared <;> simp [view, prepare, hprepared]

/-- A registration does to the table that it finds what it would do to it on its own. -/
theorem register_eq (s : SharedRegistry) (number : UInt16) (metadata : EndpointMetadata) :
    s.register number metadata =
      match s.view.register number metadata with
      | .ok longer => (.ok ⟨number⟩, ⟨true, longer⟩)
      | .error e => (.error e, s.prepare) := by
  rw [register, Registry.register]
  cases hknown : s.view.metadata? ⟨number⟩ with
  | some known => rfl
  | none => simp only [Registry.insert_of_free hknown]

theorem view_call (s : SharedRegistry) (c : RegistryCall) : (s.call c).view = s.view.call c := by
  cases c with
  | lookUp _ => exact view_prepare s
  | register number metadata =>
      rw [call, register_eq, Registry.call]
      cases s.view.register number metadata with
      | ok longer => rfl
      | error e => exact view_prepare s

/-- Entering the built-in types late makes no difference to a run. -/
theorem view_run (s : SharedRegistry) (calls : List RegistryCall) :
    (s.run calls).view = s.view.run calls := by
  induction calls generalizing s with
  | nil => rfl
  | cons c calls ih =>
      have hstep : s.run (c :: calls) = (s.call c).run calls := rfl
      rw [hstep, ih, view_call]
      rfl

/-- What is known about a type is fixed by its first use. -/
theorem metadata?_view_start_run (calls : List RegistryCall) (kind : EndpointType) :
    (start.run calls).view.metadata? kind =
      (Registry.builtin.metadata? kind).or (firstOffer? calls kind) := by
  rw [view_run, view_start, Registry.metadata?_run]

theorem metadata?_view_start_run_eq_none_iff {calls : List RegistryCall} :
    (start.run calls).view.metadata? ⟨number⟩ = none ↔ Free calls number := by
  rw [metadata?_view_start_run, Option.or_eq_none_iff, Registry.metadata?_builtin_eq_none_iff,
    firstOffer?_eq_none_iff]
  rfl

/-- Nothing that is called later changes what is known about a type in use. -/
theorem metadata?_view_run_of_not_free {calls : List RegistryCall} (later : List RegistryCall)
    (h : ¬ Free calls number) :
    ((start.run calls).run later).view.metadata? ⟨number⟩ =
      (start.run calls).view.metadata? ⟨number⟩ := by
  have hknown : ((start.run calls).view.metadata? ⟨number⟩).isSome :=
    Option.isSome_iff_ne_none.mpr (mt metadata?_view_start_run_eq_none_iff.mp h)
  rw [view_run, Registry.metadata?_run, Option.or_of_isSome hknown]

theorem register_of_free (h : s.view.metadata? ⟨number⟩ = none) :
    s.register number metadata =
      (.ok ⟨number⟩, ⟨true, ⟨s.view.entries ++ [(⟨number⟩, metadata)]⟩⟩) := by
  rw [register, h, Registry.insert_of_free h]

theorem register_of_known (h : s.view.metadata? ⟨number⟩ ≠ none) :
    s.register number metadata = (.error (.duplicate number), s.prepare) := by
  obtain ⟨known, hknown⟩ := Option.ne_none_iff_exists'.mp h
  rw [register, hknown]

end SharedRegistry

/-- Registrations persist.  After any calls of a program, the built-in types are known as they were
built in, and any other type as the first call offered that used its number.  A registration
succeeds if and only if its number is free, and then adds one entry; otherwise it answers that the
number is in use and leaves the table as it is.  So whatever is called later, endpoints and flows of
a type in use are shown as before.  The table is the one that the calls make of
`Registry.builtin`. -/
theorem registrations_persist (calls : List RegistryCall) :
    let now := SharedRegistry.start.run calls
    (∀ entry ∈ Registry.builtin.entries, (now.lookUp entry.1).1 = some entry.2) ∧
    (∀ number, 6 ≤ number → (now.lookUp ⟨number⟩).1 = firstOffer? calls ⟨number⟩) ∧
    (∀ number metadata,
      let answered := now.register number metadata
      (answered.1 = .ok ⟨number⟩ ↔ Free calls number) ∧
      (Free calls number → answered.2.view.entries = now.view.entries ++ [(⟨number⟩, metadata)]) ∧
      (¬ Free calls number → answered = (.error (.duplicate number), now.prepare) ∧
        answered.2.view = now.view)) ∧
    (∀ later : List RegistryCall,
      (∀ e : Endpoint, ¬ Free calls e.kind.number →
        e.text (now.run later).view = e.text now.view) ∧
      ∀ f : Flow, ¬ Free calls f.kind.number →
        f.text (now.run later).view = f.text now.view) ∧
    now.view = Registry.builtin.run calls := by
  intro now
  have hfree : ∀ {number : UInt16}, now.view.metadata? ⟨number⟩ = none ↔ Free calls number :=
    SharedRegistry.metadata?_view_start_run_eq_none_iff
  have hshown : ∀ (later : List RegistryCall) (e : Endpoint), ¬ Free calls e.kind.number →
      e.text (now.run later).view = e.text now.view := fun later e hused =>
    Registry.text_endpoint_congr (SharedRegistry.metadata?_view_run_of_not_free later hused)
  refine ⟨?_, ?_, ?_, ?_, ?_⟩
  · intro entry hentry
    have hknown := SharedRegistry.metadata?_view_start_run calls entry.1
    rwa [Registry.metadata?_builtin_of_mem hentry, Option.some_or] at hknown
  · intro number hnumber
    have hknown := SharedRegistry.metadata?_view_start_run calls ⟨number⟩
    rwa [Registry.metadata?_builtin_eq_none_iff.mpr hnumber, Option.none_or] at hknown
  · intro number metadata answered
    by_cases hnumber : Free calls number
    · have hanswered : answered = _ := SharedRegistry.register_of_free (hfree.mpr hnumber)
      rw [hanswered]
      exact ⟨iff_of_true rfl hnumber, fun _ => rfl, fun hused => absurd hnumber hused⟩
    · have hanswered : answered = _ := SharedRegistry.register_of_known (mt hfree.mp hnumber)
      rw [hanswered]
      exact ⟨iff_of_false nofun hnumber, fun h => absurd h hnumber,
        fun _ => ⟨rfl, SharedRegistry.view_prepare now⟩⟩
  · intro later
    refine ⟨hshown later, fun f hused => ?_⟩
    rw [Flow.text, Flow.text, hshown later f.src hused, hshown later f.dst hused]
  · rw [SharedRegistry.view_run, SharedRegistry.view_start]

/-- An endpoint of a custom type stays as it was shown, even if its number is used once more. -/
theorem registrations_persist_custom :
    let custom : List RegistryCall := [.register 4711 ⟨"Custom", hexText⟩]
    let later : List RegistryCall :=
      [.register 4711 ⟨"Other", listText⟩, .register 1000 ⟨"New", hexText⟩]
    let e : Endpoint := ⟨⟨4711⟩, ⟨[0xde, 0xad], by decide⟩⟩
    ¬ Free custom 4711 ∧ e.text (SharedRegistry.start.run custom).view = "dead" ∧
      e.text ((SharedRegistry.start.run custom).run later).view = "dead" := by
  intro custom later e
  have hused : ¬ Free custom 4711 := fun hfree => hfree.2 _ List.mem_cons_self
  have hshown : e.text (SharedRegistry.start.run custom).view = "dead" := rfl
  have hkept := ((registrations_persist custom).2.2.2.1 later).1 e hused
  exact ⟨hused, hshown, hkept.trans hshown⟩

end PacketLayers
