import PacketLayers.Proofs.Bounds.Builtin

/-!
# Which decoder an error comes from

Every error of a built-in decoder names the layer type of that decoder: either its input is missing
or invalid, or it is the DNS decoder and cannot read a name.  In particular no decoder says that a
layer type is unsupported; only a table without a decoder for the type does.

`DecodeError.Concerns` is closed under everything that the decoders are built from.  The main
statement is `BuiltinLayer.concerns_of_decode`.
-/

namespace PacketLayers

namespace DecodeError

/-- An error of the decoder of a layer type. -/
def Concerns (error : DecodeError) (type : LayerType) : Prop :=
  match error with
  | .truncated layer _ _ | .malformed layer _ => layer = type
  | .unsupported _ => False
  | .name _ => type = .dns

@[simp]
theorem concerns_truncated {layer type : LayerType} {needed available : Nat} :
    (truncated layer needed available).Concerns type ↔ layer = type := Iff.rfl

@[simp]
theorem concerns_malformed {layer type : LayerType} {reason : String} :
    (malformed layer reason).Concerns type ↔ layer = type := Iff.rfl

@[simp]
theorem concerns_name {type : LayerType} {error : NameError} :
    (name error).Concerns type ↔ type = .dns := Iff.rfl

theorem Concerns.ne_unsupported {error : DecodeError} {type : LayerType}
    (h : error.Concerns type) (layer : LayerType) : error ≠ .unsupported layer := by
  rintro rfl
  exact h

end DecodeError

variable {L M A B : Type} {type : LayerType} {error : DecodeError} {data : Octets}

/-- A call of the decoder of a layer type fails, if at all, with an error of that decoder. -/
def Decoding.FailsAs (type : LayerType) (d : Decoding L) : Prop :=
  ∀ error, d.error = some error → error.Concerns type

/-- A reader in the decoder of a layer type fails, if at all, with an error of that decoder. -/
def ReadsAs (type : LayerType) (x : Except DecodeError A) : Prop :=
  ∀ error, x = .error error → error.Concerns type

namespace Decoding

variable {layer : L}

theorem FailsAs.accept : FailsAs type (.accept layer) := by
  intro error h
  cases h

theorem FailsAs.read {signal : Bool} : FailsAs type ⟨layer, none, signal⟩ := by
  intro error h
  cases h

theorem FailsAs.reject (h : error.Concerns type) : FailsAs type (.reject layer error) := by
  intro error' h'
  exact Option.some.inj h' ▸ h

theorem FailsAs.map {d : Decoding L} (h : FailsAs type d) (f : L → M) : FailsAs type (d.map f) := h

end Decoding

namespace ReadsAs

theorem ok {a : A} : ReadsAs type (.ok a) := by
  intro error h
  cases h

theorem fail (h : error.Concerns type) : ReadsAs (A := A) type (.error error) := by
  intro error' h'
  exact Except.error.inj h' ▸ h

theorem bind {x : Except DecodeError A} {f : A → Except DecodeError B} (hx : ReadsAs type x)
    (hf : ∀ a, ReadsAs type (f a)) : ReadsAs type (x >>= f) := by
  cases x with
  | error error => exact .fail (hx error rfl)
  | ok a => exact hf a

theorem map {x : Except DecodeError A} (hx : ReadsAs type x) (f : A → B) :
    ReadsAs type (x.map f) := by
  cases x with
  | error error => exact .fail (hx error rfl)
  | ok a => exact .ok

end ReadsAs

open Decoding (FailsAs)

/-! ## Option lists -/

namespace OptionWalk

variable {w behind : OptionWalk}

theorem readsAs_readOption (w : OptionWalk) : ReadsAs w.layer w.readOption := by
  unfold readOption
  simp only
  split
  · exact .fail rfl
  · split
    · exact .fail rfl
    · split
      · exact .fail rfl
      · exact .ok

theorem concerns_of_next (h : w.next = some (.error error, behind)) : error.Concerns w.layer := by
  unfold next at h
  split at h
  · cases h
  · split at h
    · cases h
    · split at h
      · cases h
      · split at h
        · next hread =>
            obtain ⟨herror, -⟩ := Prod.mk.inj (Option.some.inj h)
            exact readsAs_readOption w _ (Except.error.inj herror ▸ hread)
        · cases h

/-- A walk reports its errors against one layer. -/
theorem layer_of_next {found : Except DecodeError RawOption} (h : w.next = some (found, behind)) :
    behind.layer = w.layer := by
  unfold next at h
  split at h
  · cases h
  · split at h
    · cases h
    · split at h
      · obtain ⟨-, rfl⟩ := Prod.mk.inj (Option.some.inj h)
        rfl
      · split at h
        · obtain ⟨-, rfl⟩ := Prod.mk.inj (Option.some.inj h)
          rfl
        · obtain ⟨-, rfl⟩ := Prod.mk.inj (Option.some.inj h)
          rfl

/-- A visitor without errors of its own adds none to those of the walk. -/
theorem failsAs_visitAll {S : Type} (visit : S → RawOption → S × Option DecodeError)
    (hvisit : ∀ state option, (visit state option).2 = none) (state : S) (w : OptionWalk) :
    FailsAs w.layer (visitAll visit state w) := by
  induction state, w using visitAll.induct visit with
  | case1 state w hend =>
      rw [visitAll_eq_match, hend]
      exact .accept
  | case2 state w error behind hfound =>
      rw [visitAll_eq_match, hfound]
      exact .reject (concerns_of_next hfound)
  | case3 state w option behind hfound state' error hfault =>
      have hnone := hvisit state option
      rw [hfault] at hnone
      cases hnone
  | case4 state w option behind hfound state' hquiet ih =>
      rw [visitAll_eq_match, hfound, ← layer_of_next hfound]
      simp only [hquiet]
      exact ih

theorem failsAs_collect (format : OptionFormat) (layer : LayerType) (data : Octets) :
    FailsAs layer (collect format layer data) :=
  (failsAs_visitAll _ (fun _ _ => rfl) [] (start format layer data)).map List.reverse

end OptionWalk

/-! ## Headers -/

theorem Ethernet.failsAs_decode (old : Ethernet) (data : Octets) :
    FailsAs .ethernet (old.decode data) := by
  unfold decode
  split
  · exact .reject rfl
  · exact .read

theorem Loopback.failsAs_decode (old : Loopback) (data : Octets) :
    FailsAs .loopback (old.decode data) := by
  unfold decode
  split
  · exact .reject rfl
  · exact .accept

theorem Ipv4.failsAs_decode (old : Ipv4) (data : Octets) : FailsAs .ipv4 (old.decode data) := by
  unfold decode
  split
  · exact .reject rfl
  · simp only
    split
    · next error herror =>
        refine .reject ?_
        rcases headerError_cases (readFixed old data) with ⟨reason, hwrong⟩ | ⟨-, hchecks⟩
        · rw [hwrong] at herror
          exact Option.some.inj herror ▸ rfl
        · rw [hchecks] at herror
          split at herror
          · exact Option.some.inj herror ▸ rfl
          · cases herror
    · exact OptionWalk.failsAs_collect .kindLength .ipv4 _

theorem Ipv6.failsAs_decode (old : Ipv6) (data : Octets) : FailsAs .ipv6 (old.decode data) := by
  unfold decode
  split
  · exact .reject rfl
  · simp only
    split
    · exact .reject rfl
    · exact .read

theorem Icmpv6.failsAs_decode (old : Icmpv6) (data : Octets) :
    FailsAs .icmpv6 (old.decode data) := by
  unfold decode
  split
  · exact .reject rfl
  · exact .accept

theorem NeighborMessage.failsAs_decode [NeighborBody B] (old : NeighborMessage B)
    (data : Octets) : FailsAs (NeighborBody.layerType B) (old.decode data) := by
  unfold decode
  simp only
  split
  · exact .reject rfl
  · exact OptionWalk.failsAs_collect .neighborDiscovery _ _

theorem Tcp.failsAs_decode (old : Tcp) (data : Octets) : FailsAs .tcp (old.decode data) := by
  unfold decode
  split
  · exact .reject rfl
  · simp only
    split
    · exact .reject rfl
    · split
      · exact .reject rfl
      · exact OptionWalk.failsAs_collect .kindLength .tcp _

theorem Udp.failsAs_decode (old : Udp) (data : Octets) : FailsAs .udp (old.decode data) := by
  unfold decode
  split
  · exact .reject rfl
  · simp only
    split
    · exact .reject rfl
    · exact .read

/-! ## Messages -/

namespace Dns

open Name (Cursor)

variable {message : Octets} {c : Cursor}

theorem readsAs_readName : ReadsAs .dns (readName message c) := by
  unfold readName
  split
  · exact .fail rfl
  · exact .ok

theorem readsAs_readEntryName : ReadsAs .dns (readEntryName message c) := by
  unfold readEntryName
  split
  · exact .fail rfl
  · exact readsAs_readName

theorem readsAs_readFixed {length : Nat} : ReadsAs .dns (readFixed message length c) := by
  unfold readFixed
  simp only
  split
  · exact .fail rfl
  · exact .ok

theorem Question.readsAs_read (message : Octets) (c : Cursor) :
    ReadsAs .dns (Question.read message c) := by
  refine readsAs_readEntryName.bind ?_
  intro named
  refine readsAs_readFixed.bind ?_
  intro fixed
  exact .ok

namespace RecordData

theorem readsAs_readStringsOnto (found : List Octets) (data : Octets) :
    ReadsAs .dns (readStringsOnto found data) := by
  induction found, data using readStringsOnto.induct with
  | case1 found =>
      rw [readStringsOnto]
      exact .ok
  | case2 found length tail string hshort =>
      rw [readStringsOnto]
      simp only [string] at hshort
      simp only [hshort, if_true]
      exact .fail rfl
  | case3 found length tail string hlong ih =>
      rw [readStringsOnto]
      simp only [string] at hlong
      simp only [hlong, if_false]
      exact ih

theorem readsAs_readStartOfAuthority : ReadsAs .dns (readStartOfAuthority message c) := by
  refine readsAs_readName.bind ?_
  intro mname
  refine readsAs_readName.bind ?_
  intro rname
  simp only
  split
  · exact .fail rfl
  · exact .ok

theorem readsAs_read (type : RecordType) (data : Octets) :
    ReadsAs .dns (read type message c data) := by
  cases type with
  | ns | cname | ptr => exact readsAs_readName.map _
  | a | aaaa =>
      simp only [read]
      split
      · exact .ok
      · exact .fail rfl
  | mx | srv =>
      simp only [read]
      split
      · exact .fail rfl
      · exact readsAs_readName.map _
  | txt => exact (readsAs_readStringsOnto [] data).map _
  | soa => exact readsAs_readStartOfAuthority.map _
  | _ => exact .ok

end RecordData

theorem ResourceRecord.readsAs_read (message : Octets) (c : Cursor) :
    ReadsAs .dns (ResourceRecord.read message c) := by
  refine readsAs_readEntryName.bind ?_
  intro named
  refine readsAs_readFixed.bind ?_
  intro fixed
  refine readsAs_readFixed.bind ?_
  intro data
  refine (RecordData.readsAs_read _ _).bind ?_
  intro content
  exact .ok

end Dns

namespace DnsMessage

open Dns
open Dns.Name (Cursor)

theorem readsAs_readEntries {read : Cursor → Except DecodeError (A × Cursor)}
    (hread : ∀ c, ReadsAs .dns (read c)) (found : List A) (n : Nat) (c : Cursor) :
    ReadsAs .dns (readEntries read found n c).outcome := by
  induction n generalizing found c with
  | zero => exact .ok
  | succ n ih =>
      rw [readEntries]
      split
      · next error herror => exact .fail (hread c error herror)
      · exact ih _ _

theorem failsAs_decode (old : DnsMessage) (data : Octets) : FailsAs .dns (old.decode data) := by
  have hquestions := readsAs_readEntries (Question.readsAs_read data)
  have hrecords := readsAs_readEntries (ResourceRecord.readsAs_read data)
  unfold decode
  split
  · exact .reject rfl
  · simp only [readSection]
    split
    · next error herror => exact .reject (hquestions _ _ _ error herror)
    · split
      · next error herror => exact .reject (hrecords _ _ _ error herror)
      · split
        · next error herror => exact .reject (hrecords _ _ _ error herror)
        · split
          · next error herror => exact .reject (hrecords _ _ _ error herror)
          · exact .accept

end DnsMessage

namespace Enip

theorem readsAs_add (scan : ItemScan) (position : Nat) (item : RawOption) :
    ReadsAs .enip (scan.add position item) := by
  unfold ItemScan.add
  simp only
  split
  · split
    · exact .fail rfl
    · exact .ok
  · exact .ok
  · exact .ok

theorem concerns_of_scanItems {n : Nat} {walk : OptionWalk} {scan : ItemScan}
    (hwalk : walk.layer = .enip) (h : (scanItems n walk scan).2 = some error) :
    error.Concerns .enip := by
  induction n generalizing walk scan with
  | zero => cases h
  | succ n ih =>
      unfold scanItems at h
      split at h
      · exact Option.some.inj h ▸ rfl
      · next hnext => exact Option.some.inj h ▸ hwalk ▸ OptionWalk.concerns_of_next hnext
      · next hnext =>
          split at h
          · next hadd => exact Option.some.inj h ▸ readsAs_add _ _ _ _ hadd
          · exact ih ((OptionWalk.layer_of_next hnext).trans hwalk) h

theorem readsAs_readItems (e : Enip) (specific : Octets) :
    ReadsAs .enip (e.readItems specific).2 := by
  unfold readItems
  split
  · exact .fail rfl
  · simp only
    split
    · next hscan => exact .fail (concerns_of_scanItems rfl hscan)
    · exact .ok

theorem failsAs_decode (old : Enip) (data : Octets) : FailsAs .enip (old.decode data) := by
  unfold decode
  split
  · exact .reject rfl
  · simp only
    split
    · exact .reject rfl
    · split
      · split
        · next scanned error hitems =>
            exact .reject (readsAs_readItems _ _ error (congrArg Prod.snd hitems))
        · exact .accept
      · exact .accept

end Enip

namespace Cip

theorem concerns_of_readPath {c : Cip} {path : Octets} (h : (c.readPath path).2 = some error) :
    error.Concerns .cip := by
  induction c, path using readPath.induct with
  | case1 c =>
      rw [readPath] at h
      cases h
  | case2 c segment tail length hshort =>
      rw [readPath] at h
      simp only [length] at hshort
      simp only [hshort, if_true] at h
      exact Option.some.inj h ▸ rfl
  | case3 c segment tail length hlong hset =>
      rw [readPath] at h
      simp only [length] at hlong
      simp only [hlong, if_false, hset] at h
      exact Option.some.inj h ▸ rfl
  | case4 c segment tail length next hlong hset ih =>
      rw [readPath] at h
      simp only [length] at hlong
      simp only [hlong, if_false, hset] at h
      exact ih h

theorem concerns_of_readResponse {c : Cip} (h : (c.readResponse data).2 = some error) :
    error.Concerns .cip := by
  unfold readResponse at h
  split at h
  · exact Option.some.inj h ▸ rfl
  · simp only at h
    split at h
    · exact Option.some.inj h ▸ rfl
    · cases h

theorem concerns_of_readRequest {c : Cip} (h : (c.readRequest data).2 = some error) :
    error.Concerns .cip := by
  unfold readRequest at h
  split at h
  · exact Option.some.inj h ▸ rfl
  · simp only at h
    split at h
    · exact Option.some.inj h ▸ rfl
    · split at h
      · next hpath => exact Option.some.inj h ▸ concerns_of_readPath (congrArg Prod.snd hpath)
      · cases h

theorem failsAs_decode (old : Cip) (data : Octets) : FailsAs .cip (old.decode data) := by
  cases data with
  | nil => exact .reject rfl
  | cons first tail =>
      unfold decode
      simp only
      split
      · next read error hread =>
          refine .reject ?_
          split at hread
          · exact concerns_of_readResponse (congrArg Prod.snd hread)
          · exact concerns_of_readRequest (congrArg Prod.snd hread)
      · exact .accept

end Cip

/-! ## Every built-in layer -/

namespace BuiltinLayer

theorem failsAs_decode (layer : BuiltinLayer) (data : Octets) :
    FailsAs layer.layerType (layer.decode data) := by
  cases layer with
  | payload l => exact .accept
  | ethernet l => exact (Ethernet.failsAs_decode l data).map ethernet
  | loopback l => exact (Loopback.failsAs_decode l data).map loopback
  | ipv4 l => exact (Ipv4.failsAs_decode l data).map ipv4
  | ipv6 l => exact (Ipv6.failsAs_decode l data).map ipv6
  | icmpv6 l => exact (Icmpv6.failsAs_decode l data).map icmpv6
  | tcp l => exact (Tcp.failsAs_decode l data).map tcp
  | udp l => exact (Udp.failsAs_decode l data).map udp
  | dns l => exact (DnsMessage.failsAs_decode l data).map dns
  | enip l => exact (Enip.failsAs_decode l data).map enip
  | cip l => exact (Cip.failsAs_decode l data).map cip
  | _ l => exact (NeighborMessage.failsAs_decode l data).map _

/-- An error of a built-in decoder names the layer type of the decoder. -/
theorem concerns_of_decode {layer : BuiltinLayer} (h : (layer.decode data).error = some error) :
    error.Concerns layer.layerType := failsAs_decode layer data error h

end BuiltinLayer
end PacketLayers
