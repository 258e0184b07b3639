import PacketLayers.Proofs.Industrial.ItemList

/-!
# The sequence count of a message

Connected data begins with a sequence count, which the layer keeps beside the type of
the last data item.  Unconnected data has none and leaves the count that was kept, so
what the layer says of the count is settled by two items of a list: the last data item
and the last item of connected data (`Enip.lastData`, `Enip.lastConnected`).  They are
the same item exactly where no unconnected data stands behind the last connected data.

The main statement is `Enip.sequenceCount_of_decode`; what unconnected data behind
connected data leaves is seen at `Enip.decode_overtakenMessage`.
-/

namespace PacketLayers.Enip

variable {old : Enip} {data : Octets} {items : List EnipItem} {last : EnipItem}

/-! ## The last data item -/

theorem isData_of_lastData (h : lastData items = some last) : last.isData = true := by
  rw [lastData, List.findRev?_eq_find?_reverse] at h
  exact List.find?_some h

theorem isSome_lastConnected :
    (lastConnected items).isSome ↔ ∃ item ∈ items, item.itemType = .connectedData := by
  simp [lastConnected, List.findRev?_eq_find?_reverse, List.find?_isSome]

/-- Connected data is data. -/
theorem lastConnected_eq_none (h : lastData items = none) : lastConnected items = none := by
  rw [lastData, List.findRev?_eq_find?_reverse, List.find?_eq_none] at h
  rw [lastConnected, List.findRev?_eq_find?_reverse, List.find?_eq_none]
  intro item hitem hconnected
  exact h item hitem (by simpa [EnipItem.isData] using Or.inl hconnected)

/-- The last data item is the last one of connected data if it is one. -/
theorem lastConnected_of_lastData (h : lastData items = some last)
    (hconnected : last.itemType = .connectedData) : lastConnected items = some last := by
  induction items with
  | nil => cases h
  | cons item items ih =>
      rw [lastData, List.findRev?] at h
      rw [lastConnected, List.findRev?]
      cases hbehind : lastData items with
      | some found =>
          rw [← lastData, hbehind] at h
          rw [← lastConnected, ih (hbehind.trans h)]
      | none =>
          rw [← lastData, hbehind] at h
          rw [← lastConnected, lastConnected_eq_none hbehind]
          simp only at h ⊢
          split at h
          · obtain rfl := Option.some.inj h
            simp [hconnected]
          · cases h

/-- A list is split at its last data item. -/
theorem exists_split_of_lastData (h : lastData items = some last) :
    ∃ front after, items = front ++ last :: after ∧ ∀ item ∈ after, item.isData = false := by
  rw [lastData, List.findRev?_eq_find?_reverse, List.find?_eq_some_iff_append] at h
  obtain ⟨-, after, front, hsplit, hafter⟩ := h
  refine ⟨front.reverse, after.reverse, ?_, ?_⟩
  · simpa using congrArg List.reverse hsplit
  · simpa using hafter

/-- Unconnected data is the last data item of a list that also has connected data. -/
def Overtaken (items : List EnipItem) : Prop :=
  (lastData items).map EnipItem.itemType = some .unconnectedData ∧
    ∃ item ∈ items, item.itemType = .connectedData

/-- A count is kept exactly for connected data, except where unconnected data has overtaken it. -/
theorem isSome_lastConnected_iff (items : List EnipItem) :
    ((lastConnected items).isSome ↔
      (lastData items).map EnipItem.itemType = some .connectedData) ↔ ¬ Overtaken items := by
  cases hlast : lastData items with
  | none => simp [Overtaken, hlast, lastConnected_eq_none hlast]
  | some last =>
      have hdata : last.itemType = .connectedData ∨ last.itemType = .unconnectedData := by
        simpa [EnipItem.isData] using isData_of_lastData hlast
      rcases hdata with hconnected | hunconnected
      · simp [Overtaken, hlast, hconnected, lastConnected_of_lastData hlast hconnected]
      · simp [Overtaken, hlast, hunconnected, isSome_lastConnected]

/-! ## Messages -/

/-- The items of an accepted message: the items that it lists if its command is explicit, and none
otherwise. -/
def Holds (data : Octets) (items : List EnipItem) : Prop :=
  if isExplicit (Header.command data) then Lists data items else items = []

/-- The sequence count of connected data stands in front of its message. -/
theorem Lists.le16At_eq {front after : List EnipItem} (h : Lists data (front ++ last :: after))
    (hconnected : last.itemType = .connectedData) :
    le16At data (headerLength + prefixLength + (itemsOctets front).length + 4) =
      le16At last.data 0 := by
  have hlast : last.Complete := h.complete last (by simp)
  have hitem := h.stands_item
  rw [EnipItem.octets, stands_append_iff] at hitem
  have hcount : Stands last.data 0 (le16 (le16At last.data 0)) :=
    stands_le16At (hlast.counted hconnected)
  exact (hitem.2.trans hcount).le16At_eq

/-- A command that is not explicit carries no items. -/
theorem decode_of_not_explicit (hplain : isExplicit (Header.command data) = false)
    (h : (old.decode data).error = none) :
    old.decode data = .accept ((readFixed old data).complete data none) := by
  have hcommand : isExplicit (readFixed old data).command = false := hplain
  unfold decode at h ⊢
  split
  · next hshort =>
      rw [if_pos hshort] at h
      cases h
  · next hfixed =>
      simp only [hfixed, if_false, hcommand, Bool.false_eq_true] at h ⊢
      split
      · next hcut =>
          rw [if_pos hcut] at h
          cases h
      · rfl

/-- What an accepted message leaves of its items. -/
theorem exists_holds_of_decode (h : (old.decode data).error = none) :
    ∃ items, Holds data items ∧
      (old.decode data).layer.dataItem = (lastData items).map EnipItem.itemType ∧
      (old.decode data).layer.sequenceCount =
        (lastConnected items).map fun item => le16At item.data 0 := by
  cases hexplicit : isExplicit (Header.command data) with
  | false =>
      refine ⟨[], ?_, ?_, ?_⟩
      · rw [Holds, if_neg (by simp [hexplicit])]
      all_goals
        rw [decode_of_not_explicit hexplicit h]
        rfl
  | true =>
      obtain ⟨items, hitems⟩ := exists_lists_of_decode hexplicit h
      refine ⟨items, ?_, ?_, ?_⟩
      · rwa [Holds, if_pos hexplicit]
      · rw [decode_of_lists hexplicit hitems]
        exact (describes_ofItems hitems).dataItem
      · rw [decode_of_lists hexplicit hitems]
        have hfound := ItemScan.sequenceCount_pushAll .start prefixLength items
        simp only [ItemScan.start, Option.or_none] at hfound
        exact hfound

/-- An accepted message whose last data item is connected data has its sequence count in front of
the message that it carries. -/
theorem sequenceCount_of_connected (h : (old.decode data).error = none)
    (hconnected : (old.decode data).layer.dataItem = some .connectedData) :
    headerLength + 2 ≤ (old.decode data).layer.extent.payload.start ∧
      (old.decode data).layer.sequenceCount =
        some (le16At data ((old.decode data).layer.extent.payload.start - 2)) := by
  obtain ⟨items, hholds, hdata, hcount⟩ := exists_holds_of_decode h
  rw [hdata, Option.map_eq_some_iff] at hconnected
  obtain ⟨last, hlast, htype⟩ := hconnected
  have hexplicit : isExplicit (Header.command data) = true := by
    by_contra hplain
    rw [Holds, if_neg hplain] at hholds
    rw [hholds] at hlast
    cases hlast
  rw [Holds, if_pos hexplicit] at hholds
  obtain ⟨front, after, rfl, hafter⟩ := exists_split_of_lastData hlast
  have hdescribed : (ofItems old data (front ++ last :: after)).Describes data _ :=
    describes_ofItems hholds
  have hcarries := hdescribed.carries front last after rfl (isData_of_lastData hlast) hafter
  rw [lastConnected_of_lastData hlast htype] at hcount
  rw [decode_of_lists hexplicit hholds] at hcount ⊢
  have hstart : (ofItems old data (front ++ last :: after)).extent.payload.start =
      headerLength + prefixLength + (itemsOctets front).length + 4 + 2 := by
    rw [hcarries.1, EnipItem.messageStart, if_pos htype]
  refine ⟨?_, ?_⟩
  · simp only [Decoding.accept, hstart]
    omega
  · rw [hcount]
    simp only [Decoding.accept, hstart, Nat.add_sub_cancel, Option.map_some,
      hholds.le16At_eq htype]

/-- The items of an accepted message say what its layer tells of a sequence count: the one of the
last connected data.  A count is told exactly with connected data, except where unconnected data
has overtaken it; then the count is told beside unconnected data.  With connected data it is the
word in front of the message that is carried. -/
theorem sequenceCount_of_decode (old : Enip) (data : Octets)
    (h : (old.decode data).error = none) :
    ∃ items, Holds data items ∧
      (old.decode data).layer.dataItem = (lastData items).map EnipItem.itemType ∧
      (old.decode data).layer.sequenceCount =
        ((lastConnected items).map fun item => le16At item.data 0) ∧
      (((old.decode data).layer.sequenceCount.isSome ↔
        (old.decode data).layer.dataItem = some .connectedData) ↔ ¬ Overtaken items) ∧
      ((old.decode data).layer.dataItem = some .connectedData →
        headerLength + 2 ≤ (old.decode data).layer.extent.payload.start ∧
        (old.decode data).layer.sequenceCount =
          some (le16At data ((old.decode data).layer.extent.payload.start - 2))) := by
  obtain ⟨items, hholds, hdata, hcount⟩ := exists_holds_of_decode h
  refine ⟨items, hholds, hdata, hcount, ?_, sequenceCount_of_connected h⟩
  rw [hdata, hcount, Option.isSome_map]
  exact isSome_lastConnected_iff items

/-- A message with unconnected data in front of connected data. -/
def countedLastMessage : Octets :=
  [0x70, 0x00, 0x14, 0x00, 0, 0, 0, 0, 0, 0, 0, 0, 0, 0, 0, 0, 0, 0, 0, 0, 0, 0, 0, 0,
    0, 0, 0, 0, 0, 0, 0x02, 0x00, 0xb2, 0x00, 0x01, 0x00, 0xaa,
    0xb1, 0x00, 0x03, 0x00, 0x05, 0x00, 0xcc]

/-- The count is told where no unconnected data has overtaken it. -/
theorem sequenceCount_of_decode_countedLast :
    let found := Enip.fresh.decode countedLastMessage
    found.error = none ∧ found.layer.dataItem = some .connectedData ∧
      found.layer.sequenceCount = some 5 ∧
      found.layer.sequenceCount =
        some (le16At countedLastMessage (found.layer.extent.payload.start - 2)) ∧
      ∃ items, Holds countedLastMessage items ∧ ¬ Overtaken items := by
  intro found
  have haccepted : found.error = none := by decide
  have hconnected : found.layer.dataItem = some .connectedData := by decide
  obtain ⟨items, hholds, -, -, hlaw, hcount⟩ :=
    sequenceCount_of_decode .fresh countedLastMessage haccepted
  have hcounted : found.layer.sequenceCount.isSome := by
    rw [(hcount hconnected).2]
    rfl
  refine ⟨haccepted, hconnected, by decide, (hcount hconnected).2, items, hholds, hlaw.mp ?_⟩
  exact ⟨fun _ => hconnected, fun _ => hcounted⟩

/-- A message with unconnected data behind connected data. -/
def overtakenMessage : Octets :=
  [0x70, 0x00, 0x14, 0x00, 0, 0, 0, 0, 0, 0, 0, 0, 0, 0, 0, 0, 0, 0, 0, 0, 0, 0, 0, 0,
    0, 0, 0, 0, 0, 0, 0x02, 0x00, 0xb1, 0x00, 0x03, 0x00, 0x05, 0x00, 0xcc,
    0xb2, 0x00, 0x01, 0x00, 0xaa]

/-- The message that is carried is unconnected data, and a sequence count is told beside it. -/
theorem decode_overtakenMessage :
    (Enip.fresh.decode overtakenMessage).error = none ∧
      (Enip.fresh.decode overtakenMessage).layer.dataItem = some .unconnectedData ∧
      (Enip.fresh.decode overtakenMessage).layer.sequenceCount = some 5 ∧
      slice overtakenMessage
        (Enip.fresh.decode overtakenMessage).layer.extent.payload.start
        (Enip.fresh.decode overtakenMessage).layer.extent.payload.stop = [0xaa] := by
  decide

end PacketLayers.Enip
