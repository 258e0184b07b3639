import PacketLayers.Proofs.Bounds.Industrial
import PacketLayers.Proofs.Decoding.ShortCapture
import PacketLayers.Proofs.Options.Layout

/-!
# The item list of an explicit message

The data of an explicit EtherNet/IP command counts its items, which stand behind a
short prefix one behind the other, each as its type, the length of its data and the
data.  An item list is stated here by what is written (`Enip.Lists`), and the decoder is
shown to accept exactly the messages that carry one.

One call of the walk takes one item (`next_of_item`, `exists_item_of_next`), and a scan
pushes item by item onto what it found (`scanItems_of_items`, `exists_items_of_scan`).
What a whole list leaves is settled on the list alone (`ItemScan.pushAll`).  The main
statement is `Enip.decode_iff_items`.
-/

namespace PacketLayers

/-! ## Items as they are written -/

namespace EnipItem

/-- The octets of an item in front of its data. -/
def header (item : EnipItem) : Octets :=
  le16 item.itemType.number ++ le16 (UInt16.ofNat item.data.length)

def octets (item : EnipItem) : Octets := item.header ++ item.data

/-- An item that stands complete in a list: its type is read from a number, its length fits its
field, and connected data has a sequence count. -/
structure Complete (item : EnipItem) : Prop where
  itemType : IsCanonical EnipItemType.ofNumber item.itemType
  length : item.data.length < 65536
  counted : item.itemType = .connectedData → 2 ≤ item.data.length

/-- Whether an item holds an encapsulated message. -/
def isData (item : EnipItem) : Bool :=
  item.itemType = .connectedData ∨ item.itemType = .unconnectedData

/-- The octets of a data item in front of the encapsulated message. -/
def messageStart (item : EnipItem) : Nat := if item.itemType = .connectedData then 6 else 4

/-- The encapsulated message of a data item. -/
def message (item : EnipItem) : Octets :=
  if item.itemType = .connectedData then item.data.drop 2 else item.data

/-- The item as the walk hands it out. -/
def toRaw (item : EnipItem) : RawOption :=
  ⟨item.itemType.number, 4 + item.data.length, item.data⟩

variable {item : EnipItem}

@[simp] theorem length_header (item : EnipItem) : item.header.length = 4 := rfl

@[simp] theorem length_octets (item : EnipItem) : item.octets.length = 4 + item.data.length := by
  rw [octets, List.length_append, length_header]

theorem encode_toRaw (item : EnipItem) :
    OptionFormat.commonPacketFormat.encode item.toRaw = item.octets := by
  have hsize : 4 + item.data.length - 4 = item.data.length := Nat.add_sub_cancel_left _ _
  simp only [OptionFormat.encode, OptionFormat.isSingle, Bool.false_eq_true, if_false, toRaw,
    OptionFormat.headerOctets, OptionFormat.headerLength, hsize, octets, header]

theorem Complete.ofNumber_number (h : item.Complete) :
    EnipItemType.ofNumber item.itemType.number = item.itemType :=
  h.itemType.ofNumber_number EnipItemType.number_ofNumber

theorem Complete.toNat_length (h : item.Complete) :
    (UInt16.ofNat item.data.length).toNat = item.data.length := by
  rw [UInt16.toNat_ofNat', Nat.mod_eq_of_lt h.length]

/-- An item is what a walk hands out. -/
theorem Complete.eq_of_toRaw {other : EnipItem} (h : item.Complete) (hother : other.Complete)
    (hraw : item.toRaw = other.toRaw) : item = other := by
  have hnumber : item.itemType.number = other.itemType.number := congrArg RawOption.tag hraw
  have htype : item.itemType = other.itemType := by
    rw [← h.ofNumber_number, hnumber, hother.ofNumber_number]
  have hdata : item.data = other.data := congrArg RawOption.data hraw
  cases item
  cases other
  exact congrArg₂ EnipItem.mk htype hdata

/-- The message of a complete item ends it. -/
theorem Complete.exists_octets (h : item.Complete) :
    ∃ head : Octets, head.length = item.messageStart ∧ item.octets = head ++ item.message := by
  by_cases hconnected : item.itemType = .connectedData
  · have hcount : (item.data.take 2).length = 2 :=
      List.length_take_of_le (h.counted hconnected)
    refine ⟨item.header ++ item.data.take 2, ?_, ?_⟩
    · rw [messageStart, if_pos hconnected, List.length_append, length_header, hcount]
    · rw [message, if_pos hconnected, List.append_assoc, List.take_append_drop, octets]
  · refine ⟨item.header, ?_, ?_⟩
    · rw [messageStart, if_neg hconnected, length_header]
    · rw [message, if_neg hconnected, octets]

end EnipItem

namespace Enip

/-- Items one behind the other. -/
def itemsOctets (items : List EnipItem) : Octets := items.flatMap EnipItem.octets

theorem itemsOctets_cons (item : EnipItem) (items : List EnipItem) :
    itemsOctets (item :: items) = item.octets ++ itemsOctets items := List.flatMap_cons

theorem itemsOctets_append (front after : List EnipItem) :
    itemsOctets (front ++ after) = itemsOctets front ++ itemsOctets after :=
  List.flatMap_append

/-- The last item of a list that holds an encapsulated message. -/
def lastData (items : List EnipItem) : Option EnipItem := items.findRev? EnipItem.isData

/-- The last item of a list that holds connected data. -/
def lastConnected (items : List EnipItem) : Option EnipItem :=
  items.findRev? fun item => item.itemType = .connectedData

variable {walk behind : OptionWalk} {item : EnipItem} {items : List EnipItem} {rest : Octets}

/-! ## One item -/

/-- A walk takes the item that stands at its place. -/
theorem next_of_item (hitem : item.Complete) (hformat : walk.format = .commonPacketFormat)
    (hopen : walk.done = false) (hrest : walk.rest = item.octets ++ rest) :
    walk.next = some (.ok item.toRaw, walk.advance item.toRaw.length) := by
  have hparts : walk.rest = item.header ++ (item.data ++ rest) := by
    rw [hrest, EnipItem.octets, List.append_assoc]
  have hheader : walk.rest.take 4 = item.header := by
    rw [hparts]
    exact List.take_left' rfl
  have htype : le16At item.header 0 = item.itemType.number := le16At_le16 _ _
  have hcount : (le16At item.header 2).toNat + 4 = item.toRaw.length := by
    have hstands : Stands item.header 2 (le16 (UInt16.ofNat item.data.length)) :=
      List.prefix_rfl
    rw [hstands.le16At_eq, hitem.toNat_length]
    exact Nat.add_comm _ _
  have hdata : slice walk.rest 4 item.toRaw.length = item.data := by
    have hbehind : walk.rest.drop 4 = item.data ++ rest := by
      rw [hparts]
      exact List.drop_left' rfl
    have hsize : item.toRaw.length - 4 = item.data.length := Nat.add_sub_cancel_left _ _
    rw [slice, hbehind, hsize, List.take_left]
  have hinside : item.toRaw.length ≤ walk.rest.length := by
    rw [hrest, List.length_append, EnipItem.length_octets]
    exact Nat.le_add_right _ _
  have hread : walk.readOption = .ok item.toRaw := by
    rw [OptionWalk.readOption_eq_ok_iff]
    simp only [hformat, OptionFormat.headerLength, OptionFormat.totalLength, OptionFormat.tag,
      hheader, htype, hcount, hdata]
    exact ⟨Nat.le_add_right _ _, hinside, rfl⟩
  have hsingle (first : UInt8) : walk.format.isSingle first = false := by
    rw [hformat]
    rfl
  exact OptionWalk.next_eq_some_iff.mpr ⟨hopen, .read hparts (hsingle _) hread⟩

/-- What a walk takes is an item that stands at its place. -/
theorem exists_item_of_next {raw : RawOption} (hformat : walk.format = .commonPacketFormat)
    (h : walk.next = some (.ok raw, behind)) :
    ∃ item : EnipItem, IsCanonical EnipItemType.ofNumber item.itemType ∧
      item.data.length < 65536 ∧ raw = item.toRaw ∧ walk.rest = item.octets ++ behind.rest := by
  have hoctets := (OptionWalk.takes_of_next h).octets
  obtain ⟨hread, -⟩ := next_item hformat h
  obtain ⟨hheader, hinside, hraw⟩ := OptionWalk.readOption_eq_ok_iff.mp hread
  simp only [hformat, OptionFormat.headerLength, OptionFormat.totalLength, OptionFormat.tag]
    at hheader hinside hraw
  have hsize : (slice walk.rest 4 _).length = _ - 4 := length_slice hinside
  let item : EnipItem := ⟨EnipItemType.ofNumber raw.tag, raw.data⟩
  have hitem : raw = item.toRaw := by
    simp only [item, EnipItem.toRaw, EnipItemType.number_ofNumber, hraw, hsize,
      Nat.add_sub_cancel, Nat.add_comm 4]
  refine ⟨item, ⟨raw.tag, rfl⟩, ?_, hitem, ?_⟩
  · have hword := (le16At (walk.rest.take 4) 2).toNat_lt
    simp only [item, hraw, hsize]
    omega
  · rw [hoctets, hformat, hitem, EnipItem.encode_toRaw]

/-! ## What items leave in a scan -/

namespace ItemScan

/-- The scan that has found an item at a position of the data of the command. -/
def push (scan : ItemScan) (position : Nat) (item : EnipItem) : ItemScan :=
  { reversedItems := if item.isData then scan.reversedItems else item :: scan.reversedItems
    dataItem := if item.isData then some item.itemType else scan.dataItem
    sequenceCount := if item.itemType = .connectedData then some (le16At item.data 0)
      else scan.sequenceCount
    payload := if item.isData then
        some ⟨position + item.messageStart, position + item.octets.length⟩
      else scan.payload }

/-- The scan that has found items from a position on. -/
def pushAll (scan : ItemScan) (position : Nat) : List EnipItem → ItemScan
  | [] => scan
  | item :: items => (scan.push position item).pushAll (position + item.octets.length) items

/-- Only connected data without a sequence count is refused. -/
theorem add_toRaw (scan : ItemScan) (position : Nat)
    (htype : IsCanonical EnipItemType.ofNumber item.itemType) :
    scan.add position item.toRaw =
      if item.itemType = .connectedData ∧ item.data.length < 2 then
        .error (.malformed .enip "connected data without sequence count")
      else
        .ok (scan.push position item) := by
  have hnumber : EnipItemType.ofNumber item.toRaw.tag = item.itemType :=
    htype.ofNumber_number EnipItemType.number_ofNumber
  have hlength : item.toRaw.length = item.octets.length := (EnipItem.length_octets item).symm
  unfold add
  rw [hnumber, hlength]
  cases hitem : item.itemType with
  | connectedData => simp [push, EnipItem.isData, EnipItem.messageStart, EnipItem.toRaw, hitem,
      OptionFormat.headerLength, Nat.add_assoc]
  | unconnectedData => simp [push, EnipItem.isData, EnipItem.messageStart, hitem,
      OptionFormat.headerLength]
  | _ =>
      obtain ⟨itemType, data⟩ := item
      obtain rfl := hitem
      rfl

theorem pushAll_append (scan : ItemScan) (position : Nat) (front items : List EnipItem) :
    scan.pushAll position (front ++ items) =
      (scan.pushAll position front).pushAll (position + (itemsOctets front).length) items := by
  induction front generalizing scan position with
  | nil => rfl
  | cons item front ih =>
      rw [List.cons_append, pushAll, pushAll, ih, itemsOctets_cons, List.length_append,
        Nat.add_assoc]

theorem reversedItems_pushAll (scan : ItemScan) (position : Nat) (items : List EnipItem) :
    (scan.pushAll position items).reversedItems =
      (items.filter fun item => !item.isData).reverse ++ scan.reversedItems := by
  induction items generalizing scan position with
  | nil => rfl
  | cons item items ih =>
      rw [pushAll, ih]
      cases hdata : item.isData <;> simp [push, hdata]

/-- A part of a scan that the items of one kind replace is what the last of them leaves. -/
theorem field_pushAll {α : Type} {field : ItemScan → Option α} {p : EnipItem → Bool}
    {f : EnipItem → α}
    (hpush : ∀ scan position item,
      field (push scan position item) = if p item then some (f item) else field scan)
    (scan : ItemScan) (position : Nat) (items : List EnipItem) :
    field (scan.pushAll position items) = ((items.findRev? p).map f).or (field scan) := by
  induction items generalizing scan position with
  | nil => rfl
  | cons item items ih =>
      -- An item further on that is of the kind wins over this one, and this one over the scan.
      rw [pushAll, ih, hpush, List.findRev?]
      cases items.findRev? p with
      | some last => rfl
      | none => cases hitem : p item <;> simp

theorem dataItem_pushAll (scan : ItemScan) (position : Nat) (items : List EnipItem) :
    (scan.pushAll position items).dataItem =
      ((lastData items).map EnipItem.itemType).or scan.dataItem :=
  field_pushAll (fun _ _ _ => rfl) scan position items

theorem sequenceCount_pushAll (scan : ItemScan) (position : Nat) (items : List EnipItem) :
    (scan.pushAll position items).sequenceCount =
      ((lastConnected items).map fun item => le16At item.data 0).or scan.sequenceCount := by
  refine field_pushAll ?_ scan position items
  intro scan position item
  simp only [push, decide_eq_true_eq]

/-- Items without an encapsulated message leave the one found before. -/
theorem payload_pushAll_of_forall (scan : ItemScan) (position : Nat) {items : List EnipItem}
    (h : ∀ item ∈ items, item.isData = false) :
    (scan.pushAll position items).payload = scan.payload := by
  induction items generalizing scan position with
  | nil => rfl
  | cons item items ih =>
      rw [List.forall_mem_cons] at h
      rw [pushAll, ih _ _ h.2]
      simp only [push, h.1, Bool.false_eq_true, if_false]

/-- The message of the last data item is kept. -/
theorem payload_pushAll_of_last (scan : ItemScan) (position : Nat) {front after : List EnipItem}
    {last : EnipItem} (hlast : last.isData = true)
    (hafter : ∀ item ∈ after, item.isData = false) :
    (scan.pushAll position (front ++ last :: after)).payload =
      some ⟨position + (itemsOctets front).length + last.messageStart,
        position + (itemsOctets front).length + last.octets.length⟩ := by
  rw [pushAll_append, pushAll, payload_pushAll_of_forall _ _ hafter]
  simp only [push, hlast, if_true]

end ItemScan

/-! ## Whole lists -/

/-- Items that stand at a walk's place are scanned. -/
theorem scanItems_of_items (hitems : ∀ item ∈ items, item.Complete)
    (hformat : walk.format = .commonPacketFormat) (hopen : walk.done = false)
    (hrest : walk.rest = itemsOctets items ++ rest) (scan : ItemScan) :
    scanItems items.length walk scan =
      (scan.pushAll (prefixLength + walk.offset) items, none) := by
  induction items generalizing walk scan with
  | nil => rfl
  | cons item items ih =>
      rw [List.forall_mem_cons] at hitems
      obtain ⟨hitem, hitems⟩ := hitems
      rw [itemsOctets_cons, List.append_assoc] at hrest
      have hnext := next_of_item hitem hformat hopen hrest
      have hcounted : ¬ (item.itemType = .connectedData ∧ item.data.length < 2) :=
        fun h => Nat.not_lt.mpr (hitem.counted h.1) h.2
      have hbehind : (walk.advance item.toRaw.length).rest = itemsOctets items ++ rest := by
        rw [OptionWalk.advance, hrest]
        exact List.drop_left' (EnipItem.length_octets item)
      have hscan := ih hitems (show (walk.advance _).format = _ from hformat) hopen hbehind
      rw [List.length_cons, scanItems, hnext]
      simp only [ItemScan.add_toRaw _ _ hitem.itemType, hcounted, if_false]
      rw [hscan, ItemScan.pushAll, EnipItem.length_octets, Nat.add_assoc]
      rfl

/-- A scan that found as many items as it looked for walked over them. -/
theorem exists_items_of_scan {n : Nat} {scan : ItemScan}
    (hformat : walk.format = .commonPacketFormat)
    (h : (scanItems n walk scan).2 = none) :
    ∃ items rest, items.length = n ∧ (∀ item ∈ items, item.Complete) ∧
      walk.rest = itemsOctets items ++ rest := by
  induction n generalizing walk scan with
  | zero => exact ⟨[], walk.rest, rfl, by simp, rfl⟩
  | succ n ih =>
      unfold scanItems at h
      split at h
      · cases h
      · cases h
      · next raw behind hnext =>
          obtain ⟨item, htype, hlength, rfl, hrest⟩ := exists_item_of_next hformat hnext
          rw [ItemScan.add_toRaw _ _ htype] at h
          by_cases hcounted : item.itemType = .connectedData ∧ item.data.length < 2
          · rw [if_pos hcounted] at h
            cases h
          · rw [if_neg hcounted] at h
            have hbehind : behind.format = .commonPacketFormat :=
              (OptionWalk.takes_of_next hnext).format.trans hformat
            obtain ⟨items, rest, hcount, hitems, hlist⟩ := ih hbehind h
            refine ⟨item :: items, rest, ?_, ?_, ?_⟩
            · rw [List.length_cons, hcount]
            · rw [List.forall_mem_cons]
              refine ⟨⟨htype, hlength, ?_⟩, hitems⟩
              exact fun hconnected => Nat.le_of_not_lt fun hshort => hcounted ⟨hconnected, hshort⟩
            · rw [hrest, hlist, itemsOctets_cons, List.append_assoc]

/-- Octets begin with one list of so many items at most. -/
theorem eq_of_itemsOctets {others : List EnipItem} {front behind : Octets}
    (hitems : ∀ item ∈ items, item.Complete) (hothers : ∀ item ∈ others, item.Complete)
    (hcount : items.length = others.length)
    (hoctets : itemsOctets items ++ front = itemsOctets others ++ behind) : items = others := by
  induction items generalizing others with
  | nil => exact (List.length_eq_zero_iff.mp hcount.symm).symm
  | cons item items ih =>
      cases others with
      | nil => cases hcount
      | cons other others =>
          rw [List.forall_mem_cons] at hitems hothers
          rw [itemsOctets_cons, itemsOctets_cons, List.append_assoc, List.append_assoc] at hoctets
          -- Both first items are what one walk takes, and its call has one outcome.
          let walk : OptionWalk :=
            .start .commonPacketFormat .enip (item.octets ++ (itemsOctets items ++ front))
          have hitem : walk.next = some (.ok item.toRaw, _) := next_of_item hitems.1 rfl rfl rfl
          have hother : walk.next = some (.ok other.toRaw, _) :=
            next_of_item hothers.1 rfl rfl hoctets
          have hraw := (Prod.mk.inj (Option.some.inj (hitem.symm.trans hother))).1
          obtain rfl := hitems.1.eq_of_toRaw hothers.1 (Except.ok.inj hraw)
          rw [ih hitems.2 hothers.2 (Nat.succ.inj hcount) (List.append_cancel_left hoctets)]

/-! ## Messages -/

variable {old : Enip} {data : Octets}

/-- The position behind the data of the command. -/
def commandEnd (data : Octets) : Nat := headerLength + (Header.length data).toNat

/-- The data of the command. -/
def commandData (data : Octets) : Octets := slice data headerLength (commandEnd data)

/-- A message lists items if it has the data that its header announces, and as many complete items
as these data announce stand in them behind the prefix. -/
structure Lists (data : Octets) (items : List EnipItem) : Prop where
  inside : commandEnd data ≤ data.length
  counted : prefixLength ≤ (commandData data).length
  count : items.length = (le16At (commandData data) 6).toNat
  complete : ∀ item ∈ items, item.Complete
  stands : Stands (commandData data) prefixLength (itemsOctets items)

theorem Lists.unique {others : List EnipItem} (h : Lists data items) (hothers : Lists data others) :
    items = others := by
  obtain ⟨front, hfront⟩ := h.stands
  obtain ⟨behind, hbehind⟩ := hothers.stands
  have hcount : items.length = others.length := h.count.trans hothers.count.symm
  exact eq_of_itemsOctets h.complete hothers.complete hcount (hfront.trans hbehind.symm)

/-- What a layer says of a message that lists items. -/
structure Describes (e : Enip) (data : Octets) (items : List EnipItem) : Prop where
  others : e.items = items.filter fun item => !item.isData
  dataItem : e.dataItem = (lastData items).map EnipItem.itemType
  specificData : e.specificData = slice data headerLength e.extent.payload.start
  contents : e.extent.contents = ⟨0, e.extent.payload.start⟩
  /-- Without a data item nothing is encapsulated. -/
  quiet : (∀ item ∈ items, item.isData = false) →
    e.extent.payload = ⟨commandEnd data, commandEnd data⟩
  /-- The encapsulated message is that of the last data item. -/
  carries : ∀ front last after, items = front ++ last :: after → last.isData = true →
    (∀ item ∈ after, item.isData = false) →
    e.extent.payload.start =
        headerLength + prefixLength + (itemsOctets front).length + last.messageStart ∧
      e.extent.payload.stop = e.extent.payload.start + last.message.length ∧
      slice data e.extent.payload.start e.extent.payload.stop = last.message

/-- A layer with what was found in the data of its command. -/
def withItems (e : Enip) (specific : Octets) (found : ItemScan) : Enip :=
  { e with
    interfaceHandle := le32At specific 0
    timeout := le16At specific 4
    items := found.reversedItems.reverse
    dataItem := found.dataItem
    sequenceCount := found.sequenceCount }

/-- The layer of a message that lists items. -/
def ofItems (old : Enip) (data : Octets) (items : List EnipItem) : Enip :=
  let found := ItemScan.start.pushAll prefixLength items
  ((readFixed old data).withItems (commandData data) found).complete data found.payload

theorem readItems_of_lists (e : Enip) (h : Lists data items) :
    e.readItems (commandData data) =
      (e.withItems (commandData data) (ItemScan.start.pushAll prefixLength items),
        .ok (ItemScan.start.pushAll prefixLength items).payload) := by
  let list := OptionWalk.start .commonPacketFormat .enip ((commandData data).drop prefixLength)
  obtain ⟨rest, hrest⟩ := h.stands
  have hscan := scanItems_of_items h.complete (show list.format = _ from rfl) rfl hrest.symm .start
  rw [h.count] at hscan
  simp only [list] at hscan
  unfold readItems
  rw [if_neg (Nat.not_lt.mpr h.counted)]
  simp only [hscan]
  rfl

/-- A message that lists items is accepted with what they leave in a scan. -/
theorem decode_of_lists (hexplicit : isExplicit (Header.command data) = true)
    (h : Lists data items) : old.decode data = .accept (ofItems old data items) := by
  have hinside : ¬ data.length < headerLength + (readFixed old data).length.toNat :=
    Nat.not_lt.mpr h.inside
  have hhead : ¬ data.length < headerLength :=
    Nat.not_lt.mpr (Nat.le_of_add_right_le (Nat.le_of_not_lt hinside))
  have hcommand : isExplicit (readFixed old data).command = true := hexplicit
  have hspecific : slice data headerLength (headerLength + (readFixed old data).length.toNat) =
      commandData data := rfl
  simp only [decode, hhead, if_false, hinside, hcommand, if_true, hspecific,
    readItems_of_lists _ h]
  rfl

/-- Data from which an item list was read lists items. -/
theorem exists_lists_of_readItems {e : Enip} {payload : Option Span}
    (hinside : commandEnd data ≤ data.length)
    (h : (e.readItems (commandData data)).2 = .ok payload) : ∃ items, Lists data items := by
  unfold readItems at h
  split at h
  · cases h
  · next hcounted =>
      simp only at h
      split at h
      · cases h
      · next hfine =>
          obtain ⟨items, rest, hcount, hcomplete, hrest⟩ := exists_items_of_scan rfl hfine
          refine ⟨items, hinside, Nat.le_of_not_lt hcounted, hcount, hcomplete, ?_⟩
          exact ⟨rest, hrest.symm⟩

/-- An explicit message that is accepted lists items. -/
theorem exists_lists_of_decode (hexplicit : isExplicit (Header.command data) = true)
    (h : (old.decode data).error = none) : ∃ items, Lists data items := by
  have hcommand : isExplicit (readFixed old data).command = true := hexplicit
  unfold decode at h
  split at h
  · cases h
  · simp only [hcommand, if_true] at h
    split at h
    · cases h
    · next hinside =>
        split at h
        · cases h
        · next scanned payload hread =>
            exact exists_lists_of_readItems (Nat.le_of_not_lt hinside) (congrArg Prod.snd hread)

/-! ### What is said of a message -/

/-- An item stands in the message behind the octets of the items in front of it. -/
theorem Lists.stands_item {front after : List EnipItem} {item : EnipItem}
    (h : Lists data (front ++ item :: after)) :
    Stands data (headerLength + prefixLength + (itemsOctets front).length) item.octets := by
  have hstands := h.stands
  rw [itemsOctets_append, itemsOctets_cons, stands_append_iff, stands_append_iff] at hstands
  have hitem := stands_slice.trans hstands.2.1
  rwa [← Nat.add_assoc] at hitem

/-- What a scan left of a message's items describes them. -/
theorem describes_ofItems (h : Lists data items) :
    (ofItems old data items).Describes data items := by
  constructor
  case others =>
    have hfound := ItemScan.reversedItems_pushAll .start prefixLength items
    simp only [ItemScan.start, List.append_nil] at hfound
    simp only [ofItems, complete, withItems, ItemScan.start, hfound, List.reverse_reverse]
  case dataItem =>
    have hfound := ItemScan.dataItem_pushAll .start prefixLength items
    simp only [ItemScan.start, Option.or_none] at hfound
    exact hfound
  case specificData => rfl
  case contents => rfl
  case quiet =>
    intro hquiet
    have hfound := ItemScan.payload_pushAll_of_forall .start prefixLength hquiet
    simp only [ofItems, hfound]
    rfl
  case carries =>
    rintro front last after rfl hlast hafter
    have hcomplete : last.Complete := h.complete last (by simp)
    have hfound : (ItemScan.start.pushAll prefixLength (front ++ last :: after)).payload = _ :=
      ItemScan.payload_pushAll_of_last _ _ hlast hafter
    have hstart : (ofItems old data (front ++ last :: after)).extent.payload.start =
        headerLength + prefixLength + (itemsOctets front).length + last.messageStart := by
      simp only [ofItems, complete, hfound]
      omega
    have hstop : (ofItems old data (front ++ last :: after)).extent.payload.stop =
        (ofItems old data (front ++ last :: after)).extent.payload.start +
          last.message.length := by
      obtain ⟨head, hhead, hoctets⟩ := hcomplete.exists_octets
      simp only [ofItems, complete, hfound, hoctets, List.length_append, hhead]
      omega
    have hmessage : Stands data
        (headerLength + prefixLength + (itemsOctets front).length + last.messageStart)
        last.message := by
      obtain ⟨head, hhead, hoctets⟩ := hcomplete.exists_octets
      have hitem := h.stands_item
      rw [hoctets, stands_append_iff, hhead] at hitem
      exact hitem.2
    refine ⟨hstart, hstop, ?_⟩
    rw [hstop, hstart]
    exact hmessage.eq_slice.symm

/-! ## Octets behind the data of the command -/

variable {p d : Octets}

theorem complete_of_isPrefix {e : Enip} {payload : Option Span} (hpre : p <+: d)
    (hinside : headerLength + e.length.toNat ≤ p.length) (hpayload : e.Announces payload) :
    e.complete p payload = e.complete d payload := by
  obtain ⟨-, horder, hstop⟩ := bounds_of_carried hinside hpayload
  have hspecific : slice p headerLength (e.carried payload).start =
      slice d headerLength (e.carried payload).start :=
    slice_of_isPrefix hpre (Nat.le_trans horder hstop)
  exact congrArg (fun specific =>
    { e with
      specificCommand := e.command
      specificData := specific
      extent := ⟨⟨0, (e.carried payload).start⟩, e.carried payload⟩ }) hspecific

/-- Octets are read in the header and the data of the command only. -/
theorem decode_of_isPrefix (old : Enip) (hpre : p <+: d) (hinside : commandEnd p ≤ p.length) :
    old.decode p = old.decode d := by
  have hfixed : ¬ p.length < headerLength :=
    Nat.not_lt.mpr (Nat.le_of_add_right_le hinside)
  have hread := readFixed_of_isPrefix old hpre (Nat.le_of_not_lt hfixed)
  have hcommand : ¬ p.length < headerLength + (readFixed old d).length.toNat := by
    rw [← hread]
    exact Nat.not_lt.mpr hinside
  have hstop := Nat.le_of_not_lt hcommand
  have hspecific : slice p headerLength _ = slice d headerLength _ := slice_of_isPrefix hpre hstop
  simp only [decode, hfixed, not_lt_of_isPrefix hpre hfixed, if_false, hread, hcommand,
    not_lt_of_isPrefix hpre hcommand, ← hspecific]
  -- The one slice whose end was read from the items ends inside the command all the same.
  split
  · split
    · rfl
    · next scanned payload hitems =>
        have hlength : scanned.length = (readFixed old d).length := length_of_readItems hitems
        rw [complete_of_isPrefix hpre (hlength ▸ hstop) (announces_of_readItems hstop rfl hitems)]
  · rw [complete_of_isPrefix hpre hstop (announces_none _)]

/-- The data of the command stand in the octets of the header and the command. -/
theorem decode_take_append (old : Enip) (hinside : commandEnd data ≤ data.length) (rest : Octets) :
    old.decode (data.take (commandEnd data) ++ rest) = old.decode data := by
  have hlength : (data.take (commandEnd data)).length = commandEnd data :=
    List.length_take_of_le hinside
  have hpre : data.take (commandEnd data) <+: data := List.take_prefix _ _
  have hheader : headerLength ≤ (data.take (commandEnd data)).length := by
    rw [hlength]
    exact Nat.le_add_right _ _
  have hend : commandEnd (data.take (commandEnd data)) = commandEnd data := by
    rw [commandEnd, Header.length, le16At_of_isPrefix hpre (Nat.le_trans (by decide) hheader)]
    rfl
  have htaken : commandEnd (data.take (commandEnd data)) ≤
      (data.take (commandEnd data)).length := by
    rw [hend, hlength]
  rw [← decode_of_isPrefix old (List.prefix_append _ rest) htaken,
    decode_of_isPrefix old hpre htaken]

/-- An explicit message is accepted exactly if it lists items, and then it lists only these.  The
layer holds the items that are not data, in their order, and carries the message of the last data
item; octets behind the data of the command have no effect. -/
theorem decode_iff_items (old : Enip) (data : Octets)
    (hexplicit : isExplicit (Header.command data) = true) :
    ((old.decode data).error = none ↔ ∃! items, Lists data items) ∧
    (∀ items, Lists data items → (old.decode data).layer.Describes data items) ∧
    (commandEnd data ≤ data.length → ∀ rest,
      old.decode (data.take (commandEnd data) ++ rest) = old.decode data) := by
  refine ⟨⟨?_, ?_⟩, ?_, decode_take_append old⟩
  · intro haccepted
    obtain ⟨items, hitems⟩ := exists_lists_of_decode hexplicit haccepted
    exact ⟨items, hitems, fun others hothers => hothers.unique hitems⟩
  · rintro ⟨items, hitems, -⟩
    rw [decode_of_lists hexplicit hitems]
    rfl
  · intro items hitems
    rw [decode_of_lists hexplicit hitems]
    exact describes_ofItems hitems

/-- A message with an address item and a connected data item, and one octet behind the data of its
command. -/
def connectedMessage : Octets :=
  [0x70, 0x00, 0x17, 0x00, 0, 0, 0, 0, 0, 0, 0, 0, 0, 0, 0, 0, 0, 0, 0, 0, 0, 0, 0, 0,
    0, 0, 0, 0, 0, 0, 0x02, 0x00, 0xa1, 0x00, 0x04, 0x00, 0x01, 0x02, 0x03, 0x04,
    0xb1, 0x00, 0x03, 0x00, 0x05, 0x00, 0xcc, 0xff]

/-- The message is the octet behind the sequence count. -/
theorem decode_iff_items_connected :
    let address : EnipItem := ⟨.connectedAddress, [0x01, 0x02, 0x03, 0x04]⟩
    let connected : EnipItem := ⟨.connectedData, [0x05, 0x00, 0xcc]⟩
    let found := Enip.fresh.decode connectedMessage
    Lists connectedMessage [address, connected] ∧ found.error = none ∧
      found.layer.items = [address] ∧ found.layer.dataItem = some .connectedData ∧
      found.layer.extent.payload = ⟨46, 47⟩ ∧
      Enip.fresh.decode (connectedMessage.take 47) = found := by
  intro address connected found
  have hlists : Lists connectedMessage [address, connected] := by
    refine ⟨by decide, by decide, by decide, ?_, ⟨[], by decide⟩⟩
    rw [List.forall_mem_cons, List.forall_mem_singleton]
    exact ⟨⟨⟨0xa1, rfl⟩, by decide, by decide⟩, ⟨⟨0xb1, rfl⟩, by decide, by decide⟩⟩
  obtain ⟨haccepted, hdescribed, hbehind⟩ := decode_iff_items .fresh connectedMessage (by decide)
  have hlayer := hdescribed _ hlists
  obtain ⟨hstart, hstop, -⟩ := hlayer.carries [address] connected [] rfl rfl (by simp)
  refine ⟨hlists, haccepted.mpr ⟨_, hlists, fun _ h => h.unique hlists⟩, hlayer.others,
    hlayer.dataItem, ?_, ?_⟩
  · exact congrArg₂ Span.mk hstart (hstop.trans (congrArg (· + 1) hstart))
  · have hcut := hbehind hlists.inside []
    rwa [List.append_nil] at hcut

end Enip

end PacketLayers
