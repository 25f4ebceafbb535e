import GuardedRows.Proofs.Tablet.Scanned
import GuardedRows.Tablet.Rows

/-!
# Tables as chains of tablets

The tablets of a table follow one another: each begins where the one before it ends, the
first has no previous end row and the last no end row. A store holds a table if the metadata
rows of the table are exactly the records of such tablets. A scan from a row then yields the
tablets that do not end before the row, in order.
-/

set_option autoImplicit false

namespace GuardedRows.Tablet

/-- Members of a list that differ from one another in a key are told apart by it. -/
theorem eq_of_pairwise_ne {α κ : Type} {key : α → κ} {values : List α}
    (apart : values.Pairwise fun left right => key left ≠ key right) {left right : α}
    (first : left ∈ values) (second : right ∈ values) (same : key left = key right) :
    left = right :=
  List.Pairwise.forall_of_forall_of_flip
    (R := fun left right => key left = key right → left = right)
    (fun _ _ _ => rfl)
    (apart.imp fun differ same => absurd same differ)
    (apart.imp fun differ same => absurd same.symm differ)
    first second same

/-! ## Chains -/

/-- Tablets that follow one another from behind a previous end row up to the last. -/
inductive Chain (table : TableId) : Option String → List Metadata → Prop where
  | last {previous : Option String} {tablet : Metadata} :
      tablet.extent = ⟨table, none, previous⟩ → Chain table previous [tablet]
  | next {previous : Option String} {endRow : String} {tablet : Metadata}
      {rest : List Metadata} :
      tablet.extent = ⟨table, some endRow, previous⟩ → (∀ row ∈ previous, row < endRow) →
      Chain table (some endRow) rest → Chain table previous (tablet :: rest)

namespace Chain

variable {table : TableId} {previous : Option String} {tablets : List Metadata}

theorem table_eq (chain : Chain table previous tablets) :
    ∀ tablet ∈ tablets, tablet.extent.table = table := by
  induction chain with
  | last extent =>
      intro tablet member
      rw [List.mem_singleton.mp member, extent]
  | next extent _ _ ih =>
      intro tablet member
      rcases List.mem_cons.mp member with rfl | member
      · rw [extent]
      · exact ih tablet member

theorem above {row : String} (chain : Chain table previous tablets) (behind : row ∈ previous) :
    ∀ tablet ∈ tablets, (∃ begin ∈ tablet.extent.previousEndRow, row ≤ begin) ∧
      ∀ endRow ∈ tablet.extent.endRow, row < endRow := by
  induction chain generalizing row with
  | last extent =>
      intro tablet member
      rw [List.mem_singleton.mp member, extent]
      exact ⟨⟨row, behind, Std.le_refl row⟩, by simp⟩
  | @next previous endRow tablet rest extent order _ ih =>
      intro other member
      have ends : row < endRow := order row behind
      rcases List.mem_cons.mp member with rfl | member
      · rw [extent]
        refine ⟨⟨row, behind, Std.le_refl row⟩, fun last same => ?_⟩
        cases Option.mem_some.mp same
        exact ends
      · obtain ⟨⟨begin, begins, order⟩, later⟩ := ih (Option.mem_some_self endRow) other member
        exact ⟨⟨begin, begins, Std.le_trans (Std.le_of_lt ends) order⟩,
          fun last same => Std.lt_trans ends (later last same)⟩

theorem proper (chain : Chain table previous tablets) :
    ∀ tablet ∈ tablets, ∀ begin ∈ tablet.extent.previousEndRow,
      ∀ endRow ∈ tablet.extent.endRow, begin < endRow := by
  induction chain with
  | last extent =>
      intro tablet member
      simp [List.mem_singleton.mp member, extent]
  | next extent order _ ih =>
      intro tablet member
      rcases List.mem_cons.mp member with rfl | member
      · rw [extent]
        intro begin begins endRow same
        cases Option.mem_some.mp same
        exact order begin begins
      · exact ih tablet member

theorem begins_later (chain : Chain table previous tablets) :
    tablets.Pairwise fun left right => ∀ begin ∈ left.extent.previousEndRow,
      ∃ later ∈ right.extent.previousEndRow, begin ≤ later := by
  induction chain with
  | last => exact List.pairwise_singleton _ _
  | @next previous endRow tablet rest extent order chain ih =>
      refine List.pairwise_cons.mpr ⟨fun other member begin begins => ?_, ih⟩
      rw [extent] at begins
      obtain ⟨⟨later, found, above⟩, _⟩ :=
        chain.above (Option.mem_some_self endRow) other member
      exact ⟨later, found, Std.le_trans (Std.le_of_lt (order begin begins)) above⟩

theorem rows_ascend (chain : Chain table previous tablets) :
    tablets.Pairwise fun left right =>
      left.extent.metadataRow < right.extent.metadataRow := by
  induction chain with
  | last => exact List.pairwise_singleton _ _
  | @next previous endRow tablet rest extent _ chain ih =>
      refine List.pairwise_cons.mpr ⟨fun other member => ?_, ih⟩
      have ends := (chain.above (Option.mem_some_self endRow) other member).2
      have named := chain.table_eq other member
      simp only [Extent.metadataRow, extent, named]
      cases last : other.extent.endRow with
      | none => exact metadataRow_lt_last endRow
      | some later => exact metadataRow_lt_metadataRow.mpr (ends later last)

theorem eq_of_row_eq (chain : Chain table previous tablets) {left right : Metadata}
    (first : left ∈ tablets) (second : right ∈ tablets)
    (same : left.extent.metadataRow = right.extent.metadataRow) : left = right :=
  eq_of_pairwise_ne (chain.rows_ascend.imp Std.ne_of_lt) first second same

theorem map {change : Metadata → Metadata}
    (same : ∀ tablet, (change tablet).extent = tablet.extent)
    (chain : Chain table previous tablets) : Chain table previous (tablets.map change) := by
  induction chain with
  | last extent => exact .last ((same _).trans extent)
  | next extent order _ ih => exact .next ((same _).trans extent) order ih

end Chain

/-! ## Records of tablets -/

def Says {α : Type} (parse : String → Except Malformed α) (cell : Option Bytes) :
    Option α → Prop
  | none => cell = none
  | some value => ∃ text, cell = some (Bytes.ofText text) ∧ parse text = .ok value

/-- A record describes a tablet, in cells that are as an operation would write them. -/
structure Describes (record : Record) (tablet : Metadata) : Prop where
  previousEndRow : record.get? previousRowColumn =
    some (encodePreviousRow tablet.extent.previousEndRow)
  availability : Says Availability.parse (record.get? availabilityColumn) tablet.availability
  operation : Says OperationId.parse (record.get? operationColumn) tablet.operation

theorem Says.isSome_eq {α : Type} {parse : String → Except Malformed α} {cell : Option Bytes}
    {value : Option α} (told : Says parse cell value) : cell.isSome = value.isSome := by
  cases value with
  | none => rw [show cell = none from told]; rfl
  | some value =>
      obtain ⟨text, found, _⟩ := told
      rw [found]
      rfl

theorem Says.read {α : Type} {parse : String → Except Malformed α} {record : Record}
    {column : Column} {value : Option α} (told : Says parse (record.get? column) value) :
    (match record.text? column with
      | none => .ok none
      | some text => (parse text).map some) = Except.ok value := by
  cases value with
  | none => simp [Record.text?, show record.get? column = none from told]
  | some value =>
      obtain ⟨text, found, parsed⟩ := told
      simp only [Record.text?, found, Option.bind_some, Bytes.text?_ofText, parsed]
      rfl

theorem Describes.ofRecord {record : Record} {tablet : Metadata}
    (describes : Describes record tablet) (filed : record.row = tablet.extent.metadataRow)
    (named : separator ∉ tablet.extent.table.text.toList) :
    Metadata.ofRecord record = .ok tablet := by
  refine Metadata.ofRecord_eq_ok_iff.mpr ⟨?_, ⟨_, describes.previousEndRow, ?_⟩,
    describes.availability.read, describes.operation.read⟩
  · rw [filed, Extent.metadataRow, parseMetadataRow_metadataRow named]
  · rw [decodePreviousRow_encodePreviousRow]

def Keeps (store : Memory) (tablet : Metadata) : Prop :=
  ∃ record ∈ store.read tablet.extent.metadataRow, Describes record tablet

theorem Keeps.readRow_eq {store : Memory} {tablet : Metadata} (keeps : Keeps store tablet)
    (filed : store.Filed) (named : separator ∉ tablet.extent.table.text.toList)
    {record : Record} (found : record ∈ store.read tablet.extent.metadataRow) :
    readRow (.ok record) = .ok tablet := by
  obtain ⟨described, same, describes⟩ := keeps
  cases Option.mem_unique same found
  exact readRow_of_ok (describes.ofRecord (filed.row _ record found) named)

theorem Keeps.find_eq {store : Memory} {tablet : Metadata} (keeps : Keeps store tablet)
    (filed : store.Filed) (named : separator ∉ tablet.extent.table.text.toList) :
    find tablet.extent store = .ok (some tablet) store := by
  obtain ⟨record, found, _⟩ := id keeps
  have reads := keeps.readRow_eq filed named found
  simp only [find, bind, EStateM.bind, RowStore.read, Option.mem_def.mp found, reads]
  rfl

/-! ## Stores that hold a table -/

/-- The metadata rows of a table are the records of a chain of tablets. Other rows of the
store are of no concern. -/
structure Holds (store : Memory) (table : TableId) (tablets : List Metadata) : Prop where
  named : separator ∉ table.text.toList
  chain : Chain table none tablets
  recorded : ∀ tablet ∈ tablets, Keeps store tablet
  complete : ∀ row endRow, (store.read row).isSome = true →
    parseMetadataRow row = .ok (table, endRow) →
    ∃ tablet ∈ tablets, tablet.extent.metadataRow = row

namespace Holds

variable {store : Memory} {table : TableId} {tablets : List Metadata}

theorem metadataRow_eq (holds : Holds store table tablets) {tablet : Metadata}
    (member : tablet ∈ tablets) :
    tablet.extent.metadataRow = metadataRow table tablet.extent.endRow := by
  rw [Extent.metadataRow, holds.chain.table_eq tablet member]

theorem named_of_mem (holds : Holds store table tablets) {tablet : Metadata}
    (member : tablet ∈ tablets) : separator ∉ tablet.extent.table.text.toList := by
  rw [holds.chain.table_eq tablet member]
  exact holds.named

theorem addFault (holds : Holds store table tablets) (fault : Fault) :
    Holds (store.addFault fault) table tablets :=
  ⟨holds.named, holds.chain, holds.recorded, holds.complete⟩

end Holds

/-! ## Scans -/

namespace Holds

variable {store : Memory} {table : TableId} {tablets : List Metadata}

private def binding (store : Memory) (tablet : Metadata) : String × Record :=
  let row := tablet.extent.metadataRow
  (row, (store.read row).getD (.blank row))

private theorem range_eq (holds : Holds store table tablets) (start : Option String) :
    store.rows.range (scanRange table start).start (scanRange table start).stop =
      (tablets.filter (·.reaches start)).map (binding store) := by
  refine SortedMap.eq_of_ascending_of_mem_iff (SortedMap.range_ascending _ _ _) ?_ ?_
  · refine List.pairwise_map.mpr ((holds.chain.rows_ascend.filter _).imp fun below => ?_)
    exact Text.compare_eq_lt_iff.mpr below
  · rintro ⟨row, record⟩
    simp only [mem_range_scanRange_iff, List.mem_map, List.mem_filter, Metadata.reaches_iff]
    constructor
    · rintro ⟨stored, endRow, rfl, reached⟩
      obtain ⟨tablet, member, same⟩ := holds.complete _ endRow (by rw [stored]; rfl)
        (parseMetadataRow_metadataRow holds.named endRow)
      have ends : tablet.extent.endRow = endRow :=
        metadataRow_injective ((holds.metadataRow_eq member).symm.trans same)
      exact ⟨tablet, ⟨member, ends ▸ reached⟩, by simp [binding, same, stored]⟩
    · rintro ⟨tablet, ⟨member, reached⟩, same⟩
      obtain ⟨described, found, _⟩ := holds.recorded tablet member
      simp only [binding, Option.mem_def.mp found, Option.getD_some, Prod.mk.injEq] at same
      obtain ⟨rfl, rfl⟩ := same
      exact ⟨found, tablet.extent.endRow, holds.metadataRow_eq member, reached⟩

theorem scannedFrom_eq (holds : Holds store table tablets) (filed : store.Filed)
    (start : Option String) :
    scannedFrom store table start = (tablets.filter (·.reaches start)).map .ok := by
  rw [scannedFrom, Memory.scan, holds.range_eq, List.map_map, List.map_map]
  refine List.map_congr_left fun tablet member => ?_
  have known := (List.mem_filter.mp member).1
  obtain ⟨record, found, _⟩ := holds.recorded tablet known
  have reads := (holds.recorded tablet known).readRow_eq filed (holds.named_of_mem known) found
  simpa [binding, Option.mem_def.mp found] using reads

/-- A scan of a table yields the tablets that do not end before its start, in order. -/
theorem overlapping_eq (holds : Holds store table tablets) (filed : store.Filed)
    (start : Option String) :
    overlapping table start store =
      .ok ((tablets.filter (·.reaches start)).map .ok) store := by
  rw [overlapping_eq_scannedFrom, holds.scannedFrom_eq filed]

end Holds

/-! ## A table of two tablets -/

def splitOperation : OperationId := ⟨.splitting, ⟨.user, ⟨(List.range 16).map UInt8.ofNat, rfl⟩⟩⟩

def twoTablets : List Metadata :=
  [⟨⟨⟨"t"⟩, some "m", none⟩, some .unhosted, none⟩,
    ⟨⟨⟨"t"⟩, none, some "m"⟩, some .unhosted, some splitOperation⟩]

def twoTabletStore : Memory :=
  let first := (Memory.empty.submit (creation .unhosted ⟨⟨"t"⟩, some "m", none⟩)).2
  let both := (first.submit (creation .unhosted ⟨⟨"t"⟩, none, some "m"⟩)).2
  (both.submit (claiming ⟨⟨"t"⟩, none, some "m"⟩ splitOperation)).2

theorem built_twoTabletStore : twoTabletStore.Built :=
  ((Memory.Built.empty.submit _).submit _).submit _

theorem eq_of_isSome_twoTabletStore {row : String}
    (stored : (twoTabletStore.read row).isSome = true) :
    row = metadataRow ⟨"t"⟩ none ∨ row = metadataRow ⟨"t"⟩ (some "m") := by
  rcases Memory.eq_or_isSome_of_submit stored with same | stored
  · exact .inl same
  rcases Memory.eq_or_isSome_of_submit stored with same | stored
  · exact .inl same
  rcases Memory.eq_or_isSome_of_submit stored with same | stored
  · exact .inr same
  · cases stored

theorem holds_twoTablets : Holds twoTabletStore ⟨"t"⟩ twoTablets where
  named := by decide
  chain := .next rfl (by simp) (.last rfl)
  recorded := by
    intro tablet member
    simp only [twoTablets, List.mem_cons, List.not_mem_nil, or_false] at member
    rcases member with rfl | rfl
    · exact ⟨_, rfl, rfl, ⟨_, rfl, Availability.parse_text _⟩, rfl⟩
    · exact ⟨_, rfl, rfl, ⟨_, rfl, Availability.parse_text _⟩,
        ⟨_, rfl, OperationId.parse_text _⟩⟩
  complete := by
    intro row endRow stored _
    rcases eq_of_isSome_twoTabletStore stored with rfl | rfl
    · exact ⟨_, List.mem_cons_of_mem _ List.mem_cons_self, rfl⟩
    · exact ⟨_, List.mem_cons_self, rfl⟩

end GuardedRows.Tablet
