import GuardedRows.Proofs.Store.Scan
import GuardedRows.Proofs.Tablet.Reading
import GuardedRows.Proofs.Tablet.RowEncoding
import GuardedRows.Tablet.Rows

/-!
# What a scan of tablets yields

Whatever a store holds, a scan of a table yields records of that table's rows alone, those that
do not end before the start, in the order of their end rows. What is read from them are tablets
of the table.
-/

set_option autoImplicit false

namespace GuardedRows.Tablet

open StoreStep

variable {store : Memory} {table : TableId} {start : Option String}

/-! ## The rows of a scan -/

def Metadata.reaches (start : Option String) (tablet : Metadata) : Bool :=
  start.all fun row => tablet.extent.endRow.all (row ≤ ·)

theorem Metadata.reaches_iff {tablet : Metadata} :
    tablet.reaches start = true ↔
      ∀ first ∈ start, ∀ last ∈ tablet.extent.endRow, first ≤ last := by
  simp [reaches, Option.all_eq_true]

theorem isBeforeStart_metadataRow {endRow : Option String} :
    (scanRange table start).isBeforeStart (metadataRow table endRow) = false ↔
      ∀ first ∈ start, ∀ last ∈ endRow, first ≤ last := by
  simp only [ScanRange.isBeforeStart, scanRange, ScanRange.closed, decide_eq_false_iff_not,
    String.not_lt]
  cases start with
  | none => simp [firstMetadataRow_le]
  | some first =>
      cases endRow with
      | none => simp [metadataRow_le_last]
      | some last => simp [metadataRow_le_metadataRow]

theorem firstMetadataRow_le_of_isBeforeStart {row : String}
    (begun : (scanRange table start).isBeforeStart row = false) :
    firstMetadataRow table ≤ row := by
  simp only [ScanRange.isBeforeStart, scanRange, ScanRange.closed, decide_eq_false_iff_not,
    String.not_lt] at begun
  cases start with
  | none => exact begun
  | some first => exact Std.le_trans (firstMetadataRow_le (some first)) begun

theorem isPastEnd_scanRange {row : String} :
    (scanRange table start).isPastEnd row = false ↔ row ≤ metadataRow table none := by
  simp only [ScanRange.isPastEnd, scanRange, ScanRange.closed, decide_eq_false_iff_not,
    String.not_lt]

/-- A scan of a table admits the metadata rows of its tablets from the start on, and no other
row. -/
theorem admits_iff {row : String} :
    (scanRange table start).isBeforeStart row = false ∧
        (scanRange table start).isPastEnd row = false ↔
      ∃ endRow, row = metadataRow table endRow ∧ ∀ first ∈ start, ∀ last ∈ endRow,
        first ≤ last := by
  constructor
  · rintro ⟨begun, within⟩
    obtain ⟨endRow, rfl⟩ := eq_metadataRow_of_between
      (firstMetadataRow_le_of_isBeforeStart begun) (isPastEnd_scanRange.mp within)
    exact ⟨endRow, rfl, isBeforeStart_metadataRow.mp begun⟩
  · rintro ⟨endRow, rfl, reached⟩
    exact ⟨isBeforeStart_metadataRow.mpr reached,
      isPastEnd_scanRange.mpr (metadataRow_le_last endRow)⟩

theorem mem_range_scanRange_iff {row : String} {record : Record} :
    (row, record) ∈ store.rows.range (scanRange table start).start
        (scanRange table start).stop ↔
      store.read row = some record ∧ ∃ endRow, row = metadataRow table endRow ∧
        ∀ first ∈ start, ∀ last ∈ endRow, first ≤ last := by
  rw [SortedMap.mem_range_iff, ← admits_iff, ScanRange.begunAt_start, ScanRange.overAt_stop,
    Bool.not_eq_true']
  rfl

theorem mem_scan_scanRange_iff {record : Record} :
    record ∈ store.scan (scanRange table start) ↔
      ∃ endRow, store.read (metadataRow table endRow) = some record ∧
        ∀ first ∈ start, ∀ last ∈ endRow, first ≤ last := by
  simp only [Memory.mem_scan_iff, admits_iff]
  constructor
  · rintro ⟨_, found, endRow, rfl, reached⟩
    exact ⟨endRow, found, reached⟩
  · rintro ⟨endRow, found, reached⟩
    exact ⟨_, found, endRow, rfl, reached⟩

/-! ## What is read from them -/

theorem readRow_of_ok {record : Record} {tablet : Metadata}
    (read : Metadata.ofRecord record = .ok tablet) : readRow (.ok record) = .ok tablet := by
  simp only [readRow, ofReading, read]
  rfl

theorem readRow_of_error {record : Record} {cause : Malformed}
    (read : Metadata.ofRecord record = .error cause) :
    readRow (.ok record) = .error (.malformed cause) := by
  simp only [readRow, ofReading, read]
  rfl

theorem readRow_ok_iff {record : Record} {tablet : Metadata} :
    readRow (.ok record) = .ok tablet ↔ Metadata.ofRecord record = .ok tablet := by
  cases read : Metadata.ofRecord record with
  | ok other => simp [readRow_of_ok read]
  | error cause => simp [readRow_of_error read]

theorem malformed_of_readRow {record : Record} {failure : Error}
    (failed : readRow (.ok record) = .error failure) : ∃ cause, failure = .malformed cause := by
  cases read : Metadata.ofRecord record with
  | ok tablet => cases (readRow_of_ok read).symm.trans failed
  | error cause =>
      cases (readRow_of_error read).symm.trans failed
      exact ⟨cause, rfl⟩

/-- What a store has to say about a tablet. -/
def lookUp (store : Memory) (extent : Extent) : Except Error (Option Metadata) :=
  match store.read extent.metadataRow with
  | none => .ok none
  | some record => (ofReading (Metadata.ofRecord record)).map some

theorem find_eq_lookUp (extent : Extent) (store : Memory) :
    find extent store = StoreStep.ofExcept (lookUp store extent) store := by
  have read : (RowStore.read extent.metadataRow : StoreStep Memory (Option Record)) store =
      .ok (store.read extent.metadataRow) store := rfl
  unfold find lookUp
  rw [bind_of_ok read]
  cases store.read extent.metadataRow with
  | none => rfl
  | some record =>
      simp only [readRow]
      cases ofReading (Metadata.ofRecord record) <;> rfl

theorem malformed_of_lookUp {extent : Extent} {failure : Error}
    (failed : lookUp store extent = .error failure) : ∃ cause, failure = .malformed cause := by
  unfold lookUp at failed
  cases found : store.read extent.metadataRow with
  | none =>
      rw [found] at failed
      cases failed
  | some record =>
      rw [found] at failed
      dsimp only at failed
      cases read : Metadata.ofRecord record with
      | ok tablet =>
          rw [read] at failed
          cases failed
      | error cause =>
          rw [read] at failed
          cases failed
          exact ⟨cause, rfl⟩

/-- A tablet as a scan of a table from a start on finds it in a store. -/
structure Found (store : Memory) (table : TableId) (start : Option String) (record : Record)
    (tablet : Metadata) : Prop where
  reads : Metadata.ofRecord record = .ok tablet
  table : tablet.extent.table = table
  stored : store.read tablet.extent.metadataRow = some record
  reached : tablet.reaches start = true

theorem Found.of_mem_scan (filed : store.Filed) (named : separator ∉ table.text.toList)
    {record : Record} {tablet : Metadata} (member : record ∈ store.scan (scanRange table start))
    (reads : Metadata.ofRecord record = .ok tablet) : Found store table start record tablet := by
  obtain ⟨endRow, found, reached⟩ := mem_scan_scanRange_iff.mp member
  have row := filed.row _ record found
  have parts := Metadata.ofRecord_eq_ok_iff.mp reads
  have parsed := parts.row
  rw [row, parseMetadataRow_metadataRow named, Except.ok.injEq, Prod.mk.injEq] at parsed
  refine ⟨reads, parsed.1.symm, ?_, Metadata.reaches_iff.mpr (parsed.2 ▸ reached)⟩
  rw [parts.metadataRow_eq, row, found]

theorem Found.row_eq {record : Record} {tablet : Metadata}
    (found : Found store table start record tablet) :
    record.row = metadataRow table tablet.extent.endRow := by
  rw [← (Metadata.ofRecord_eq_ok_iff.mp found.reads).metadataRow_eq, Extent.metadataRow,
    found.table]

/-- What a table yields from a row on. -/
def scannedFrom (store : Memory) (table : TableId) (start : Option String) :
    List (Except Error Metadata) :=
  (store.scan (scanRange table start)).map fun record => readRow (.ok record)

theorem overlapping_eq_scannedFrom (store : Memory) (table : TableId) (start : Option String) :
    overlapping table start store = .ok (scannedFrom store table start) store := by
  have yielded : ((store.scan (scanRange table start)).map .ok).map readRow =
      scannedFrom store table start := by
    rw [List.map_map]
    rfl
  rw [← yielded]
  rfl

end GuardedRows.Tablet
