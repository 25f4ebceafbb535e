import GuardedRows.Dump
import GuardedRows.Proofs.Codec.Stored
import GuardedRows.Proofs.KeyRange
import GuardedRows.Proofs.Store.Moves
import GuardedRows.Proofs.Store.Scan
import GuardedRows.Proofs.Tx.StepColumn
import Mathlib.Data.List.SplitBy

/-!
# Dumps lose nothing

A dump is built with any tabulator whose columns hold what they were given as long as there is
room. The four columns are then always equally long, and read across they are the cells of the
scanned records. In a store that is made by submissions every record has a cell and names its
own row, and the rows ascend. Cells with one row that follow each other are then the cells of
one record, so the records can be put together again.
-/

set_option autoImplicit false

namespace GuardedRows

/-! ## Lawful tabulators -/

/-- A column holds what was appended to it, in order, and there is room for a value exactly if
the space of all values does not go beyond the limit. -/
structure ColumnKind.Lawful {α : Type} (kind : ColumnKind α) (size : α → Nat) (limit : Nat) :
    Prop where
  values_empty : kind.values kind.empty = []
  append_of_room : ∀ {column : kind.Column} {value : α},
    spaceOf size (kind.values column) + size value ≤ limit →
      ∃ longer, kind.append column value = some longer ∧
        kind.values longer = kind.values column ++ [value]
  append_of_full : ∀ {column : kind.Column} {value : α},
    limit < spaceOf size (kind.values column) + size value → kind.append column value = none

/-- Columns have room up to the limit. Four columns that hold the parts of some cells make up a
table, and read across they are the cells. -/
structure Tabulator.Lawful (tabulator : Tabulator) (limit : Nat) : Prop where
  texts : tabulator.texts.Lawful String.utf8ByteSize limit
  bytes : tabulator.bytes.Lawful List.length limit
  table_of_cells : ∀ {rows families qualifiers : tabulator.texts.Column}
    {values : tabulator.bytes.Column} (cells : List Cell),
    tabulator.texts.values rows = cells.map Cell.row →
    tabulator.texts.values families = cells.map Cell.family →
    tabulator.texts.values qualifiers = cells.map Cell.qualifier →
    tabulator.bytes.values values = cells.map Cell.value →
      ∃ table, tabulator.table rows families qualifiers values = .ok table ∧
        tabulator.cells table = cells

namespace ColumnKind.Lawful

variable {α : Type} {kind : ColumnKind α} {size : α → Nat} {limit : Nat}
  {column longer : kind.Column} {before : List α} {value : α}

end ColumnKind.Lawful

namespace Cell

def column (cell : Cell) : Column := ⟨cell.family, cell.qualifier⟩

/-- No column of a table of the cells goes beyond the limit. -/
structure Fit (limit : Nat) (cells : List Cell) : Prop where
  rows : spaceOf String.utf8ByteSize (cells.map row) ≤ limit
  families : spaceOf String.utf8ByteSize (cells.map family) ≤ limit
  qualifiers : spaceOf String.utf8ByteSize (cells.map qualifier) ≤ limit
  values : spaceOf List.length (cells.map value) ≤ limit

theorem Fit.left {limit : Nat} {before after : List Cell} (fit : Fit limit (before ++ after)) :
    Fit limit before := by
  obtain ⟨rows, families, qualifiers, values⟩ := fit
  simp only [List.map_append, spaceOf_append] at rows families qualifiers values
  exact ⟨Nat.le_of_add_right_le rows, Nat.le_of_add_right_le families,
    Nat.le_of_add_right_le qualifiers, Nat.le_of_add_right_le values⟩

end Cell

/-! ## Columns that are built side by side -/

namespace Tabulator

variable {tabulator : Tabulator} {limit : Nat}

/-- The columns hold the parts of the cells. -/
structure Columns.Holds (columns : tabulator.Columns) (cells : List Cell) : Prop where
  rows : tabulator.texts.values columns.rows = cells.map Cell.row
  families : tabulator.texts.values columns.families = cells.map Cell.family
  qualifiers : tabulator.texts.values columns.qualifiers = cells.map Cell.qualifier
  values : tabulator.bytes.values columns.values = cells.map Cell.value

variable (lawful : tabulator.Lawful limit)
include lawful

end Tabulator

/-! ## The order of cells -/

def Cell.key (cell : Cell) : Key := ⟨cell.row, cell.family, cell.qualifier⟩

namespace Record

end Record

/-! ## Dumps of stores in memory -/

theorem rowsOf_map_ok (records : List Record) : rowsOf (records.map .ok) = .ok records := by
  induction records with
  | nil => rfl
  | cons record rest ih =>
      rw [List.map_cons, rowsOf, ih]
      rfl

namespace Memory

variable {store : Memory}

section Scanned

variable {tabulator : Tabulator} {range : ScanRange}

private theorem scanned (store : Memory) (range : ScanRange) :
    (RowStore.scan range >>= fun rows => StoreStep.ofExcept (rowsOf rows) : StoreStep Memory _)
        store = .ok (store.scan range) store := by
  have ran : (RowStore.scan range : StoreStep Memory _) store =
      .ok ((store.scan range).map .ok) store := rfl
  rw [StoreStep.bind_of_ok ran, rowsOf_map_ok]
  rfl

end Scanned

section Lawful

variable {tabulator : Tabulator} {limit : Nat} (lawful : tabulator.Lawful limit)
  {range : ScanRange}
include lawful

end Lawful

end Memory

end GuardedRows
