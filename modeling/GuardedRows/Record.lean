import GuardedRows.Bytes
import GuardedRows.SortedMap.Basic

/-!
# Records

A record is a row and its cells. Cells are addressed by column and listed in column
order, which keeps the columns of one family together.
-/

set_option autoImplicit false

namespace GuardedRows

/-- The name of a cell within its row. Columns are ordered by family, then qualifier. -/
structure Column where
  family : String
  qualifier : String
  deriving DecidableEq, Inhabited

namespace Column

instance : Ord Column := ⟨compareLex (compareOn family) (compareOn qualifier)⟩

instance : Std.TransOrd Column :=
  inferInstanceAs (Std.TransCmp (compareLex (compareOn Column.family) (compareOn Column.qualifier)))

instance : Std.LawfulEqOrd Column where
  eq_of_compare {left right} order := by
    obtain ⟨family, qualifier⟩ := compareLex_eq_eq.mp order
    cases left
    cases right
    cases (Std.LawfulEqOrd.eq_of_compare family : _ = _)
    cases (Std.LawfulEqOrd.eq_of_compare qualifier : _ = _)
    rfl

def text (column : Column) : String := column.family ++ ":" ++ column.qualifier

end Column

structure Record where
  row : String
  cells : SortedMap Column Bytes
  deriving DecidableEq

namespace Record

def blank (row : String) : Record := ⟨row, .empty⟩

def get? (record : Record) (column : Column) : Option Bytes := record.cells.get? column

/-- The text in a column. Bytes that are not UTF-8 count as absent. -/
def text? (record : Record) (column : Column) : Option String :=
  (record.get? column).bind Bytes.text?

def contains (record : Record) (column : Column) : Bool := record.cells.contains column

def put (record : Record) (column : Column) (value : Bytes) : Record :=
  { record with cells := record.cells.insert column value }

def remove (record : Record) (column : Column) : Record :=
  { record with cells := record.cells.erase column }

/-- Whether the record has no cells. A store keeps no such record. -/
def isEmpty (record : Record) : Bool := record.cells.isEmpty

def size (record : Record) : Nat := record.cells.size

def toList (record : Record) : List (Column × Bytes) := record.cells.toList

def family (record : Record) (name : String) : List (Column × Bytes) :=
  record.toList.filter fun cell => cell.1.family = name

/-- A record from a list of cells. The last value given for a column wins. -/
def ofList (row : String) (cells : List (Column × Bytes)) : Record := ⟨row, .ofList cells⟩

end Record

end GuardedRows
