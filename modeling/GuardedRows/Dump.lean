import GuardedRows.Store.Basic

/-!
# Dumps

A dump lists the cells of a store one by one, in row order and within a row in column
order, each with its full address. It is a table of four columns that are built side by side,
one value to each for every cell. What columns and tables are is left to a tabulator.
-/

set_option autoImplicit false

namespace GuardedRows

structure Cell where
  row : String
  family : String
  qualifier : String
  value : Bytes
  deriving DecidableEq

inductive Cell.Content where
  | text
  | bytes
  deriving DecidableEq

def Cell.Content.name : Cell.Content → String
  | .text => "Utf8"
  | .bytes => "Binary"

structure Cell.Field where
  name : String
  content : Cell.Content
  nullable : Bool
  deriving DecidableEq

/-- The columns of a dump in order. No cell lacks any of them. -/
def Cell.schema : List Cell.Field := [
  ⟨"row", .text, false⟩,
  ⟨"family", .text, false⟩,
  ⟨"qualifier", .text, false⟩,
  ⟨"value", .bytes, false⟩]

def Record.cellList (record : Record) : List Cell :=
  record.toList.map fun cell => ⟨record.row, cell.1.family, cell.1.qualifier, cell.2⟩

def Cell.ofRecords (records : List Record) : List Cell := records.flatMap Record.cellList

/-! ## Tabulators -/

/-- Columns that grow by a value at a time. A column without room for a value stops the work. -/
structure ColumnKind (α : Type) where
  Column : Type
  empty : Column
  append : Column → α → Option Column
  values : Column → List α

/-- Makes tables of cells from a column for each part of a cell. -/
structure Tabulator where
  texts : ColumnKind String
  bytes : ColumnKind Bytes
  Table : Type
  table (rows families qualifiers : texts.Column) (values : bytes.Column) : Except Error Table
  /-- The cell of each line of a table, read across its columns. -/
  cells : Table → List Cell

namespace Tabulator

variable (tabulator : Tabulator)

/-- The columns of a dump while they are built. Nothing ties their lengths together. -/
structure Columns where
  rows : tabulator.texts.Column := tabulator.texts.empty
  families : tabulator.texts.Column := tabulator.texts.empty
  qualifiers : tabulator.texts.Column := tabulator.texts.empty
  values : tabulator.bytes.Column := tabulator.bytes.empty

variable {tabulator}

def Columns.push (columns : tabulator.Columns) (row : String) (column : Column)
    (value : Bytes) : Option tabulator.Columns := do
  let rows ← tabulator.texts.append columns.rows row
  let families ← tabulator.texts.append columns.families column.family
  let qualifiers ← tabulator.texts.append columns.qualifiers column.qualifier
  let values ← tabulator.bytes.append columns.values value
  return { rows, families, qualifiers, values }

def Columns.append (columns : tabulator.Columns) (record : Record) :
    Option tabulator.Columns :=
  record.toList.foldlM (fun columns cell => columns.push record.row cell.1 cell.2) columns

variable (tabulator)

/-- The table of the cells of some records, unless a column runs out of room. -/
def ofRecords (records : List Record) : Option (Except Error tabulator.Table) := do
  let columns ← records.foldlM Columns.append ({} : tabulator.Columns)
  return tabulator.table columns.rows columns.families columns.qualifiers columns.values

end Tabulator

/-! ## Dumps of stores -/

def rowsOf : List (Except Error Record) → Except Error (List Record)
  | [] => .ok []
  | .error error :: _ => .error error
  | .ok record :: rest => do
      let records ← rowsOf rest
      return record :: records

/-- The table of the rows in a range. One row that could not be had fails the dump, and there
is no table if a column runs out of room. -/
def dump {σ : Type} [RowStore σ] (tabulator : Tabulator) (range : ScanRange) :
    StoreStep σ (Option tabulator.Table) := do
  let rows ← RowStore.scan range
  let records ← StoreStep.ofExcept (rowsOf rows)
  match tabulator.ofRecords records with
  | none => return none
  | some made => return some (← StoreStep.ofExcept made)

/-! ## Columns in arrays -/

/-- The space that values take together. -/
def spaceOf {α : Type} (size : α → Nat) : List α → Nat
  | [] => 0
  | value :: rest => size value + spaceOf size rest

theorem spaceOf_append {α : Type} (size : α → Nat) (before after : List α) :
    spaceOf size (before ++ after) = spaceOf size before + spaceOf size after := by
  induction before with
  | nil => rw [List.nil_append, spaceOf, Nat.zero_add]
  | cons value rest ih => rw [List.cons_append, spaceOf, spaceOf, ih, Nat.add_assoc]

/-- Values in an array, with the space they take. -/
structure PackedColumn {α : Type} (size : α → Nat) where
  values : Array α := #[]
  space : Nat := 0
  space_eq : space = spaceOf size values.toList := by rfl

/-- Columns that hold their values in arrays, up to so much space for each of them. -/
def ColumnKind.packed {α : Type} (size : α → Nat) (limit : Nat) : ColumnKind α where
  Column := PackedColumn size
  empty := {}
  append column value :=
    if column.space + size value ≤ limit then
      some {
        values := column.values.push value
        space := column.space + size value
        space_eq := by simp [column.space_eq, spaceOf_append, spaceOf] }
    else none
  values column := column.values.toList

namespace Cell

/-- Four arrays of one length. -/
structure Table where
  size : Nat
  rows : Vector String size
  families : Vector String size
  qualifiers : Vector String size
  values : Vector Bytes size

namespace Table

def ofArrays (rows families qualifiers : Array String) (values : Array Bytes) :
    Except Error Table :=
  if aligned : families.size = rows.size ∧ qualifiers.size = rows.size ∧
      values.size = rows.size then
    .ok {
      size := rows.size
      rows := ⟨rows, rfl⟩
      families := ⟨families, aligned.1⟩
      qualifiers := ⟨qualifiers, aligned.2.1⟩
      values := ⟨values, aligned.2.2⟩ }
  else
    .error (.described .dump
      "Invalid argument error: all columns in a record batch must have the same length")

def cells (table : Table) : List Cell :=
  List.ofFn fun line : Fin table.size =>
    ⟨table.rows[line.val], table.families[line.val], table.qualifiers[line.val],
      table.values[line.val]⟩

end Table

end Cell

/-- The values of a column are found by offsets in signed words of 32 bits, so all of them
together have no more bytes than the greatest of these. -/
def greatestOffset : Nat := 2147483647

/-- Tables of four arrays. -/
def Tabulator.packed : Tabulator where
  texts := .packed String.utf8ByteSize greatestOffset
  bytes := .packed List.length greatestOffset
  Table := Cell.Table
  table rows families qualifiers values :=
    Cell.Table.ofArrays rows.values families.values qualifiers.values values.values
  cells := Cell.Table.cells

end GuardedRows
