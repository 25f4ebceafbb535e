import GuardedRows.Mutation
import GuardedRows.Store.Basic
import GuardedRows.Tablet.Metadata

/-!
# Tablets in a store

The tablets of a table are read one by one, or from the tablet that holds a row onwards. A
new table is cut at its split rows. Whatever changes a tablet later asks for the tablet's
previous end row, so it cannot land on a tablet that was split or merged since it was read.
-/

set_option autoImplicit false

namespace GuardedRows.Tablet

/-! ## Reading -/

variable {σ : Type} [RowStore σ]

def readRow : Except Error Record → Except Error Metadata
  | .ok record => ofReading (Metadata.ofRecord record)
  | .error error => .error error

def find (extent : Extent) : StoreStep σ (Option Metadata) := do
  match ← RowStore.read extent.metadataRow with
  | none => return none
  | some record => return some (← StoreStep.ofExcept (readRow (.ok record)))

/-- The metadata rows of a table from the tablet that holds `start` onwards. That tablet is
the first one whose end row is not before `start`. -/
def scanRange (table : TableId) (start : Option String) : ScanRange :=
  let first :=
    match start with
    | some row => metadataRow table (some row)
    | none => firstMetadataRow table
  .closed first (metadataRow table none)

/-- The tablets of a table from the one that holds `start` onwards, in row order, or from
the first one if there is no `start`. -/
def overlapping (table : TableId) (start : Option String) :
    StoreStep σ (List (Except Error Metadata)) := do
  return (← RowStore.scan (scanRange table start)).map readRow

/-! ## Creating the tablets of a table

A new table is cut at its split rows, in order and each once. The tablets are recorded one
after another, and a row that exists already stops the work.
-/

def distinctRows (rows : List String) : List String :=
  (SortedMap.ofList (rows.map fun row => (row, ()))).keys

/-- The extents that the ends leave behind a previous end row. The last one has no end. -/
def extentsFrom (table : TableId) (previous : Option String) : List String → List Extent
  | [] => [⟨table, none, previous⟩]
  | endRow :: rest => ⟨table, some endRow, previous⟩ :: extentsFrom table (some endRow) rest

def extentsAt (table : TableId) (splits : List String) : List Extent :=
  extentsFrom table none (distinctRows splits)

def creation (availability : Availability) (extent : Extent) : Mutation where
  row := extent.metadataRow
  conditions := [.rowAbsent]
  writes := [
    .put previousRowColumn (encodePreviousRow extent.previousEndRow),
    .put availabilityColumn (Bytes.ofText availability.text)]

def createEach (availability : Availability) : List Extent → StoreStep σ Unit
  | [] => pure ()
  | extent :: rest => do
      (creation availability extent).enforce
      createEach availability rest

def createTablets (table : TableId) (splits : List String) (availability : Availability) :
    StoreStep σ (List Extent) := do
  let extents := extentsAt table splits
  createEach availability extents
  return extents

/-! ## Edits

A mutation of a tablet is a list of edits.
-/

inductive Edit where
  | requireNoOperation
  | requireOperation (operation : OperationId)
  | putAvailability (availability : Availability)
  | putOperation (operation : OperationId)
  | deleteOperation
  deriving DecidableEq

namespace Edit

def conditions : Edit → List Condition
  | .requireNoOperation => [.absent operationColumn]
  | .requireOperation operation => [.equals operationColumn (Bytes.ofText operation.text)]
  | .putAvailability _ | .putOperation _ | .deleteOperation => []

def writes : Edit → List Write
  | .putAvailability availability =>
      [.put availabilityColumn (Bytes.ofText availability.text)]
  | .putOperation operation => [.put operationColumn (Bytes.ofText operation.text)]
  | .deleteOperation => [.delete operationColumn]
  | .requireNoOperation | .requireOperation _ => []

def sameStart (extent : Extent) : Condition :=
  .equals previousRowColumn (encodePreviousRow extent.previousEndRow)

def mutation (extent : Extent) (edits : List Edit) : Mutation where
  row := extent.metadataRow
  conditions := sameStart extent :: edits.flatMap conditions
  writes := edits.flatMap writes

end Edit

/-! ## Claims

An operation claims a tablet that no operation holds and that still has the extent the
operation knows. Only the same operation can release it, by the text of its id.
-/

def claiming (extent : Extent) (operation : OperationId) : Mutation :=
  Edit.mutation extent [.requireNoOperation, .putOperation operation]

/-- Gives a tablet back. The tablet may have been split or merged since. -/
def releasing (extent : Extent) (operation : OperationId) : Mutation where
  row := extent.metadataRow
  conditions := [.equals operationColumn (Bytes.ofText operation.text)]
  writes := [.delete operationColumn]

def claim (extent : Extent) (operation : OperationId) : StoreStep σ Outcome :=
  (claiming extent operation).attempt

def release (extent : Extent) (operation : OperationId) : StoreStep σ Outcome :=
  (releasing extent operation).attempt

end GuardedRows.Tablet
