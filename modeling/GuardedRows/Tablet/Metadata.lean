import GuardedRows.Record
import GuardedRows.Tablet.Extent
import GuardedRows.Text
import GuardedRows.Tx.Id

/-!
# Tablet metadata

What the metadata record of a tablet says. The table and the end row come from the record's
row. A record reads if its row is a metadata row, it holds a well-formed previous row, and
the texts in its other columns, if there are any, read.
-/

set_option autoImplicit false

namespace GuardedRows.Tablet

/-! ## Availability -/

inductive Availability where
  | hosted
  | onDemand
  | unhosted
  deriving DecidableEq

namespace Availability

def text : Availability → String
  | .hosted => "HOSTED"
  | .onDemand => "ONDEMAND"
  | .unhosted => "UNHOSTED"

def parse (text : String) : Except Malformed Availability :=
  if text = "HOSTED" then .ok .hosted
  else if text = "ONDEMAND" then .ok .onDemand
  else if text = "UNHOSTED" then .ok .unhosted
  else .error (.availability text)

@[simp] theorem parse_text (availability : Availability) :
    parse availability.text = .ok availability := by
  cases availability <;> rfl

end Availability

/-! ## Operation ids

An operation that needs a tablet to itself writes its id into the tablet's metadata. The
id says what the operation does and which transaction runs it.
-/

inductive OperationKind where
  | splitting
  | merging
  | deleting
  deriving DecidableEq

namespace OperationKind

def text : OperationKind → String
  | .splitting => "SPLITTING"
  | .merging => "MERGING"
  | .deleting => "DELETING"

def parse (text : String) : Except Malformed OperationKind :=
  if text = "SPLITTING" then .ok .splitting
  else if text = "MERGING" then .ok .merging
  else if text = "DELETING" then .ok .deleting
  else .error (.operationKind text)

@[simp] theorem parse_text (kind : OperationKind) : parse kind.text = .ok kind := by
  cases kind <;> rfl

end OperationKind

structure OperationId where
  kind : OperationKind
  transaction : Tx.Id
  deriving DecidableEq

namespace OperationId

def textIn (format : Uuid.Format) (operation : OperationId) : String :=
  operation.kind.text ++ ":" ++ operation.transaction.textIn format

def text (operation : OperationId) : String := operation.textIn Uuid.format

/-- Reads an operation id. The kind stands before the first colon and is read first. -/
def parseIn (format : Uuid.Format) (text : String) : Except Malformed OperationId :=
  match Text.cutFirst ':' text.toList with
  | none => .error (.operationId text)
  | some (kind, transaction) => do
      let kind ← OperationKind.parse (String.ofList kind)
      let transaction ← Tx.Id.parseIn format (String.ofList transaction)
      return ⟨kind, transaction⟩

def parse (text : String) : Except Malformed OperationId := parseIn Uuid.format text

theorem parseIn_of_reads {format : Uuid.Format} {transaction : String} {operation : OperationId}
    (reads : Tx.Id.parseIn format transaction = .ok operation.transaction) :
    parseIn format (operation.kind.text ++ ":" ++ transaction) = .ok operation := by
  have cut : Text.cutFirst ':' (operation.kind.text ++ ":" ++ transaction).toList =
      some (operation.kind.text.toList, transaction.toList) :=
    Text.cutFirst_eq_some_iff.mpr ⟨by simp, by cases operation.kind <;> decide⟩
  unfold parseIn
  simp only [cut, String.ofList_toList, OperationKind.parse_text, reads]
  rfl

@[simp] theorem parse_text (operation : OperationId) : parse operation.text = .ok operation :=
  parseIn_of_reads (Tx.Id.parse_text operation.transaction)

end OperationId

/-! ## Columns

Where the metadata of a tablet keeps the end row of the tablet before it, the tablet's
availability and the operation that claims it.
-/

def family : String := "tablet"

def previousRowColumn : Column := ⟨family, "prev_row"⟩

def availabilityColumn : Column := ⟨family, "availability"⟩

def operationColumn : Column := ⟨family, "opid"⟩

/-- A previous end row as it is stored. A presence byte tells the empty row from none. -/
def encodePreviousRow : Option String → Bytes
  | some row => 1 :: Bytes.ofText row
  | none => [0]

/-- Reads a previous end row. What follows the byte for none is ignored. -/
def decodePreviousRow : Bytes → Except Malformed (Option String)
  | 0 :: _ => .ok none
  | 1 :: row =>
      match Bytes.text? row with
      | some row => .ok (some row)
      | none => .error .previousRowText
  | _ => .error .previousRowTag

@[simp] theorem decodePreviousRow_encodePreviousRow (row : Option String) :
    decodePreviousRow (encodePreviousRow row) = .ok row := by
  cases row with
  | none => rfl
  | some row => simp [encodePreviousRow, decodePreviousRow]

/-! ## Records -/

structure Metadata where
  extent : Extent
  availability : Option Availability
  operation : Option OperationId
  deriving DecidableEq

namespace Metadata

def readAvailability (record : Record) : Except Malformed (Option Availability) :=
  match record.text? availabilityColumn with
  | none => .ok none
  | some text => (Availability.parse text).map some

def readOperation (record : Record) : Except Malformed (Option OperationId) :=
  match record.text? operationColumn with
  | none => .ok none
  | some text => (OperationId.parse text).map some

/-- What a record says. The row is read first, then the previous row, the availability and
the operation. -/
def ofRecord (record : Record) : Except Malformed Metadata := do
  let (table, endRow) ← parseMetadataRow record.row
  let previous ←
    match record.get? previousRowColumn with
    | some previous => .ok previous
    | none => .error (.noPreviousRow record.row)
  let previousEndRow ← decodePreviousRow previous
  let availability ← readAvailability record
  let operation ← readOperation record
  return { extent := ⟨table, endRow, previousEndRow⟩, availability, operation }

end Metadata

end GuardedRows.Tablet
