import GuardedRows.Codec.Basic
import GuardedRows.Config
import GuardedRows.Tablet.AvailabilityChange

/-!
# Stored values

The binary form of everything that is stored or sent: a value is its fields in order.
-/

set_option autoImplicit false

namespace GuardedRows

open Codec

/-! ## Records -/

instance : Codec Column where
  write column := write (column.family, column.qualifier)
  read := readMap fun (fields : String × String) => ⟨fields.1, fields.2⟩

/-- A record is its row and the list of its cells. A column that is given twice has the
later value. -/
instance : Codec Record where
  write record := write record.row ++ writeList record.toList
  read := do
    let row ← read
    let cells ← readList
    return .ofList row cells

/-! ## Transactions -/

namespace Tx

instance : Codec Instance where
  write := writeAlternative [.system, .user]
  read := alternative [.system, .user]

instance : Codec Id where
  write id := write (id.home, id.uuid)
  read := readMap fun (fields : Instance × Uuid) => ⟨fields.1, fields.2⟩

instance : Codec Status where
  write := writeAlternative Status.all
  read := alternative Status.all

instance : Codec LockId where
  write lock := write (lock.path, lock.node, lock.session)
  read := readMap fun (fields : String × String × UInt64) =>
    ⟨fields.1, fields.2.1, fields.2.2⟩

instance : Codec Reservation where
  write reservation := write (reservation.lock, reservation.uuid)
  read := readMap fun (fields : LockId × Uuid) => ⟨fields.1, fields.2⟩

structure NamedStep where
  name : String
  deriving DecidableEq

instance : Codec NamedStep where
  write step := write step.name
  read := readMap NamedStep.mk

end Tx

/-! ## Keys and tablets -/

instance : Codec Key where
  write key := write (key.row, key.family, key.qualifier)
  read := readMap fun (fields : String × String × String) =>
    ⟨fields.1, fields.2.1, fields.2.2⟩

instance : Codec RowRange where
  write range := write (range.start, range.startInclusive, range.stop, range.stopInclusive)
  read := readMap fun (fields : Option Key × Bool × Option Key × Bool) =>
    ⟨fields.1, fields.2.1, fields.2.2.1, fields.2.2.2⟩

instance : Codec TableId where
  write table := write table.text
  read := readMap TableId.mk

instance : Codec NamespaceId where
  write space := write space.text
  read := readMap NamespaceId.mk

namespace Tablet

instance : Codec Extent where
  write extent := write (extent.table, extent.endRow, extent.previousEndRow)
  read := readMap fun (fields : TableId × Option String × Option String) =>
    ⟨fields.1, fields.2.1, fields.2.2⟩

instance : Codec OperationKind where
  write := writeAlternative [.splitting, .merging, .deleting]
  read := alternative [.splitting, .merging, .deleting]

instance : Codec OperationId where
  write operation := write (operation.kind, operation.transaction)
  read := readMap fun (fields : OperationKind × Tx.Id) => ⟨fields.1, fields.2⟩

instance : Codec Availability where
  write := writeAlternative [.hosted, .onDemand, .unhosted]
  read := alternative [.hosted, .onDemand, .unhosted]

instance : Codec AvailabilityChange where
  write change := write (change.table, change.space, change.range, change.availability)
  read := readMap fun (fields : TableId × NamespaceId × RowRange × Availability) =>
    ⟨fields.1, fields.2.1, fields.2.2.1, fields.2.2.2⟩

end Tablet

/-! ## Configuration -/

instance : Codec Config where
  write config :=
    write (config.maxSteps, config.maxWaitHint, config.minWaitHint, config.readinessTimeout,
      config.readinessMaxDelay)
  read := readMap fun (fields : UInt32 × UInt64 × UInt64 × UInt64 × UInt64) => {
    maxSteps := fields.1
    maxWaitHint := fields.2.1
    minWaitHint := fields.2.2.1
    readinessTimeout := fields.2.2.2.1
    readinessMaxDelay := fields.2.2.2.2 }

def Codec.decode {α : Type} [Codec α] (bytes : Bytes) : Except Error α :=
  match decode? bytes with
  | some value => .ok value
  | none => .error .undecodable

end GuardedRows
