import GuardedRows.Mutation
import GuardedRows.Tx.Columns
import GuardedRows.Tx.Id
import GuardedRows.Tx.Reservation
import GuardedRows.Tx.Status

/-!
# Edits of a transaction

A mutation of a transaction is a list of edits. Each edit adds its condition, its write or
both, and nothing is implied between columns: a change of status does not ask for a
reservation unless an edit of the same list does.
-/

set_option autoImplicit false

namespace GuardedRows.Tx

inductive Edit where
  /-- The status is one of these. No status at all is asked for by the empty list. -/
  | requireStatus (statuses : List Status)
  | requireAbsent
  | requireUnreserved
  | requireReserved (reservation : Reservation)
  | putStatus (status : Status)
  | putCreateTime (milliseconds : UInt64)
  | putInfo (info : Info) (value : String)
  /-- Stores a step where none is stored. Recorded steps do not change. -/
  | putStep (position : UInt32) (step : Bytes)
  | deleteStep (position : UInt32)
  /-- Takes an unreserved transaction, even from a worker that holds it already. -/
  | reserve (reservation : Reservation)
  | release (reservation : Reservation)
  | delete
  deriving DecidableEq

namespace Edit

def putAutoClean (autoClean : Bool) : Edit :=
  .putInfo .autoClean (if autoClean then "true" else "false")

def conditions : Edit → List Condition
  | .requireStatus [] => [.absent statusColumn]
  | .requireStatus statuses =>
      [.oneOf statusColumn (statuses.map fun status => Bytes.ofText status.text)]
  | .requireAbsent => [.rowAbsent]
  | .requireUnreserved => [.absent reservationColumn]
  | .requireReserved reservation =>
      [.equals reservationColumn (Bytes.ofText reservation.text)]
  | .putStep position _ => [.absent (stepColumn position)]
  | .reserve _ => [.absent reservationColumn]
  | .release reservation => [.equals reservationColumn (Bytes.ofText reservation.text)]
  | .putStatus _ | .putCreateTime _ | .putInfo _ _ | .deleteStep _ | .delete => []

def writes : Edit → List Write
  | .putStatus status => [.put statusColumn (Bytes.ofText status.text)]
  | .putCreateTime milliseconds =>
      [.put createTimeColumn (Bytes.ofText (Text.decimal milliseconds.toNat))]
  | .putInfo info value => [.put info.column (Bytes.ofText value)]
  | .putStep position step => [.put (stepColumn position) step]
  | .deleteStep position => [.delete (stepColumn position)]
  | .reserve reservation => [.put reservationColumn (Bytes.ofText reservation.text)]
  | .release _ => [.delete reservationColumn]
  | .delete => [.deleteRow]
  | .requireStatus _ | .requireAbsent | .requireUnreserved | .requireReserved _ => []

def describe : Edit → String
  | .requireStatus [] => "require status absent"
  | .requireStatus statuses =>
      "require status in [" ++ String.intercalate ", " (statuses.map Status.label) ++ "]"
  | .requireAbsent => "require absent"
  | .requireUnreserved => "require unreserved"
  | .requireReserved reservation => "require reserved by " ++ reservation.text
  | .putStatus status => "put status " ++ status.text
  | .putCreateTime milliseconds => "put create time " ++ Text.decimal milliseconds.toNat
  | .putInfo info _ => "put " ++ info.label
  | .putStep position _ =>
      "put repo at position " ++ Text.decimal position.toNat ++ " (must be absent)"
  | .deleteStep position => "delete repo at position " ++ Text.decimal position.toNat
  | .reserve reservation => "reserve with " ++ reservation.text
  | .release reservation => "unreserve " ++ reservation.text
  | .delete => "delete"

def describeAll (edits : List Edit) : String := String.intercalate ", " (edits.map describe)

def mutation (id : Id) (edits : List Edit) : Mutation where
  row := id.text
  conditions := edits.flatMap conditions
  writes := edits.flatMap writes

end Edit

end GuardedRows.Tx
