import GuardedRows.Tx.Columns
import GuardedRows.Tx.Id
import GuardedRows.Tx.Reservation
import GuardedRows.Tx.Status

/-!
# Snapshots of transactions

A snapshot is what a transaction record says, column by column. A record reads unless its
row is no transaction id, its reservation is malformed or the qualifier of a step is no
position. A status without a name reads as unknown, and a creation time that is no number
as absent.
-/

set_option autoImplicit false

namespace GuardedRows.Tx

structure Snapshot where
  id : Id
  status : Option Status
  reservation : Option Reservation
  createTime : Option UInt64
  name : Option String
  autoClean : Option Bool
  exception : Option String
  returnValue : Option String
  steps : List (UInt32 × Bytes)
  deriving DecidableEq

namespace Snapshot

/-- The status a stored name stands for. -/
def readStatus (text : String) : Status :=
  match Status.parse text with
  | .ok status => status
  | .error _ => .unknown

def readReservation (record : Record) : Except Malformed (Option Reservation) :=
  match record.text? reservationColumn with
  | none => .ok none
  | some text => (Reservation.parse text).map some

def readSteps : List (Column × Bytes) → Except Malformed (List (UInt32 × Bytes))
  | [] => .ok []
  | cell :: rest => do
      let position ← stepPosition cell.1.qualifier
      let steps ← readSteps rest
      return (position, cell.2) :: steps

/-- What a record says. The row is read first, then the reservation, then the steps. -/
def ofRecord (record : Record) : Except Malformed Snapshot := do
  let id ← Id.parse record.row
  let reservation ← readReservation record
  let steps ← readSteps (record.family stepFamily)
  return {
    id
    status := (record.text? statusColumn).map readStatus
    reservation
    createTime := (record.text? createTimeColumn).bind (Text.word64? 10)
    name := record.text? Info.name.column
    autoClean := (record.text? Info.autoClean.column).map (· = "true")
    exception := record.text? Info.exception.column
    returnValue := record.text? Info.returnValue.column
    steps }

def topPosition (snapshot : Snapshot) : Option UInt32 := snapshot.steps.head?.map Prod.fst

def step? (snapshot : Snapshot) (position : UInt32) : Option Bytes :=
  (snapshot.steps.find? (·.1 = position)).map Prod.snd

def top? (snapshot : Snapshot) : Option Bytes := snapshot.topPosition.bind snapshot.step?

end Snapshot

end GuardedRows.Tx
