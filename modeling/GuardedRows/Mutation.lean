import GuardedRows.Record

/-!
# Guarded mutations

A mutation is a list of conditions and a list of writes for one row. Its conditions are
checked against the row as it is when the mutation arrives, and either every write is
applied, in order, or none is.
-/

set_option autoImplicit false

namespace GuardedRows

inductive Condition where
  | absent (column : Column)
  | oneOf (column : Column) (values : List Bytes)
  | rowAbsent
  deriving DecidableEq

namespace Condition

def equals (column : Column) (value : Bytes) : Condition := .oneOf column [value]

/-- Whether the condition is true of a row, `none` standing for a row that does not exist. -/
def holds (current : Option Record) : Condition → Bool
  | .absent column => !current.any (·.contains column)
  | .oneOf column values => (current.bind (·.get? column)).any values.contains
  | .rowAbsent => current.all Record.isEmpty

end Condition

inductive Write where
  | put (column : Column) (value : Bytes)
  | delete (column : Column)
  | deleteRow
  deriving DecidableEq

def Write.applyTo (row : String) (record : Record) : Write → Record
  | .put column value => record.put column value
  | .delete column => record.remove column
  | .deleteRow => .blank row

inductive Outcome where
  | accepted
  | rejected
  /-- The mutation was applied or was not; only reading the row again can tell. -/
  | unknown
  deriving DecidableEq

def Outcome.text : Outcome → String
  | .accepted => "ACCEPTED"
  | .rejected => "REJECTED"
  | .unknown => "UNKNOWN"

structure Mutation where
  row : String
  conditions : List Condition
  writes : List Write
  deriving DecidableEq

namespace Mutation

def hasWrites (mutation : Mutation) : Bool := !mutation.writes.isEmpty

def conditionsHold (mutation : Mutation) (current : Option Record) : Bool :=
  mutation.conditions.all (·.holds current)

def written (mutation : Mutation) (current : Option Record) : Record :=
  mutation.writes.foldl (Write.applyTo mutation.row) (current.getD (.blank mutation.row))

/-- The row after all writes: a record without cells is no row. -/
def applyTo (mutation : Mutation) (current : Option Record) : Option Record :=
  let record := mutation.written current
  if record.isEmpty then none else some record

end Mutation

end GuardedRows
