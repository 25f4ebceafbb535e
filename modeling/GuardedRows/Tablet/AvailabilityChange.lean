import GuardedRows.Catalog
import GuardedRows.KeyRange
import GuardedRows.Poller
import GuardedRows.Tablet.Batch

/-!
# Changing the availability of tablets

A change sets the availability of every tablet of a table that shares keys with a range. It
works in passes: a pass submits the change for each such tablet that does not have the
target yet, and asks to be run again while some tablet could not be changed, usually
because another operation has claimed it.
-/

set_option autoImplicit false

namespace GuardedRows.Tablet

structure AvailabilityChange where
  table : TableId
  space : NamespaceId
  range : RowRange
  availability : Availability
  deriving DecidableEq

namespace AvailabilityChange

def name : String := "SetTabletAvailability"

def scanStart (change : AvailabilityChange) : Option String := change.range.start.map Key.row

def endsBeforeScan (change : AvailabilityChange) (tablet : Metadata) : Option String :=
  match change.scanStart, tablet.extent.endRow with
  | some start, some endRow => if endRow < start then some start else none
  | _, _ => none

/-- Whether a tablet begins behind the range: the first key after the tablet before it is
past the end. -/
def beginsPastEnd (change : AvailabilityChange) (tablet : Metadata) : Bool :=
  tablet.extent.previousEndRow.any fun previous =>
    change.range.afterEnd (Key.firstOf previous).followingRow

def edits (change : AvailabilityChange) : List Edit :=
  [.requireNoOperation, .putAvailability change.availability]

def isDone (change : AvailabilityChange) (tablet : Metadata) : Bool :=
  tablet.availability = some change.availability

variable {σ : Type} [RowStore σ]

/-- Notes an outcome. A tablet that was not changed is read again to see what claims it,
whether or not that works. -/
def note : Consumer σ Outcome := fun extent outcome store =>
  match outcome with
  | .accepted => (outcome, store)
  | _ =>
      match (find extent).outcome store with
      | .ok _ store => (outcome, store)
      | .error _ store => (outcome, store)

/-- Goes through scanned tablets in order and submits what has to be changed. The first
tablet behind the range ends the pass, and so does one that does not read. -/
def visit (change : AvailabilityChange) :
    List (Except Error Metadata) → BatchStep σ Outcome Unit
  | [] => pure ()
  | .error error :: _ => throw error
  | .ok tablet :: rest =>
      match change.endsBeforeScan tablet with
      | some start => throw (.refused (.endsBeforeScan tablet.extent start))
      | none =>
          if change.beginsPastEnd tablet then pure ()
          else if change.isDone tablet then visit change rest
          else do
            Batch.submit note false tablet.extent change.edits change.isDone
            visit change rest

def pass (change : AvailabilityChange) : StoreStep σ (List Outcome) := do
  let tablets ← overlapping change.table change.scanStart
  Batch.run note (change.visit tablets)

/-- Runs a pass on an online table. The answer is zero if nothing is left to change, and
otherwise how many milliseconds to wait before the next pass, given how long this one
took. -/
def isReady (change : AvailabilityChange) (catalog : Catalog) (config : Config)
    (elapsed : Duration) : StoreStep σ UInt64 := do
  let state := catalog.tableState change.table
  if state ≠ .online then
    throw (.tableOffline change.table.text
      ("table is " ++ state.label ++ ", cannot set tablet availability"))
  let outcomes ← change.pass
  return if outcomes.all (· = .accepted) then 0 else config.waitHint elapsed

def waitUntilReady (change : AvailabilityChange) (holder : Tx.Id) (catalog : Catalog)
    (config : Config) (passTime : Duration) : StoreStep σ Nat :=
  Timed.run ((Poller.ofConfig config).poll Timed.clock (holder.text ++ " " ++ name)
    (Timed.spend passTime (change.isReady catalog config passTime)))

/-- Ends the change: its transaction gives back the namespace and the table. No step
follows. -/
def call (change : AvailabilityChange) (holder : Tx.Id) (catalog : Catalog) : Catalog :=
  (catalog.unlockNamespace change.space holder .read).unlockTable change.table holder .write

end AvailabilityChange

end GuardedRows.Tablet
