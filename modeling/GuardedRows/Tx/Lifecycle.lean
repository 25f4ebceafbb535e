import GuardedRows.Store.Basic
import GuardedRows.Tx.Snapshot

/-!
# The life of a transaction

A transaction is created, reserved by a worker, worked on through the worker's handle and
at last deleted. Everything a handle changes is guarded by its reservation, so a worker
that lost its reservation changes nothing. UUIDs and clock readings come from the caller.
-/

set_option autoImplicit false

namespace GuardedRows.Tx

/-! ## Attempts at edits

The three ways to send a mutation, for the edits of a transaction. A verifier is shown the
transaction as its record reads now, and nothing if there is no record or it does not read.
-/

variable {σ : Type} [RowStore σ]

def readable (current : Option Record) : Option Snapshot :=
  current.bind fun record => (Snapshot.ofRecord record).toOption

namespace Edit

def attempt (id : Id) (edits : List Edit) : StoreStep σ Outcome := (mutation id edits).attempt

def enforce (id : Id) (edits : List Edit) : StoreStep σ Unit := do
  match ← attempt id edits with
  | .accepted => pure ()
  | outcome => throw (.refused (.editsNotAccepted id edits outcome))

def settle (id : Id) (edits : List Edit) (verifier : Option Snapshot → Bool) :
    StoreStep σ (Settlement Snapshot) := do
  let settled ← (mutation id edits).settle fun current => verifier (readable current)
  return ⟨settled.outcome, settled.seen.map readable⟩

end Edit

/-! ## Transactions as a whole -/

def create (home : Instance) (drawn : Uuid) (now : UInt64) : StoreStep σ Id := do
  let id : Id := ⟨home, drawn⟩
  let settled ← Edit.settle id [.requireAbsent, .putStatus .new, .putCreateTime now]
    fun current => current.any (·.status = some .new)
  match settled.outcome with
  | .accepted => return id
  | outcome => throw (.refused (.notCreated id outcome))

def find (id : Id) : StoreStep σ (Option Snapshot) := do
  match ← RowStore.read id.text with
  | none => return none
  | some record => return some (← StoreStep.ofExcept (ofReading (Snapshot.ofRecord record)))

def readAll : List (Except Error Record) → Except Error (List Snapshot)
  | [] => .ok []
  | .error error :: _ => .error error
  | .ok record :: rest => do
      let snapshot ← ofReading (Snapshot.ofRecord record)
      let snapshots ← readAll rest
      return snapshot :: snapshots

/-- Every transaction in row order. One row that does not read fails the whole list. -/
def list : StoreStep σ (List Snapshot) := do
  let rows ← RowStore.scan .all
  StoreStep.ofExcept (readAll rows)

/-! ## Reserved transactions -/

structure Handle where
  transaction : Id
  reservation : Reservation
  deriving DecidableEq

/-- Reserves a transaction for a lock. There is no handle if the transaction does not exist
or is reserved. -/
def tryReserve (id : Id) (lock : LockId) (drawn : Uuid) : StoreStep σ (Option Handle) := do
  let reservation : Reservation := ⟨lock, drawn⟩
  let settled ← Edit.settle id [.requireStatus Status.all, .reserve reservation]
    fun current => current.any (·.reservation = some reservation)
  match settled.outcome with
  | .accepted => return some ⟨id, reservation⟩
  | _ => return none

namespace Handle

def read (handle : Handle) : StoreStep σ Snapshot := do
  match ← find handle.transaction with
  | some snapshot => return snapshot
  | none => throw (.refused (.missing handle.transaction))

def expectAccepted (handle : Handle) (act : Act) : Outcome → StoreStep σ Unit
  | .accepted => pure ()
  | outcome => throw (.refused (.actNotAccepted handle.transaction act outcome))

def guarded (handle : Handle) (edits : List Edit) : List Edit :=
  .requireReserved handle.reservation :: edits

def status (handle : Handle) : StoreStep σ (Option Status) := do
  return (← handle.read).status

def top (handle : Handle) : StoreStep σ (Option Bytes) := do
  return (← handle.read).top?

/-- Where the next step goes. There is no place on a stack of `limit` steps, nor above the
greatest position. -/
def nextPosition (limit : UInt32) (snapshot : Snapshot) : Option UInt32 :=
  if limit.toNat ≤ snapshot.steps.length then none
  else
    match snapshot.topPosition with
    | none => some 1
    | some top => if top = lastPosition then none else some (top + 1)

/-- Puts a step on top of the stack of a transaction that is new or in progress. -/
def push (handle : Handle) (limit : UInt32) (step : Bytes) : StoreStep σ Unit := do
  let snapshot ← handle.read
  match nextPosition limit snapshot with
  | none => throw (.stackOverflow handle.transaction.text limit)
  | some position =>
      let settled ← Edit.settle handle.transaction
        (handle.guarded [.requireStatus [.new, .inProgress], .putStep position step])
        fun current => current.any (·.steps.any (·.1 = position))
      handle.expectAccepted (.push position) settled.outcome

/-- Takes the top step off the stack of a transaction that is done or being undone. -/
def pop (handle : Handle) : StoreStep σ Unit := do
  let snapshot ← handle.read
  match snapshot.topPosition with
  | none => throw (.refused (.emptyStack handle.transaction))
  | some position =>
      let settled ← Edit.settle handle.transaction
        (handle.guarded [.requireStatus [.failedInProgress, .successful], .deleteStep position])
        fun current => current.any (·.steps.all (·.1 ≠ position))
      handle.expectAccepted (.pop position) settled.outcome

def setStatus (handle : Handle) (status : Status) : StoreStep σ Unit := do
  let settled ← Edit.settle handle.transaction (handle.guarded [.putStatus status])
    fun current => current.any (·.status = some status)
  handle.expectAccepted (.setStatus status) settled.outcome

/-- Stores a detail. An unknown outcome is not settled. -/
def setInfo (handle : Handle) (info : Info) (value : String) : StoreStep σ Unit := do
  let outcome ← Edit.attempt handle.transaction (handle.guarded [.putInfo info value])
  handle.expectAccepted (.setInfo info) outcome

/-- Removes a transaction that is not being worked on, its reservation included. -/
def delete (handle : Handle) : StoreStep σ Unit := do
  let settled ← Edit.settle handle.transaction
    (handle.guarded [.requireStatus [.new, .submitted, .successful, .failed], .delete])
    fun current => current.isNone
  handle.expectAccepted .delete settled.outcome

def unreserve (handle : Handle) : StoreStep σ Unit := do
  let settled ← Edit.settle handle.transaction [.release handle.reservation]
    fun current => current.all (·.reservation ≠ some handle.reservation)
  handle.expectAccepted .unreserve settled.outcome

end Handle

/-! ## Dead reservations -/

structure Sweep where
  asked : List LockId
  released : Except Error Nat

/-- Releases the dead reservations among some transactions, one after another up to the
first failure. -/
def sweep (isLive : LockId → Bool) : List Snapshot → StoreStep σ Sweep
  | [] => return ⟨[], .ok 0⟩
  | snapshot :: rest =>
      match snapshot.reservation with
      | none => sweep isLive rest
      | some reservation => do
          if isLive reservation.lock then
            let others ← sweep isLive rest
            return { others with asked := reservation.lock :: others.asked }
          else
            match ← (Edit.attempt snapshot.id [.release reservation]).outcome with
            | .error error => return ⟨[reservation.lock], .error error⟩
            | .ok outcome =>
                let others ← sweep isLive rest
                return ⟨reservation.lock :: others.asked,
                  others.released.map (· + if outcome = .accepted then 1 else 0)⟩

/-- Releases every reservation whose lock is not live. Each release asks for the very
reservation that was read, so a transaction reserved again in the meantime is left alone. -/
def releaseDead (isLive : LockId → Bool) : StoreStep σ Sweep := do
  match ← list.outcome with
  | .error error => return ⟨[], .error error⟩
  | .ok snapshots => sweep isLive snapshots

end GuardedRows.Tx
