import GuardedRows.Error
import GuardedRows.SortedMap.Basic

/-!
# Row stores

A row store takes guarded mutations one at a time and answers reads and scans. An operation
on a store is a step on the store's state that may fail; a failed step leaves whatever it
did before it failed. There are three ways to send a mutation.
-/

set_option autoImplicit false

namespace GuardedRows

/-! ## Scan ranges

The rows a scan asks for, and which rows lie outside on either side.
-/

structure ScanRange where
  start : Bound String
  stop : Bound String
  deriving DecidableEq

namespace ScanRange

def all : ScanRange := ⟨.unbounded, .unbounded⟩

def closed (first last : String) : ScanRange := ⟨.inclusive first, .inclusive last⟩

def isBeforeStart (range : ScanRange) (row : String) : Bool :=
  match range.start with
  | .unbounded => false
  | .inclusive first => row < first
  | .exclusive first => row ≤ first

def isPastEnd (range : ScanRange) (row : String) : Bool :=
  match range.stop with
  | .unbounded => false
  | .inclusive last => last < row
  | .exclusive last => last ≤ row

end ScanRange

/-! ## Stores -/

abbrev StoreStep (σ : Type) := EStateM Error σ

class RowStore (σ : Type) where
  /-- Checks a mutation and applies it. The outcome is unknown when the store cannot tell;
  a failure means that the mutation was certainly not attempted. -/
  submit : Mutation → StoreStep σ Outcome
  read : String → StoreStep σ (Option Record)
  /-- The rows in a range in ascending order, with a failure in place of a row that could
  not be had. -/
  scan : ScanRange → StoreStep σ (List (Except Error Record))

def StoreStep.outcome {σ α : Type} (step : StoreStep σ α) : StoreStep σ (Except Error α) :=
  fun store =>
    match step store with
    | .ok value store => .ok (.ok value) store
    | .error error store => .ok (.error error) store

def StoreStep.ofExcept {σ α : Type} : Except Error α → StoreStep σ α
  | .ok value => pure value
  | .error error => throw error

/-! ## Attempts at a mutation

A sender takes whatever outcome the store reports, insists that it is accepted, or settles
an unknown outcome by reading the row again. None of them sends a mutation without writes.
-/

/-- How a mutation came out once an unknown outcome has been settled. -/
structure Settlement (α : Type) where
  outcome : Outcome
  /-- What was read to settle the outcome. Nothing is read for a known outcome. -/
  seen : Option (Option α)
  deriving DecidableEq

namespace Mutation

variable {σ : Type} [RowStore σ]

def attempt (mutation : Mutation) : StoreStep σ Outcome :=
  if mutation.hasWrites then RowStore.submit mutation
  else throw (.refused (.noWrites mutation.row))

def enforce (mutation : Mutation) : StoreStep σ Unit := do
  match ← mutation.attempt with
  | .accepted => pure ()
  | outcome => throw (.refused (.notAccepted mutation.row outcome))

/-- Sends a mutation, and reads the row again if the outcome is unknown. The verifier says
of the row as it is now whether the mutation looks applied. -/
def settle (mutation : Mutation) (verifier : Option Record → Bool) :
    StoreStep σ (Settlement Record) := do
  match ← mutation.attempt with
  | .unknown =>
      let current ← RowStore.read mutation.row
      return ⟨if verifier current then .accepted else .rejected, some current⟩
  | outcome => return ⟨outcome, none⟩

end Mutation

end GuardedRows
