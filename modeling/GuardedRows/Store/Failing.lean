import GuardedRows.Store.Basic

/-!
# Failing stores

A store around another one whose coming calls can be made to fail. A failing call does not
reach the inner store.
-/

set_option autoImplicit false

namespace GuardedRows

/-- A store and the failures waiting for its calls, each list in the order of the calls
that meet them. -/
structure Failing (σ : Type) where
  inner : σ
  submitFailures : List Error := []
  readFailures : List Error := []
  scanFailures : List Error := []
  rowFailures : List (Nat × Error) := []

inductive StoreCall where
  | submit
  | read
  | scan
  | scanRow (after : Nat)
  deriving DecidableEq

namespace Failing

variable {σ : Type}

def addFailure (store : Failing σ) (call : StoreCall) (failure : Error) : Failing σ :=
  match call with
  | .submit => { store with submitFailures := store.submitFailures ++ [failure] }
  | .read => { store with readFailures := store.readFailures ++ [failure] }
  | .scan => { store with scanFailures := store.scanFailures ++ [failure] }
  | .scanRow after => { store with rowFailures := store.rowFailures ++ [(after, failure)] }

def lift {α : Type} (step : StoreStep σ α) : StoreStep (Failing σ) α := fun store =>
  match step store.inner with
  | .ok value inner => .ok value { store with inner }
  | .error error inner => .error error { store with inner }

/-- Puts a failure behind the first rows of a scan. A scan with too few rows is left as it
is. -/
def interrupt {α : Type} (after : Nat) (failure : Error) (rows : List (Except Error α)) :
    List (Except Error α) :=
  if rows.length < after then rows else rows.take after ++ .error failure :: rows.drop after

def interruptNext {α : Type} (rows : List (Except Error α)) :
    StoreStep (Failing σ) (List (Except Error α)) := fun store =>
  match store.rowFailures with
  | [] => .ok rows store
  | (after, failure) :: rowFailures =>
      .ok (interrupt after failure rows) { store with rowFailures }

instance [RowStore σ] : RowStore (Failing σ) where
  submit mutation := fun store =>
    match store.submitFailures with
    | [] => lift (RowStore.submit mutation) store
    | failure :: submitFailures => .error failure { store with submitFailures }
  read row := fun store =>
    match store.readFailures with
    | [] => lift (RowStore.read row) store
    | failure :: readFailures => .error failure { store with readFailures }
  scan range := fun store =>
    match store.scanFailures with
    | [] => (lift (RowStore.scan range) >>= interruptNext) store
    | failure :: scanFailures => .error failure { store with scanFailures }

end Failing

end GuardedRows
