import GuardedRows.Store.Basic

/-!
# Stores in memory

A store that keeps its rows in a sorted map and never fails. It counts the mutations it
accepted and rejected, and it can be told to hide what becomes of coming mutations.
-/

set_option autoImplicit false

namespace GuardedRows

/-- What goes wrong with a mutation although its sender only learns that the outcome is
unknown. -/
inductive Fault where
  | applied
  /-- The mutation is dropped unseen. -/
  | dropped
  deriving DecidableEq

/-- Rows in memory, the faults that wait for the next mutations, and how many mutations were
accepted and rejected. The two counts have no bound: counters of 64 bits, which start again
after the last number, show the same as long as fewer than `2 ^ 64` mutations were counted. -/
structure Memory where
  rows : SortedMap String Record := .empty
  faults : List Fault := []
  accepted : Nat := 0
  rejected : Nat := 0

namespace Memory

def empty : Memory := {}

instance : Inhabited Memory := ⟨empty⟩

def addFault (store : Memory) (fault : Fault) : Memory :=
  { store with faults := store.faults ++ [fault] }

def read (store : Memory) (row : String) : Option Record := store.rows.get? row

def setRow (store : Memory) (row : String) : Option Record → Memory
  | some record => { store with rows := store.rows.insert row record }
  | none => { store with rows := store.rows.erase row }

def apply (store : Memory) (mutation : Mutation) : Outcome × Memory :=
  let current := store.read mutation.row
  if mutation.conditionsHold current then
    let store := store.setRow mutation.row (mutation.applyTo current)
    (.accepted, { store with accepted := store.accepted + 1 })
  else
    (.rejected, { store with rejected := store.rejected + 1 })

/-- Takes a mutation, which meets the first of the waiting faults. -/
def submit (store : Memory) (mutation : Mutation) : Outcome × Memory :=
  match store.faults with
  | [] => store.apply mutation
  | .applied :: faults => (.unknown, ({ store with faults }.apply mutation).2)
  | .dropped :: faults => (.unknown, { store with faults })

def scan (store : Memory) (range : ScanRange) : List Record :=
  (store.rows.range range.start range.stop).map Prod.snd

def size (store : Memory) : Nat := store.rows.size

def isEmpty (store : Memory) : Bool := store.rows.isEmpty

instance : RowStore Memory where
  submit mutation := fun store =>
    let (outcome, store) := store.submit mutation
    .ok outcome store
  read row := fun store => .ok (store.read row) store
  scan range := fun store => .ok ((store.scan range).map .ok) store

end Memory

end GuardedRows
