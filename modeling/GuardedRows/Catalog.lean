import GuardedRows.SortedMap.Basic
import GuardedRows.Tablet.Extent
import GuardedRows.Tx.Id

/-!
# The catalog

What table operations need to know beyond tablets: the state of every table, and the locks
on tables and namespaces that transactions hold while they work.
-/

set_option autoImplicit false

namespace GuardedRows

inductive TableState where
  | new
  | online
  | offline
  | deleting
  | unknown
  deriving DecidableEq

namespace TableState

def all : List TableState := [.new, .online, .offline, .deleting, .unknown]

def text : TableState → String
  | .new => "NEW"
  | .online => "ONLINE"
  | .offline => "OFFLINE"
  | .deleting => "DELETING"
  | .unknown => "UNKNOWN"

def label : TableState → String
  | .new => "New"
  | .online => "Online"
  | .offline => "Offline"
  | .deleting => "Deleting"
  | .unknown => "Unknown"

end TableState

inductive LockKind where
  | read
  | write
  deriving DecidableEq

def LockKind.text : LockKind → String
  | .read => "READ"
  | .write => "WRITE"

structure Hold (κ : Type) where
  subject : κ
  holder : Tx.Id
  deriving DecidableEq

namespace Hold

variable {κ : Type} [Ord κ]

instance : Ord (Hold κ) := ⟨compareLex (compareOn subject) (compareOn holder)⟩

instance [Std.TransOrd κ] : Std.TransOrd (Hold κ) :=
  inferInstanceAs (Std.TransCmp
    (compareLex (compareOn (@Hold.subject κ)) (compareOn (@Hold.holder κ))))

instance [Std.TransOrd κ] [Std.LawfulEqOrd κ] : Std.LawfulEqOrd (Hold κ) where
  eq_of_compare {left right} order := by
    obtain ⟨subject, holder⟩ := compareLex_eq_eq.mp order
    cases left
    cases right
    cases (Std.LawfulEqOrd.eq_of_compare subject : _ = _)
    cases (Std.LawfulEqOrd.eq_of_compare holder : _ = _)
    rfl

end Hold

abbrev Locks (κ : Type) [Ord κ] := SortedMap (Hold κ) LockKind

/-- Gives a lock back, provided it is held in just this way. -/
def Locks.release {κ : Type} [Ord κ] (locks : Locks κ) (hold : Hold κ) (kind : LockKind) :
    Locks κ :=
  if locks.get? hold = some kind then locks.erase hold else locks

structure Catalog where
  states : SortedMap TableId TableState := .empty
  tableLocks : Locks TableId := .empty
  namespaceLocks : Locks NamespaceId := .empty

namespace Catalog

instance : Inhabited Catalog := ⟨{}⟩

/-- The state of a table. A table nobody has heard of is in an unknown state. -/
def tableState (catalog : Catalog) (table : TableId) : TableState :=
  (catalog.states.get? table).getD .unknown

def setTableState (catalog : Catalog) (table : TableId) (state : TableState) : Catalog :=
  { catalog with states := catalog.states.insert table state }

def lockTable (catalog : Catalog) (table : TableId) (holder : Tx.Id) (kind : LockKind) :
    Catalog :=
  { catalog with tableLocks := catalog.tableLocks.insert ⟨table, holder⟩ kind }

def lockNamespace (catalog : Catalog) (space : NamespaceId) (holder : Tx.Id)
    (kind : LockKind) : Catalog :=
  { catalog with namespaceLocks := catalog.namespaceLocks.insert ⟨space, holder⟩ kind }

def unlockTable (catalog : Catalog) (table : TableId) (holder : Tx.Id) (kind : LockKind) :
    Catalog :=
  { catalog with tableLocks := Locks.release catalog.tableLocks ⟨table, holder⟩ kind }

def unlockNamespace (catalog : Catalog) (space : NamespaceId) (holder : Tx.Id)
    (kind : LockKind) : Catalog :=
  { catalog with namespaceLocks := Locks.release catalog.namespaceLocks ⟨space, holder⟩ kind }

def tableLock (catalog : Catalog) (table : TableId) (holder : Tx.Id) : Option LockKind :=
  catalog.tableLocks.get? ⟨table, holder⟩

def namespaceLock (catalog : Catalog) (space : NamespaceId) (holder : Tx.Id) :
    Option LockKind :=
  catalog.namespaceLocks.get? ⟨space, holder⟩

end Catalog

end GuardedRows
