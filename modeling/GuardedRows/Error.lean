import GuardedRows.Config
import GuardedRows.Mutation
import GuardedRows.Tablet.Extent
import GuardedRows.Tx.Edit

/-!
# Errors

An error is its cause. Its kind and its message are read off the cause, and the few parts
of a message that are not fixed are left to a wording.
-/

set_option autoImplicit false

namespace GuardedRows

inductive Tx.Act where
  | push (position : UInt32)
  | pop (position : UInt32)
  | setStatus (status : Tx.Status)
  | setInfo (info : Tx.Info)
  | delete
  | unreserve
  deriving DecidableEq

def Tx.Act.text : Tx.Act → String
  | .push position => "push at position " ++ Text.decimal position.toNat
  | .pop position => "pop at position " ++ Text.decimal position.toNat
  | .setStatus status => "set status " ++ status.text
  | .setInfo info => "set " ++ info.label
  | .delete => "delete"
  | .unreserve => "unreserve"

inductive Refusal where
  | noWrites (row : String)
  | notAccepted (row : String) (outcome : Outcome)
  | editsNotAccepted (transaction : Tx.Id) (edits : List Tx.Edit) (outcome : Outcome)
  | notCreated (transaction : Tx.Id) (outcome : Outcome)
  | missing (transaction : Tx.Id)
  | actNotAccepted (transaction : Tx.Id) (act : Tx.Act) (outcome : Outcome)
  | emptyStack (transaction : Tx.Id)
  | noTabletWrites (extent : Tablet.Extent)
  | repeatedTablet (extent : Tablet.Extent)
  | notPending (extent : Tablet.Extent)
  | endsBeforeScan (extent : Tablet.Extent) (row : String)
  deriving DecidableEq

def Refusal.text : Refusal → String
  | .noWrites row => "mutation for row " ++ row ++ " has no writes"
  | .notAccepted row outcome =>
      "conditional mutation on row " ++ row ++ " was " ++ outcome.text
  | .editsNotAccepted transaction edits outcome =>
      transaction.text ++ ": mutation [" ++ Tx.Edit.describeAll edits ++ "] was " ++
        outcome.text
  | .notCreated transaction outcome =>
      "failed to create " ++ transaction.text ++ ": " ++ outcome.text
  | .missing transaction => transaction.text ++ " does not exist"
  | .actNotAccepted transaction act outcome =>
      transaction.text ++ ": " ++ act.text ++ " was " ++ outcome.text
  | .emptyStack transaction => transaction.text ++ ": nothing to pop"
  | .noTabletWrites extent => "mutation for " ++ extent.text ++ " has no writes"
  | .repeatedTablet extent => "attempted to add second mutation for " ++ extent.text
  | .notPending extent => "no pending mutation for " ++ extent.text
  | .endsBeforeScan extent row =>
      "bug: tablet " ++ extent.text ++ " ends before scan start " ++ row

inductive ErrorKind where
  | illegalState
  | storage
  | serialization
  | dump
  | tableOffline
  | stackOverflow
  | timeout
  | invalidId
  | other
  deriving DecidableEq

namespace ErrorKind

def all : List ErrorKind :=
  [.illegalState, .storage, .serialization, .dump, .tableOffline, .stackOverflow, .timeout,
    .invalidId, .other]

def name : ErrorKind → String
  | .illegalState => "IllegalState"
  | .storage => "StorageError"
  | .serialization => "SerializationError"
  | .dump => "ArrowError"
  | .tableOffline => "TableOffline"
  | .stackOverflow => "StackOverflow"
  | .timeout => "Timeout"
  | .invalidId => "InvalidId"
  | .other => "Other"

end ErrorKind

inductive Error where
  | described (kind : ErrorKind) (text : String)
  | malformed (cause : Malformed)
  | refused (cause : Refusal)
  | undecodable
  | flawed (flaw : Config.Flaw)
  | tableOffline (table description : String)
  | stackOverflow (transaction : String) (limit : UInt32)
  | timeout (waited : Duration) (what : String)
  deriving DecidableEq

structure Wording where
  duration : Duration → String
  undecodable : String
  uuid : String
  utf8 : String

def Wording.plain : Wording where
  duration := Duration.text
  undecodable := "malformed bytes"
  uuid := "malformed UUID"
  utf8 := "invalid UTF-8"

/-- The kind of a malformed text. Names of ids and metadata rows are identifiers. -/
def Malformed.kind : Malformed → ErrorKind
  | .instanceName _ | .uuid _ | .transactionId _ | .lockId _ | .reservation _
  | .operationId _ | .operationKind _ | .metadataRow _ => .invalidId
  | .noPreviousRow _ => .illegalState
  | .status _ | .stepQualifier _ | .previousRowText | .previousRowTag | .availability _ =>
      .other

def Malformed.text (wording : Wording) : Malformed → String
  | .instanceName text => "unknown instance type " ++ text
  | .uuid text => text ++ ": " ++ wording.uuid
  | .transactionId text => "not a FATE id: " ++ text
  | .lockId text => "not a lock id: " ++ text
  | .reservation text => "not a reservation: " ++ text
  | .status text => "unknown transaction status " ++ text
  | .stepQualifier qualifier => "bad repo qualifier " ++ qualifier
  | .operationId text => "not an operation id: " ++ text
  | .operationKind text => "unknown operation type " ++ text
  | .metadataRow row => "not a metadata row: " ++ row
  | .noPreviousRow row => "tablet " ++ row ++ " has no prev row"
  | .previousRowText => "bad prev row: " ++ wording.utf8
  | .previousRowTag => "bad prev row encoding"
  | .availability text => "unknown tablet availability " ++ text

def ErrorKind.describe (text : String) : ErrorKind → String
  | .illegalState => "Illegal state: " ++ text
  | .storage => "Storage error: " ++ text
  | .serialization => "Serialization error: " ++ text
  | .dump => "Arrow manipulation error: " ++ text
  | .invalidId => "Invalid identifier: " ++ text
  | .other => "Other error: " ++ text
  | .tableOffline | .stackOverflow | .timeout => text

namespace Error

def kind : Error → ErrorKind
  | .described kind _ => kind
  | .malformed cause => cause.kind
  | .refused _ => .illegalState
  | .undecodable => .serialization
  | .flawed _ => .other
  | .tableOffline _ _ => .tableOffline
  | .stackOverflow _ _ => .stackOverflow
  | .timeout _ _ => .timeout

def describe (wording : Wording) : Error → String
  | .described kind text => kind.describe text
  | .malformed cause => cause.kind.describe (cause.text wording)
  | .refused cause => ErrorKind.illegalState.describe cause.text
  | .undecodable => ErrorKind.serialization.describe wording.undecodable
  | .flawed flaw => ErrorKind.other.describe flaw.text
  | .tableOffline table description =>
      "Table " ++ table ++ " is not online: " ++ description
  | .stackOverflow transaction limit =>
      "Repo stack for " ++ transaction ++ " is too large, max is " ++ Text.decimal limit.toNat
  | .timeout waited what =>
      "Timed out after " ++ wording.duration waited ++ " waiting for " ++ what

def message : Error → String := describe .plain

end Error

def ofReading {α : Type} (read : Except Malformed α) : Except Error α :=
  read.mapError .malformed

end GuardedRows
