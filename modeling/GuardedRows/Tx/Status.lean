import GuardedRows.Text

/-!
# Transaction status

Where a transaction stands between its creation and its end.
-/

set_option autoImplicit false

namespace GuardedRows.Tx

inductive Status where
  | new
  | submitted
  | inProgress
  | failedInProgress
  | failed
  | successful
  /-- The record holds a status that has no name here. -/
  | unknown
  deriving DecidableEq

namespace Status

def all : List Status :=
  [.new, .submitted, .inProgress, .failedInProgress, .failed, .successful, .unknown]

def text : Status → String
  | .new => "NEW"
  | .submitted => "SUBMITTED"
  | .inProgress => "IN_PROGRESS"
  | .failedInProgress => "FAILED_IN_PROGRESS"
  | .failed => "FAILED"
  | .successful => "SUCCESSFUL"
  | .unknown => "UNKNOWN"

def label : Status → String
  | .new => "New"
  | .submitted => "Submitted"
  | .inProgress => "InProgress"
  | .failedInProgress => "FailedInProgress"
  | .failed => "Failed"
  | .successful => "Successful"
  | .unknown => "Unknown"

def isDone : Status → Bool
  | .failed | .successful => true
  | _ => false

def parse (text : String) : Except Malformed Status :=
  match all.find? (·.text = text) with
  | some status => .ok status
  | none => .error (.status text)

@[simp] theorem parse_text (status : Status) : parse status.text = .ok status := by
  cases status <;> rfl

end Status

end GuardedRows.Tx
