import GuardedRows.Record
import GuardedRows.Text

/-!
# Columns of a transaction record

Every fact about a transaction has a column of its own, so that it can be required and
written apart from the others. Steps are kept one to a column, and the qualifier of a step
counts down from the greatest position: in column order the top of the stack comes first.
-/

set_option autoImplicit false

namespace GuardedRows.Tx

def factFamily : String := "tx"

def infoFamily : String := "txinfo"

def stepFamily : String := "repo"

def statusColumn : Column := ⟨factFamily, "status"⟩

def reservationColumn : Column := ⟨factFamily, "reservation"⟩

def createTimeColumn : Column := ⟨factFamily, "create_time"⟩

inductive Info where
  | name
  | autoClean
  | exception
  | returnValue
  deriving DecidableEq

namespace Info

def column : Info → Column
  | .name => ⟨infoFamily, "name"⟩
  | .autoClean => ⟨infoFamily, "auto_clean"⟩
  | .exception => ⟨infoFamily, "exception"⟩
  | .returnValue => ⟨infoFamily, "return_value"⟩

def label : Info → String
  | .name => "Name"
  | .autoClean => "AutoClean"
  | .exception => "Exception"
  | .returnValue => "ReturnValue"

end Info

def lastPosition : UInt32 := 0xFFFFFFFF

/-- The column of the step at a position: eight hexadecimal digits of the distance from the
greatest position. -/
def stepColumn (position : UInt32) : Column :=
  ⟨stepFamily, String.ofList (Bytes.bigEndian 4 (lastPosition - position).toNat).hex⟩

/-- The position a qualifier stands for. Any numeral of a 32-bit distance is read. -/
def stepPosition (qualifier : String) : Except Malformed UInt32 :=
  match Text.word32? 16 qualifier with
  | some distance => .ok (lastPosition - distance)
  | none => .error (.stepQualifier qualifier)

theorem lastPosition_sub_sub (position : UInt32) :
    lastPosition - (lastPosition - position) = position := by
  rw [UInt32.sub_eq_add_neg, UInt32.neg_sub, UInt32.add_comm, UInt32.sub_add_cancel]

theorem stepPosition_of_word32? {qualifier : String} {distance : UInt32}
    (read : Text.word32? 16 qualifier = some distance) :
    stepPosition qualifier = .ok (lastPosition - distance) := by
  simp only [stepPosition, read]

theorem word32?_qualifier_stepColumn (position : UInt32) :
    Text.word32? 16 (stepColumn position).qualifier = some (lastPosition - position) :=
  Text.word32?_hex_bigEndian (lastPosition - position)

@[simp] theorem stepPosition_stepColumn (position : UInt32) :
    stepPosition (stepColumn position).qualifier = .ok position := by
  rw [stepPosition_of_word32? (word32?_qualifier_stepColumn position), lastPosition_sub_sub]

end GuardedRows.Tx
