import GuardedRows.Bytes
import GuardedRows.Uuid

/-!
# Binary layout

Stored values are written one behind another without marks between them. Numbers are little
endian at their full width; sequences are preceded by their length in eight bytes, and an
alternative by its number in four. A reader takes a value off the front and leaves the rest.
-/

set_option autoImplicit false

namespace GuardedRows

/-- Takes a value off the front of some bytes, if they start with one. -/
abbrev Reader (α : Type) := StateT Bytes Option α

/-- A type whose values have a binary form. -/
class Codec (α : Type) where
  write : α → Bytes
  read : Reader α

namespace Codec

def encode {α : Type} [Codec α] (value : α) : Bytes := write value

/-- The value some bytes start with. What stands behind it is ignored. -/
def decode? {α : Type} [Codec α] (bytes : Bytes) : Option α := (read.run bytes).map Prod.fst

/-! ## Numbers and alternatives -/

def take (count : Nat) : Reader Bytes := fun bytes =>
  if bytes.length < count then none else some (bytes.take count, bytes.drop count)

def number (width : Nat) : Reader Nat := do return Bytes.ofLittleEndian (← take width)

def alternative {α : Type} (values : List α) : Reader α := do
  let index ← number 4
  StateT.lift values[index]?

def writeAlternative {α : Type} [DecidableEq α] (values : List α) (value : α) : Bytes :=
  Bytes.littleEndian 4 (values.idxOf value)

instance : Codec UInt32 where
  write value := Bytes.littleEndian 4 value.toNat
  read := do return UInt32.ofNat (← number 4)

instance : Codec UInt64 where
  write value := Bytes.littleEndian 8 value.toNat
  read := do return UInt64.ofNat (← number 8)

instance : Codec Bool where
  write value := [if value then 1 else 0]
  read := do
    match ← number 1 with
    | 0 => return false
    | 1 => return true
    | _ => failure

/-! ## Sequences -/

instance : Codec Bytes where
  write bytes := Bytes.littleEndian 8 bytes.length ++ bytes
  read := do take (← number 8)

instance : Codec String where
  write text := write (Bytes.ofText text)
  read := do
    let bytes : Bytes ← read
    StateT.lift bytes.text?

instance : Codec Uuid where
  write uuid := write uuid.bytes
  read := do
    let bytes : Bytes ← read
    StateT.lift (Uuid.ofBytes? bytes)

/-- A value that may be missing is preceded by whether it is there. -/
instance {α : Type} [Codec α] : Codec (Option α) where
  write
    | none => [0]
    | some value => 1 :: write value
  read := do
    match ← number 1 with
    | 0 => return none
    | 1 => return some (← read)
    | _ => failure

instance {α β : Type} [Codec α] [Codec β] : Codec (α × β) where
  write pair := write pair.1 ++ write pair.2
  read := do
    let first ← read
    let second ← read
    return (first, second)

def readMany {α : Type} [Codec α] : Nat → Reader (List α)
  | 0 => return []
  | count + 1 => do
      let value ← read
      let values ← readMany count
      return value :: values

def writeList {α : Type} [Codec α] (values : List α) : Bytes :=
  Bytes.littleEndian 8 values.length ++ values.flatMap write

def readList {α : Type} [Codec α] : Reader (List α) := do readMany (← number 8)

def readMap {α β : Type} [Codec α] (make : α → β) : Reader β := do return make (← read)

end Codec

end GuardedRows
