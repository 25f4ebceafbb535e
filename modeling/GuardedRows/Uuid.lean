import GuardedRows.Bytes
import GuardedRows.Text

/-!
# UUIDs

A UUID is sixteen bytes, ordered as bytes. It is written in lower case as groups of 8, 4,
4, 4 and 12 hexadecimal digits with hyphens between them. It is read from that form, from
the bare 32 digits, from the grouped form in braces and from the grouped form after
`urn:uuid:`, with digits of either case. Formats differ in whether the letters before the
digits may be capitals, so ids take a format as they take their UUIDs.
-/

set_option autoImplicit false

namespace GuardedRows

structure Uuid where
  bytes : Bytes
  length_bytes : bytes.length = 16
  deriving DecidableEq

namespace Uuid

theorem ext_bytes {left right : Uuid} (same : left.bytes = right.bytes) : left = right := by
  cases left
  cases right
  cases same
  rfl

instance : Inhabited Uuid := ⟨⟨List.replicate 16 0, rfl⟩⟩

instance : Ord Uuid := ⟨compareOn bytes⟩

instance : Std.TransOrd Uuid := inferInstanceAs (Std.TransCmp (compareOn Uuid.bytes))

instance : Std.LawfulEqOrd Uuid where
  eq_of_compare order := ext_bytes (Std.LawfulEqOrd.eq_of_compare order)

def ofBytes? (bytes : Bytes) : Option Uuid :=
  if length_bytes : bytes.length = 16 then some ⟨bytes, length_bytes⟩ else none

/-! ## Grouped digits -/

def groups : List Nat := [8, 4, 4, 4, 12]

def hyphenate : List Nat → List Char → List Char
  | [], _ => []
  | [_], digits => digits
  | width :: more, digits =>
      digits.take width ++ '-' :: hyphenate more (digits.drop width)

def unhyphenate? : List Nat → List Char → Option (List Char)
  | [], text => if text = [] then some [] else none
  | [width], text => if text.length = width then some text else none
  | width :: more, text =>
      match text.drop width with
      | '-' :: rest => (unhyphenate? more rest).map (text.take width ++ ·)
      | _ => none

/-! ## Text -/

def written (uuid : Uuid) : List Char := hyphenate groups uuid.bytes.hex

def text (uuid : Uuid) : String := String.ofList uuid.written

def braced? : List Char → Option (List Char)
  | '{' :: rest => (Text.dropEnd? '}' rest).bind (unhyphenate? groups)
  | _ => none

def urnLead : List Char := ['u', 'r', 'n', ':', 'u', 'u', 'i', 'd', ':']

def urn? (text : List Char) : Option (List Char) :=
  if (text.take 9).map Char.toLower = urnLead then unhyphenate? groups (text.drop 9)
  else none

/-- The digits of an accepted spelling. Each spelling has a length of its own. -/
def digits? (text : List Char) : Option (List Char) :=
  match text.length with
  | 32 => some text
  | 36 => unhyphenate? groups text
  | 38 => braced? text
  | 45 => urn? text
  | _ => none

def read? (text : List Char) : Option Uuid := do
  let digits ← digits? text
  let bytes ← Bytes.ofHex? digits
  ofBytes? bytes

def parse? (text : String) : Option Uuid := read? text.toList

/-! ## Formats -/

/-- How UUIDs are read and written. -/
structure Format where
  parse? : String → Option Uuid
  text : Uuid → String

/-- Takes the letters before the digits in either case. -/
def format : Format := ⟨parse?, text⟩

/-- Takes the letters before the digits as they are usually written only. -/
def Format.literal : Format where
  parse? text :=
    if text.length = 45 ∧ text.toList.take 9 ≠ urnLead then none else Uuid.parse? text
  text := Uuid.text

/-! ## Reading what was written -/

def countDigits : List Nat → Nat
  | [] => 0
  | width :: more => width + countDigits more

theorem unhyphenate?_hyphenate (widths : List Nat) (digits : List Char)
    (fits : digits.length = countDigits widths) :
    unhyphenate? widths (hyphenate widths digits) = some digits := by
  induction widths generalizing digits with
  | nil => simpa [hyphenate, unhyphenate?, countDigits] using fits
  | cons width more ih =>
      cases more with
      | nil =>
          have whole : digits.length = width := fits
          simp [hyphenate, unhyphenate?, whole]
      | cons next others =>
          have fits : digits.length = width + countDigits (next :: others) := fits
          have taken : (digits.take width).length = width := by simp; omega
          have rest := ih (digits.drop width) (by simp; omega)
          simp [hyphenate, unhyphenate?, List.drop_left' taken, List.take_left' taken, rest]

theorem length_hyphenate (width : Nat) (more : List Nat) (digits : List Char) :
    (hyphenate (width :: more) digits).length = digits.length + more.length := by
  induction more generalizing width digits with
  | nil => rfl
  | cons next others ih =>
      simp only [hyphenate, List.length_append, List.length_take, List.length_cons, ih,
        List.length_drop]
      omega

@[simp] theorem length_written (uuid : Uuid) : uuid.written.length = 36 := by
  simp [written, groups, length_hyphenate, uuid.length_bytes]

@[simp] theorem ofBytes?_bytes (uuid : Uuid) : ofBytes? uuid.bytes = some uuid := by
  simp [ofBytes?, uuid.length_bytes]

@[simp] theorem read?_written (uuid : Uuid) : read? uuid.written = some uuid := by
  have digits : digits? uuid.written = some uuid.bytes.hex := by
    have fits : uuid.bytes.hex.length = countDigits groups := by
      rw [Bytes.length_hex, uuid.length_bytes]
      rfl
    unfold digits?
    rw [length_written]
    exact unhyphenate?_hyphenate groups uuid.bytes.hex fits
  simp [read?, digits]

@[simp] theorem parse?_text (uuid : Uuid) : parse? uuid.text = some uuid := by
  simp [parse?, text]

end Uuid

end GuardedRows
