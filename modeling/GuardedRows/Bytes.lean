/-!
# Bytes

Cell values, stored steps and UUIDs are sequences of bytes. Numbers among them have a fixed
width, texts stand as their UTF-8 bytes, and bytes are shown as hexadecimal digits.
-/

set_option autoImplicit false

namespace GuardedRows

abbrev Bytes := List UInt8

namespace Bytes

def littleEndian : Nat → Nat → Bytes
  | 0, _ => []
  | width + 1, number => UInt8.ofNat number :: littleEndian width (number / 256)

def ofLittleEndian : Bytes → Nat
  | [] => 0
  | byte :: rest => byte.toNat + 256 * ofLittleEndian rest

def bigEndian (width number : Nat) : Bytes := (littleEndian width number).reverse

@[simp] theorem length_littleEndian (width number : Nat) :
    (littleEndian width number).length = width := by
  induction width generalizing number with
  | zero => rfl
  | succ width ih => simp [littleEndian, ih]

@[simp] theorem length_bigEndian (width number : Nat) :
    (bigEndian width number).length = width := by
  simp [bigEndian]

theorem ofLittleEndian_littleEndian (width number : Nat) :
    ofLittleEndian (littleEndian width number) = number % Nat.pow 256 width := by
  induction width generalizing number with
  | zero => simp [littleEndian, ofLittleEndian, Nat.mod_one]
  | succ width ih =>
      have byte : (UInt8.ofNat number).toNat = number % 256 := by simp
      have grown : Nat.pow 256 (width + 1) = 256 * Nat.pow 256 width := Nat.pow_succ'
      rw [littleEndian, ofLittleEndian, ih, byte, grown, Nat.mod_mul]

theorem ofLittleEndian_eq_foldr (bytes : Bytes) :
    ofLittleEndian bytes = bytes.foldr (fun byte value => 256 * value + byte.toNat) 0 := by
  induction bytes with
  | nil => rfl
  | cons byte rest ih => simp [ofLittleEndian, ih, Nat.add_comm]

/-! ## Text in UTF-8

Bytes that are not UTF-8 have no text.
-/

def ofText (text : String) : Bytes := text.toByteArray.data.toList

def text? (bytes : Bytes) : Option String := String.fromUTF8? ⟨bytes.toArray⟩

@[simp] theorem text?_ofText (text : String) : (ofText text).text? = some text := by
  have valid : text.toByteArray.IsValidUTF8 := text.isValidUTF8
  simp [text?, ofText, String.fromUTF8?, String.fromUTF8, valid]

theorem eq_ofText_of_text? {bytes : Bytes} {text : String} (read : bytes.text? = some text) :
    bytes = ofText text := by
  unfold text? String.fromUTF8? at read
  split at read
  · cases read
    simp [ofText, String.fromUTF8]
  · cases read

theorem ofText_injective {left right : String} (same : ofText left = ofText right) :
    left = right := by
  have := congrArg text? same
  simpa using this

end Bytes

/-! ## Hexadecimal digits

Each byte is two digits. Letters are written in lower case and read in either case.
-/

def hexValue? (digit : Char) : Option Nat :=
  if '0' ≤ digit ∧ digit ≤ '9' then some (digit.toNat - '0'.toNat)
  else if 'a' ≤ digit ∧ digit ≤ 'f' then some (digit.toNat - 'a'.toNat + 10)
  else if 'A' ≤ digit ∧ digit ≤ 'F' then some (digit.toNat - 'A'.toNat + 10)
  else none

namespace Bytes

def hex : Bytes → List Char
  | [] => []
  | byte :: rest =>
      Nat.digitChar (byte.toNat / 16) :: Nat.digitChar (byte.toNat % 16) :: hex rest

/-- Reads pairs of digits. An odd digit at the end is refused. -/
def ofHex? : List Char → Option Bytes
  | [] => some []
  | [_] => none
  | high :: low :: rest => do
      let high ← hexValue? high
      let low ← hexValue? low
      let rest ← ofHex? rest
      return UInt8.ofNat (16 * high + low) :: rest

@[simp] theorem length_hex (bytes : Bytes) : bytes.hex.length = 2 * bytes.length := by
  induction bytes with
  | nil => rfl
  | cons byte rest ih => simp [hex, ih]; omega

theorem hexValue?_digitChar : ∀ value < 16, hexValue? (Nat.digitChar value) = some value := by
  decide

@[simp] theorem ofHex?_hex (bytes : Bytes) : ofHex? bytes.hex = some bytes := by
  induction bytes with
  | nil => rfl
  | cons byte rest ih =>
      have small : byte.toNat < 256 := byte.toNat_lt
      have high := hexValue?_digitChar (byte.toNat / 16) (by omega)
      have low := hexValue?_digitChar (byte.toNat % 16) (by omega)
      have whole : UInt8.ofNat (16 * (byte.toNat / 16) + byte.toNat % 16) = byte := by
        rw [Nat.div_add_mod]; simp
      simp only [hex, ofHex?, high, low, ih, Option.bind_eq_bind, Option.bind_some,
        Option.pure_def, whole]

end Bytes

end GuardedRows
