import GuardedRows.Bytes
import GuardedRows.Proofs.Text.Order

/-!
# Hexadecimal text as an encoding

Digits read as bytes if, in lower case, they are the text of the bytes. As many bytes are
ordered as their texts are.
-/

set_option autoImplicit false

namespace GuardedRows

/-! ## Reading -/

private theorem hexValue?_of_ascii : ∀ code < 128, ∀ value < 16,
    hexValue? (Char.ofNat code) = some value ↔
      (Char.ofNat code).toLower = Nat.digitChar value := by
  decide +kernel

private theorem hexValue?_lt {digit : Char} {value : Nat} (read : hexValue? digit = some value) :
    digit.toNat < 128 ∧ value < 16 := by
  unfold hexValue? at read
  split at read
  · next decimal =>
      have upper : digit.toNat ≤ 57 := decimal.2
      cases read
      exact ⟨by omega, Nat.lt_of_le_of_lt (Nat.sub_le_sub_right upper _) (by decide)⟩
  · split at read
    · next lower =>
        have upper : digit.toNat ≤ 102 := lower.2
        cases read
        exact ⟨by omega, Nat.lt_of_le_of_lt (Nat.add_le_add_right (Nat.sub_le_sub_right upper _) 10)
          (by decide)⟩
    · split at read
      · next capital =>
          have upper : digit.toNat ≤ 70 := capital.2
          cases read
          exact ⟨by omega,
            Nat.lt_of_le_of_lt (Nat.add_le_add_right (Nat.sub_le_sub_right upper _) 10)
              (by decide)⟩
      · cases read

private theorem toNat_lt_of_toLower {digit : Char} {value : Nat} (small : value < 16)
    (lower : digit.toLower = Nat.digitChar value) : digit.toNat < 128 := by
  have digits : ∀ value < 16, (Nat.digitChar value).toNat < 128 := by decide
  unfold Char.toLower at lower
  split at lower
  · next capital =>
      have upper : digit.toNat ≤ 90 := capital.2
      omega
  · rw [lower]
    exact digits value small

theorem hexValue?_eq_some_iff {digit : Char} {value : Nat} :
    hexValue? digit = some value ↔ value < 16 ∧ digit.toLower = Nat.digitChar value := by
  constructor
  · intro read
    obtain ⟨ascii, small⟩ := hexValue?_lt read
    have same := hexValue?_of_ascii digit.toNat ascii value small
    rw [Char.ofNat_toNat] at same
    exact ⟨small, same.mp read⟩
  · intro both
    obtain ⟨small, lower⟩ := both
    have same := hexValue?_of_ascii digit.toNat (toNat_lt_of_toLower small lower) value small
    rw [Char.ofNat_toNat] at same
    exact same.mpr lower

namespace Bytes

private theorem ofNat_eq_iff {high low : Nat} (highSmall : high < 16) (lowSmall : low < 16)
    {byte : UInt8} :
    UInt8.ofNat (16 * high + low) = byte ↔
      high = byte.toNat / 16 ∧ low = byte.toNat % 16 := by
  rw [← UInt8.toNat_inj, UInt8.toNat_ofNat_of_lt' (show 16 * high + low < UInt8.size by
    have : UInt8.size = 256 := rfl
    omega)]
  omega

/-- Digits read as bytes exactly if they are the text of the bytes, in letters of either
case. -/
theorem ofHex?_eq_some_iff {digits : List Char} {bytes : Bytes} :
    ofHex? digits = some bytes ↔ digits.map Char.toLower = bytes.hex := by
  fun_induction ofHex? digits generalizing bytes with
  | case1 => cases bytes <;> simp [hex]
  | case2 digit => cases bytes <;> simp [hex]
  | case3 high low rest ih =>
      simp only [Option.bind_eq_bind, Option.pure_def, Option.bind_eq_some_iff,
        Option.some.injEq, List.map_cons]
      cases bytes with
      | nil => simp [hex]
      | cons byte tail =>
          simp only [hex, List.cons.injEq, ih]
          constructor
          · intro read
            obtain ⟨upper, readHigh, lower, readLow, _, readRest, same, rfl⟩ := read
            obtain ⟨upperSmall, highLower⟩ := hexValue?_eq_some_iff.mp readHigh
            obtain ⟨lowerSmall, lowLower⟩ := hexValue?_eq_some_iff.mp readLow
            obtain ⟨rfl, rfl⟩ := (ofNat_eq_iff upperSmall lowerSmall).mp same
            exact ⟨highLower, lowLower, readRest⟩
          · intro shown
            obtain ⟨highLower, lowLower, readRest⟩ := shown
            have small : byte.toNat < 256 := byte.toNat_lt
            have upperSmall : byte.toNat / 16 < 16 := by omega
            have lowerSmall : byte.toNat % 16 < 16 := Nat.mod_lt _ (by decide)
            exact ⟨_, hexValue?_eq_some_iff.mpr ⟨upperSmall, highLower⟩, _,
              hexValue?_eq_some_iff.mpr ⟨lowerSmall, lowLower⟩, tail, readRest,
              (ofNat_eq_iff upperSmall lowerSmall).mpr ⟨rfl, rfl⟩, rfl⟩

/-! ## Order -/

theorem hex_append (left right : Bytes) : (left ++ right).hex = left.hex ++ right.hex := by
  induction left with
  | nil => rfl
  | cons byte rest ih => simp only [List.cons_append, hex, ih]

private theorem digitChar_lt_digitChar : ∀ right < 16, ∀ left < right,
    Nat.digitChar left < Nat.digitChar right := by
  decide

private theorem hex_byte_lt {left right : UInt8} (below : left < right) :
    hex [left] < hex [right] := by
  have order : left.toNat < right.toNat := UInt8.lt_iff_toNat_lt.mp below
  have fits : right.toNat < 256 := right.toNat_lt
  by_cases high : left.toNat / 16 < right.toNat / 16
  · exact List.cons_lt_cons_iff.mpr
      (.inl (digitChar_lt_digitChar (right.toNat / 16) (by omega) (left.toNat / 16) high))
  · have same : left.toNat / 16 = right.toNat / 16 := by omega
    have low : left.toNat % 16 < right.toNat % 16 := by omega
    rw [hex, hex, same]
    exact List.cons_lt_cons_iff.mpr (.inr ⟨rfl, List.cons_lt_cons_iff.mpr
      (.inl (digitChar_lt_digitChar (right.toNat % 16) (by omega) (left.toNat % 16) low))⟩)

theorem hex_lt_hex {left right : Bytes} (below : left < right)
    (same : left.length = right.length) : left.hex < right.hex := by
  induction left generalizing right with
  | nil =>
      cases right with
      | nil => exact absurd below (List.not_lt_nil _)
      | cons head rest => cases same
  | cons byte tail ih =>
      cases right with
      | nil => cases same
      | cons head rest =>
          have parts : ∀ (first : UInt8) (others : Bytes),
              hex (first :: others) = hex [first] ++ others.hex :=
            fun first others => hex_append [first] others
          rw [parts, parts]
          rcases List.cons_lt_cons_iff.mp below with smaller | ⟨rfl, smaller⟩
          · exact Text.append_lt_append_of_lt (hex_byte_lt smaller) rfl _ _
          · exact List.append_left_lt (ih smaller (Nat.succ.inj same))

end Bytes

end GuardedRows
