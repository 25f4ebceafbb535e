import GuardedRows.Proofs.Bytes.Hex
import GuardedRows.Text
import GuardedRows.Tx.Columns

/-!
# The order of step columns

Numbers written with the same number of digits are ordered as their digits are. A step column
counts down, so a higher position comes earlier in column order.
-/

set_option autoImplicit false

namespace GuardedRows

theorem Bytes.bigEndian_lt_bigEndian {width left right : Nat} (below : left < right)
    (fits : right < Nat.pow 256 width) : bigEndian width left < bigEndian width right := by
  have shorter : ∀ width number, bigEndian (width + 1) number =
      bigEndian width (number / 256) ++ [UInt8.ofNat number] := by
    intro width number
    rw [bigEndian, littleEndian, List.reverse_cons, bigEndian]
  induction width generalizing left right with
  | zero =>
      have single : Nat.pow 256 0 = 1 := rfl
      omega
  | succ width ih =>
      have grown : Nat.pow 256 (width + 1) = 256 * Nat.pow 256 width := Nat.pow_succ'
      rw [shorter, shorter]
      by_cases high : left / 256 < right / 256
      · exact Text.append_lt_append_of_lt (ih high (by omega)) (by simp) _ _
      · have same : left / 256 = right / 256 := by omega
        have low : UInt8.ofNat left < UInt8.ofNat right := by
          rw [UInt8.lt_iff_toNat_lt, UInt8.toNat_ofNat', UInt8.toNat_ofNat']
          omega
        rw [same]
        exact List.append_left_lt (List.cons_lt_cons_iff.mpr (.inl low))

theorem Column.compare_eq (left right : Column) :
    compare left right =
      (compare left.family right.family).then (compare left.qualifier right.qualifier) :=
  rfl

namespace Tx

theorem stepColumn_injective {left right : UInt32} (same : stepColumn left = stepColumn right) :
    left = right := by
  have read := congrArg (fun column => stepPosition column.qualifier) same
  simpa using read

/-- No position lies above the last one, so the distance to it is a true difference. -/
theorem toNat_lastPosition_sub (position : UInt32) :
    (lastPosition - position).toNat + position.toNat = lastPosition.toNat := by
  have last : lastPosition.toNat = 4294967295 := rfl
  have fits : position.toNat < 4294967296 := position.toNat_lt
  have within : position ≤ lastPosition := UInt32.le_iff_toNat_le.mpr (by omega)
  rw [UInt32.toNat_sub_of_le _ _ within]
  omega

/-- The step at a higher position has the earlier column. -/
theorem compare_stepColumn {left right : UInt32} (above : right < left) :
    compare (stepColumn left) (stepColumn right) = .lt := by
  have distance : (lastPosition - left).toNat < (lastPosition - right).toNat := by
    have order : right.toNat < left.toNat := UInt32.lt_iff_toNat_lt.mp above
    have fromLeft := toNat_lastPosition_sub left
    have fromRight := toNat_lastPosition_sub right
    omega
  have digits := Bytes.hex_lt_hex (Bytes.bigEndian_lt_bigEndian distance
    (show (lastPosition - right).toNat < Nat.pow 256 4 from (lastPosition - right).toNat_lt))
    (by simp)
  have qualifiers : (stepColumn left).qualifier < (stepColumn right).qualifier := by
    rw [String.lt_iff]
    simpa [stepColumn] using digits
  have families : compare (stepColumn left).family (stepColumn right).family = .eq :=
    Std.ReflCmp.compare_self
  rw [Column.compare_eq, families, Text.compare_eq_lt_iff.mpr qualifiers]
  rfl

end Tx

end GuardedRows
